import AnythingTool.Rpc.Transport

/-!
# The time a request may take

`anything_transport_read_request` on a clock. The time is looked at before each call of `read`
and once more behind the loop, and a call returns when the receive timeout of the socket is
over at the latest. So a peer that sends slowly, or nothing, cannot hold the daemon for longer
than the deadline and one timeout together (`readRequest_timed`), and a request is refused for
its time only when it has taken too long.

`elapsed_ms_since` cuts the difference of the nanoseconds towards zero, so what it returns is
less than a millisecond off, on either side.
-/

namespace AnythingTool

open CText

/-! ## Clocks -/

/-- `struct timespec` -/
structure Timespec where
  sec : ℤ
  nsec : ℤ
deriving DecidableEq

namespace Timespec

/-- What it stands for, in nanoseconds. -/
def total (t : Timespec) : ℤ := t.sec * 1000000000 + t.nsec

/-- As `clock_gettime` fills it in. -/
def Normal (t : Timespec) : Prop := 0 ≤ t.nsec ∧ t.nsec < 1000000000

end Timespec

/-- `elapsed_ms_since` -/
def elapsedMsSince (start now : Timespec) : ℤ :=
  (now.sec - start.sec) * 1000 + (now.nsec - start.nsec).tdiv 1000000

/-- `struct timeval` -/
structure Timeval where
  sec : ℤ
  usec : ℤ
deriving DecidableEq

/-- The receive timeout of `anything_transport_set_read_timeout`. -/
def receiveTimeout (timeoutMs : ℤ) : Timeval :=
  ⟨timeoutMs.tdiv 1000, timeoutMs.tmod 1000 * 1000⟩

/-- What it stands for, in nanoseconds. -/
def Timeval.total (t : Timeval) : ℤ := t.sec * 1000000000 + t.usec * 1000

section Clocks

variable {start now : Timespec}

/-- The time that is returned is less than a millisecond off. -/
theorem elapsedMsSince_bounds (hstart : start.Normal) (hnow : now.Normal) :
    now.total - start.total - 1000000 < elapsedMsSince start now * 1000000 ∧
      elapsedMsSince start now * 1000000 < now.total - start.total + 1000000 := by
  obtain ⟨hstart₀, hstart₁⟩ := hstart
  obtain ⟨hnow₀, hnow₁⟩ := hnow
  unfold elapsedMsSince Timespec.total
  generalize hnsec : now.nsec - start.nsec = d
  have hcut : (d.tdiv 1000000) * 1000000 + d.tmod 1000000 = d := Int.tdiv_mul_add_tmod d 1000000
  have hrest : -1000000 < d.tmod 1000000 ∧ d.tmod 1000000 < 1000000 := by
    have hlt := Int.tmod_lt_of_pos d (by decide : (0 : ℤ) < 1000000)
    have hgt := Int.lt_tmod_of_pos d (by decide : (0 : ℤ) < 1000000)
    exact ⟨hgt, hlt⟩
  constructor
  · linarith [hrest.1]
  · linarith [hrest.2]

/-- The timeout is set to the millisecond, with a fraction `setsockopt` takes. -/
theorem receiveTimeout_total {timeoutMs : ℤ} (h : 0 ≤ timeoutMs) :
    (receiveTimeout timeoutMs).total = timeoutMs * 1000000 ∧
      0 ≤ (receiveTimeout timeoutMs).usec ∧ (receiveTimeout timeoutMs).usec < 1000000 := by
  have hcut := Int.tdiv_mul_add_tmod timeoutMs 1000
  have hlow := Int.tmod_nonneg 1000 h
  have hhigh := Int.tmod_lt_of_pos timeoutMs (by decide : (0 : ℤ) < 1000)
  unfold receiveTimeout Timeval.total
  refine ⟨?_, ?_, ?_⟩
  · linarith
  · linarith
  · linarith

end Clocks

/-! ## The reader on a clock -/

section Timed

variable (maxBytes : ℕ) (deadlineMs : ℤ) (clock : ℕ → Timespec)

/-- The time of a look at the clock, the first of which is made at the start. -/
def lookMs (k : ℕ) : ℤ := elapsedMsSince (clock 0) (clock k)

/-- The read loop behind its look `k`, on what the calls of `read` return; then the stream
ends. It returns with the look by which it has ended. -/
def timedLoop : ℕ → Bytes → List ReadResult → Except ReadError Bytes × ℕ
  | k, buffer, [] =>
      if buffer.length < maxBytes then
        if lookMs clock (k + 1) > deadlineMs then (.error .deadlineExceeded, k + 1)
        else (.ok buffer, k + 1)
      else (.ok buffer, k)
  | k, buffer, result :: results =>
      if buffer.length < maxBytes then
        if lookMs clock (k + 1) > deadlineMs then (.error .deadlineExceeded, k + 1)
        else
          match result with
          | .interrupted => timedLoop (k + 1) buffer results
          -- the next look would come behind the call that has failed
          | .failed errno => (.error (.readFailed errno), k + 2)
          | .bytes chunk =>
              let chunk := chunk.take (maxBytes - buffer.length)
              if chunk = [] then (.ok buffer, k + 1)
              else if newline ∈ buffer ++ chunk then (.ok (buffer ++ chunk), k + 1)
              else timedLoop (k + 1) (buffer ++ chunk) results
      else (.ok buffer, k)

/-- `anything_transport_read_request`, with the look by which it has returned. -/
def timedReadRequest (results : List ReadResult) : Except ReadError Bytes × ℕ :=
  match timedLoop maxBytes deadlineMs clock 0 [] results with
  | (.error e, k) => (.error e, k)
  | (.ok buffer, k) =>
      if lookMs clock (k + 1) > deadlineMs then (.error .deadlineExceeded, k + 1)
      else if buffer.length ≥ maxBytes then (.error .tooLarge, k + 1)
      else (.ok buffer, k + 1)

/-- The calls of `read` with the looks made before them. -/
def callsAt : ℕ → List ReadResult → List ReadCall
  | _, [] => []
  | k, result :: results => ⟨lookMs clock (k + 1), result⟩ :: callsAt (k + 1) results

end Timed

section Run

variable {maxBytes : ℕ} {deadlineMs : ℤ} {clock : ℕ → Timespec}

/-- How the loop on a clock ends: as the loop on the calls, or late behind the last of
them. -/
inductive TimedEnds (deadlineMs : ℤ) (clock : ℕ → Timespec) :
    Except ReadError Bytes → Except ReadError Bytes × ℕ → Prop
  | same {buffer : Bytes} {k : ℕ} (hlook : lookMs clock k ≤ deadlineMs) :
      TimedEnds deadlineMs clock (.ok buffer) (.ok buffer, k)
  | stopped {e : ReadError} {k : ℕ} (hlook : lookMs clock k ≤ deadlineMs)
      (he : e = .deadlineExceeded → deadlineMs < lookMs clock (k + 1)) :
      TimedEnds deadlineMs clock (.error e) (.error e, k + 1)
  | late {buffer : Bytes} {k : ℕ} (hlook : lookMs clock k ≤ deadlineMs)
      (hlate : deadlineMs < lookMs clock (k + 1)) :
      TimedEnds deadlineMs clock (.ok buffer) (.error .deadlineExceeded, k + 1)

theorem timedLoop_ends (results : List ReadResult) {k : ℕ} {buffer : Bytes}
    (hlook : lookMs clock k ≤ deadlineMs) :
    TimedEnds deadlineMs clock (readLoop maxBytes deadlineMs buffer (callsAt clock k results))
      (timedLoop maxBytes deadlineMs clock k buffer results) := by
  induction results generalizing k buffer with
  | nil =>
      rw [callsAt, readLoop, timedLoop]
      split_ifs with hroom hlate
      · exact .late hlook hlate
      · exact .same (not_lt.mp hlate)
      · exact .same hlook
  | cons result results ih =>
      rw [callsAt, readLoop, timedLoop.eq_def]
      simp only
      by_cases hroom : buffer.length < maxBytes
      · simp only [if_pos hroom]
        by_cases hlate : lookMs clock (k + 1) > deadlineMs
        · simp only [if_pos hlate]
          exact .stopped hlook fun _ => hlate
        · simp only [if_neg hlate]
          have hintime := not_lt.mp hlate
          cases result with
          | interrupted => exact ih hintime
          | failed errno => exact .stopped hintime fun h => by cases h
          | bytes chunk =>
              simp only
              split_ifs
              · exact .same hintime
              · exact .same hintime
              · exact ih hintime
      · simp only [if_neg hroom]
        exact .same hlook

/-- How the reader on a clock ends: with the verdict of the reader on the calls, one look
behind a look that was in time. -/
theorem timedReadRequest_spec (hdeadline : 0 ≤ deadlineMs) (results : List ReadResult) :
    ∃ k, (timedReadRequest maxBytes deadlineMs clock results).2 = k + 1 ∧
      lookMs clock k ≤ deadlineMs ∧
      (timedReadRequest maxBytes deadlineMs clock results).1 =
        anythingTransportReadRequest maxBytes deadlineMs (callsAt clock 0 results)
          (lookMs clock (k + 1)) ∧
      ((timedReadRequest maxBytes deadlineMs clock results).1 = .error .deadlineExceeded →
        deadlineMs < lookMs clock (k + 1)) := by
  have hstart : lookMs clock 0 ≤ deadlineMs := by
    simpa [lookMs, elapsedMsSince] using hdeadline
  have hends : TimedEnds deadlineMs clock (readLoop maxBytes deadlineMs [] (callsAt clock 0 results))
      (timedLoop maxBytes deadlineMs clock 0 [] results) := timedLoop_ends results hstart
  unfold timedReadRequest anythingTransportReadRequest
  generalize readLoop maxBytes deadlineMs [] (callsAt clock 0 results) = loop at hends
  generalize timedLoop maxBytes deadlineMs clock 0 [] results = timed at hends
  cases hends with
  | @same buffer k hlook =>
      refine ⟨k, ?_⟩
      simp only [bind, Except.bind]
      split_ifs with hlate hfull
      · exact ⟨rfl, hlook, rfl, fun _ => hlate⟩
      · exact ⟨rfl, hlook, rfl, fun h => by cases h⟩
      · exact ⟨rfl, hlook, rfl, fun h => by cases h⟩
  | @stopped e k hlook he => exact ⟨k, rfl, hlook, rfl, fun h => he (Except.error.inj h)⟩
  | @late buffer k hlook hlate =>
      refine ⟨k, rfl, hlook, ?_, fun _ => hlate⟩
      simp only [bind, Except.bind, if_pos hlate]

end Run

/-- However slowly a peer sends, the reader has returned when the deadline and one receive
timeout are over, and whatever time the process was not running in between; it gives up for
the time only behind the deadline, and what it returns it has read in time. -/
theorem readRequest_timed (maxBytes : ℕ) (timeoutMs : ℤ) (clock : ℕ → Timespec)
    (results : List ReadResult) (pause : ℤ) (htimeout : 0 ≤ timeoutMs)
    (hnormal : ∀ k, (clock k).Normal)
    (hreturns : ∀ k, (clock (k + 1)).total ≤
      (clock k).total + (receiveTimeout timeoutMs).total + pause) :
    (timedReadRequest maxBytes timeoutMs clock results).1 =
        anythingTransportReadRequest maxBytes timeoutMs (callsAt clock 0 results)
          (lookMs clock (timedReadRequest maxBytes timeoutMs clock results).2) ∧
      (clock (timedReadRequest maxBytes timeoutMs clock results).2).total - (clock 0).total <
        (2 * timeoutMs + 1) * 1000000 + pause ∧
      ((timedReadRequest maxBytes timeoutMs clock results).1 = .error .deadlineExceeded →
        timeoutMs * 1000000 <
          (clock (timedReadRequest maxBytes timeoutMs clock results).2).total -
            (clock 0).total) ∧
      ∀ body, (timedReadRequest maxBytes timeoutMs clock results).1 = .ok body →
        (clock (timedReadRequest maxBytes timeoutMs clock results).2).total -
          (clock 0).total < (timeoutMs + 1) * 1000000 := by
  obtain ⟨k, hk, hlook, hsame, hlate⟩ :=
    @timedReadRequest_spec maxBytes timeoutMs clock htimeout results
  have htotal := (receiveTimeout_total htimeout).1
  have hbounds := elapsedMsSince_bounds (hnormal 0) (hnormal k)
  have hbounds' := elapsedMsSince_bounds (hnormal 0) (hnormal (k + 1))
  have hreturn := hreturns k
  change lookMs clock k ≤ timeoutMs at hlook
  rw [hk]
  refine ⟨hsame, ?_, ?_, ?_⟩
  · have hms : elapsedMsSince (clock 0) (clock k) ≤ timeoutMs := hlook
    linarith [hbounds.1]
  · intro h
    have hms : timeoutMs + 1 ≤ elapsedMsSince (clock 0) (clock (k + 1)) := hlate h
    linarith [hbounds'.2]
  · intro body hbody
    have hms : elapsedMsSince (clock 0) (clock (k + 1)) ≤ timeoutMs := by
      rw [hsame, anythingTransportReadRequest] at hbody
      cases hloop : readLoop maxBytes timeoutMs [] (callsAt clock 0 results) with
      | error e =>
          rw [hloop] at hbody
          cases hbody
      | ok buffer =>
          rw [hloop] at hbody
          simp only [bind, Except.bind] at hbody
          split_ifs at hbody with hover
          exact not_lt.mp hover
    linarith [hbounds'.1]

/-- A peer that sends a byte every second is given up within five seconds. -/
theorem readRequest_timed_sample :
    (timedReadRequest 1048576 2000 (fun k => ⟨k, 0⟩)
        (List.replicate 5 (.bytes (ascii "x")))).1 = .error .deadlineExceeded ∧
      (Timespec.total ⟨(timedReadRequest 1048576 2000 (fun k => ⟨k, 0⟩)
        (List.replicate 5 (.bytes (ascii "x")))).2, 0⟩) < 5000000000 := by
  have htimed := readRequest_timed 1048576 2000 (fun k => ⟨k, 0⟩)
    (List.replicate 5 (.bytes (ascii "x"))) 0 (by decide) (fun k => ⟨by simp, by simp⟩)
    (fun k => by
      have htotal := (receiveTimeout_total (by decide : (0 : ℤ) ≤ 2000)).1
      rw [htotal]
      simp only [Timespec.total]
      push_cast
      linarith)
  refine ⟨by decide +kernel, ?_⟩
  have hbound := htimed.2.1
  simp only [Timespec.total, Nat.cast_zero] at hbound ⊢
  linarith

end AnythingTool
