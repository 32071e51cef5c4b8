import AnythingTool.Rpc.Parse

/-!
# Reading a request from a socket

`anything_transport_read_request` reads until the buffer has a newline and returns all of
it. `Delivers` says that a stream arrives in the results of a sequence of calls, and
`readLoop_delivers` what the loop then has: the stream up to the end of the result that
brings the first newline. The end of the line is the end of the request exactly when
nothing is sent behind it, and the size limit refuses what is over it exactly when the
stream is not just as long as the limit.
-/

namespace AnythingTool

open CText

/-! ## The reader -/

/-- What a call of `read` returns; an empty text is the end of the stream. -/
inductive ReadResult
  | bytes (chunk : Bytes)
  | interrupted
  | failed (errno : Bytes)
deriving DecidableEq

/-- A call of `read`, and the time the loop looks at before it. -/
structure ReadCall where
  elapsedMs : ℤ
  result : ReadResult
deriving DecidableEq

/-- The errors of `anything_transport_read_request`. -/
inductive ReadError
  | deadlineExceeded
  | readFailed (errno : Bytes)
  | tooLarge
deriving DecidableEq

/-- The text written to the error buffer. -/
def ReadError.message : ReadError → Bytes
  | .deadlineExceeded => ascii "request deadline exceeded"
  | .readFailed errno => ascii "read failed: " ++ errno
  | .tooLarge => ascii "request exceeds configured max_request_bytes"

section Reader

variable (maxBytes : ℕ) (deadlineMs : ℤ)

/-- The read loop. Behind the calls the stream ends; a time that is over by then is over
after the loop as well, where it is looked at again. -/
def readLoop : Bytes → List ReadCall → Except ReadError Bytes
  | buffer, [] => .ok buffer
  | buffer, call :: calls =>
      if buffer.length < maxBytes then
        if call.elapsedMs > deadlineMs then .error .deadlineExceeded
        else
          match call.result with
          | .interrupted => readLoop buffer calls
          | .failed errno => .error (.readFailed errno)
          | .bytes chunk =>
              -- `read` returns at most what it is asked for
              let chunk := chunk.take (maxBytes - buffer.length)
              if chunk = [] then .ok buffer
              else if newline ∈ buffer ++ chunk then .ok (buffer ++ chunk)
              else readLoop (buffer ++ chunk) calls
      else .ok buffer

/-- `anything_transport_read_request`; `elapsedMs` is the time after the loop. -/
def anythingTransportReadRequest (calls : List ReadCall) (elapsedMs : ℤ) :
    Except ReadError Bytes := do
  let buffer ← readLoop maxBytes deadlineMs [] calls
  if elapsedMs > deadlineMs then .error .deadlineExceeded
  else if buffer.length ≥ maxBytes then .error .tooLarge
  else .ok buffer

end Reader

/-! ## How a stream arrives -/

/-- The results of the calls are the stream, cut into texts that are not empty, and no
call comes late. -/
inductive Delivers (deadlineMs : ℤ) : List ReadCall → Bytes → Prop
  | nil : Delivers deadlineMs [] []
  | interrupted {elapsedMs : ℤ} {calls : List ReadCall} {stream : Bytes}
      (htime : elapsedMs ≤ deadlineMs) (h : Delivers deadlineMs calls stream) :
      Delivers deadlineMs (⟨elapsedMs, .interrupted⟩ :: calls) stream
  | bytes {elapsedMs : ℤ} {chunk : Bytes} {calls : List ReadCall} {stream : Bytes}
      (htime : elapsedMs ≤ deadlineMs) (hne : chunk ≠ [])
      (h : Delivers deadlineMs calls stream) :
      Delivers deadlineMs (⟨elapsedMs, .bytes chunk⟩ :: calls) (chunk ++ stream)

section Delivery

variable {maxBytes : ℕ} {deadlineMs elapsedMs : ℤ} {calls : List ReadCall} {stream : Bytes}

/-- A stream can arrive in one piece. -/
theorem Delivers.whole (hne : stream ≠ []) :
    Delivers deadlineMs [⟨deadlineMs, .bytes stream⟩] stream := by
  have h : Delivers deadlineMs [⟨deadlineMs, .bytes stream⟩] (stream ++ []) :=
    .bytes le_rfl hne .nil
  rwa [List.append_nil] at h

/-- The loop ends behind the result that brings a newline, or at the end of the stream. -/
theorem readLoop_delivers (h : Delivers deadlineMs calls stream) {buffer : Bytes}
    (hopen : newline ∉ buffer) (hfits : buffer.length + stream.length < maxBytes) :
    ∃ read unread, stream = read ++ unread ∧ (newline ∈ read ∨ unread = []) ∧
      readLoop maxBytes deadlineMs buffer calls = .ok (buffer ++ read) := by
  induction h generalizing buffer with
  | nil => exact ⟨[], [], rfl, .inr rfl, by rw [readLoop, List.append_nil]⟩
  | interrupted htime _ ih =>
      obtain ⟨read, unread, rfl, hend, hloop⟩ := ih hopen hfits
      refine ⟨read, unread, rfl, hend, ?_⟩
      rw [readLoop, if_pos (by omega), if_neg (not_lt.mpr htime)]
      exact hloop
  | @bytes _ chunk calls stream htime hne _ ih =>
      rw [List.length_append] at hfits
      have htake : chunk.take (maxBytes - buffer.length) = chunk :=
        List.take_of_length_le (by omega)
      rw [readLoop, if_pos (by omega), if_neg (not_lt.mpr htime)]
      simp only [htake, if_neg hne]
      by_cases hline : newline ∈ buffer ++ chunk
      · have hchunk : newline ∈ chunk := (List.mem_append.mp hline).resolve_left hopen
        exact ⟨chunk, stream, rfl, .inl hchunk, if_pos hline⟩
      · obtain ⟨read, unread, rfl, hend, hloop⟩ := ih hline
          (by rw [List.length_append]; omega)
        refine ⟨chunk ++ read, unread, (List.append_assoc ..).symm, ?_, ?_⟩
        · exact hend.imp_left (List.mem_append_right chunk)
        · rw [if_neg hline, hloop, List.append_assoc]

/-- A stream that arrives in time and fits is read: a part of it that has its first line,
or all of it. -/
theorem readRequest_delivers (h : Delivers deadlineMs calls stream)
    (htime : elapsedMs ≤ deadlineMs) (hfits : stream.length < maxBytes) :
    ∃ read unread, stream = read ++ unread ∧ (newline ∈ read ∨ unread = []) ∧
      anythingTransportReadRequest maxBytes deadlineMs calls elapsedMs = .ok read := by
  have hempty : ([] : Bytes).length + stream.length < maxBytes := by simpa using hfits
  obtain ⟨read, unread, rfl, hend, hloop⟩ := readLoop_delivers h List.not_mem_nil hempty
  have hlen : read.length < maxBytes := by
    rw [List.length_append] at hfits
    omega
  refine ⟨read, unread, rfl, hend, ?_⟩
  rw [anythingTransportReadRequest, hloop]
  simp only [bind, Except.bind, List.nil_append]
  rw [if_neg (not_lt.mpr htime), if_neg (not_le.mpr hlen)]

/-! ## Lines -/

/-- The stream up to and including its first newline. -/
def firstLine : Bytes → Bytes
  | [] => []
  | c :: stream => if c = newline then [c] else c :: firstLine stream

theorem firstLine_prefix (stream : Bytes) : firstLine stream <+: stream := by
  induction stream with
  | nil => exact List.prefix_rfl
  | cons c stream ih =>
      rw [firstLine]
      split_ifs
      · exact ⟨stream, rfl⟩
      · exact List.cons_prefix_cons.mpr ⟨rfl, ih⟩

/-- What follows a newline is not looked at. -/
theorem firstLine_append {read unread : Bytes} (h : newline ∈ read ∨ unread = []) :
    firstLine (read ++ unread) = firstLine read := by
  induction read with
  | nil =>
      rcases h with h | rfl
      · cases h
      · rfl
  | cons c read ih =>
      rw [List.cons_append, firstLine, firstLine]
      split_ifs with hc
      · rfl
      · have hrest : newline ∈ read ∨ unread = [] := by
          refine h.imp_left fun hmem => ?_
          exact (List.mem_cons.mp hmem).resolve_left fun heq => hc heq.symm
        rw [ih hrest]

/-- A stream is one line when only its last byte can be a newline. -/
theorem firstLine_eq_self (stream : Bytes) :
    firstLine stream = stream ↔ newline ∉ stream.dropLast := by
  induction stream with
  | nil => simp [firstLine]
  | cons c stream ih =>
      rw [firstLine]
      cases stream with
      | nil =>
          split_ifs
          all_goals simp [firstLine]
      | cons d stream =>
          rw [List.dropLast_cons_cons, List.mem_cons, not_or]
          split_ifs with hc
          · simp [hc]
          · rw [List.cons_inj_right, ih]
            exact (and_iff_right fun heq => hc heq.symm).symm

/-- However the stream arrives, the request is its first line, and the parser has one
verdict on it. -/
def ReadAsLine (maxBytes : ℕ) (deadlineMs : ℤ) (stream : Bytes) : Prop :=
  ∀ calls₁ calls₂ : List ReadCall, ∀ elapsedMs₁ elapsedMs₂ : ℤ,
    Delivers deadlineMs calls₁ stream → Delivers deadlineMs calls₂ stream →
      elapsedMs₁ ≤ deadlineMs → elapsedMs₂ ≤ deadlineMs →
        anythingTransportReadRequest maxBytes deadlineMs calls₁ elapsedMs₁ =
            .ok (firstLine stream) ∧
          anythingTransportReadRequest maxBytes deadlineMs calls₂ elapsedMs₂ =
            .ok (firstLine stream) ∧
          (anythingTransportReadRequest maxBytes deadlineMs calls₁ elapsedMs₁).map
              anythingRpcParse =
            (anythingTransportReadRequest maxBytes deadlineMs calls₂ elapsedMs₂).map
              anythingRpcParse

/-- A stream that is one line is read whole, however it arrives. -/
theorem readRequest_line (h : Delivers deadlineMs calls stream)
    (htime : elapsedMs ≤ deadlineMs) (hfits : stream.length < maxBytes)
    (hline : firstLine stream = stream) :
    anythingTransportReadRequest maxBytes deadlineMs calls elapsedMs =
      .ok (firstLine stream) := by
  obtain ⟨read, unread, rfl, hend, hread⟩ := readRequest_delivers h htime hfits
  have hprefix : read ++ unread <+: read := by
    rw [← hline, firstLine_append hend]
    exact firstLine_prefix read
  have hall : unread = [] := by
    have hlen := hprefix.length_le
    rw [List.length_append] at hlen
    exact List.length_eq_zero_iff.mp (by omega)
  rw [hread, hline, hall, List.append_nil]

/-- A stream that arrives in one piece is read whole, its later lines included. -/
theorem readRequest_whole (hne : stream ≠ []) (hfits : stream.length < maxBytes) :
    anythingTransportReadRequest maxBytes deadlineMs [⟨deadlineMs, .bytes stream⟩]
      deadlineMs = .ok stream := by
  have hroom : ([] : Bytes).length < maxBytes := (Nat.zero_le _).trans_lt hfits
  have htake : stream.take (maxBytes - ([] : Bytes).length) = stream :=
    List.take_of_length_le hfits.le
  have hloop : readLoop maxBytes deadlineMs [] [⟨deadlineMs, .bytes stream⟩] =
      .ok stream := by
    rw [readLoop, if_pos hroom, if_neg (lt_irrefl deadlineMs)]
    simp only [htake, if_neg hne, List.nil_append, readLoop, ite_self]
  rw [anythingTransportReadRequest, hloop]
  simp only [bind, Except.bind]
  rw [if_neg (lt_irrefl deadlineMs), if_neg (not_le.mpr hfits)]

/-- Requests are framed by lines exactly for the streams with nothing behind the first
newline. -/
theorem readAsLine_iff (hfits : stream.length < maxBytes) :
    ReadAsLine maxBytes deadlineMs stream ↔ newline ∉ stream.dropLast := by
  rw [← firstLine_eq_self]
  constructor
  · intro hall
    by_cases hne : stream = []
    · rw [hne]
      rfl
    · -- in one piece, everything is read
      have hwhole : Delivers deadlineMs _ stream := .whole hne
      obtain ⟨hline, -, -⟩ := hall _ _ _ _ hwhole hwhole le_rfl le_rfl
      rw [readRequest_whole hne hfits] at hline
      exact (Except.ok.inj hline).symm
  · intro hline calls₁ calls₂ elapsedMs₁ elapsedMs₂ h₁ h₂ htime₁ htime₂
    have hread₁ := readRequest_line h₁ htime₁ hfits hline
    have hread₂ := readRequest_line h₂ htime₂ hfits hline
    exact ⟨hread₁, hread₂, by rw [hread₁, hread₂]⟩

/-- The request of the client for the system information, as one line. -/
def Sample.sysInfoLine : Bytes :=
  ascii "\x7b\"jsonrpc\":\"2.0\",\"id\":\"1\",\"method\":\"sys.info\"\x7d\n"

theorem readAsLine_sample : ReadAsLine 1048576 2000 Sample.sysInfoLine :=
  (readAsLine_iff (by decide)).mpr (by decide)

/-- The cut decides: with a byte behind the line in the result that brings the newline, the
request is refused; with the byte in a result of its own, it is accepted. -/
theorem not_readAsLine :
    ¬ ReadAsLine 1048576 2000 (Sample.sysInfoLine ++ ascii "x") ∧
      ∃ calls₁ calls₂ body₁ body₂,
        Delivers 2000 calls₁ (Sample.sysInfoLine ++ ascii "x") ∧
        Delivers 2000 calls₂ (Sample.sysInfoLine ++ ascii "x") ∧
        anythingTransportReadRequest 1048576 2000 calls₁ 0 = .ok body₁ ∧
        anythingTransportReadRequest 1048576 2000 calls₂ 0 = .ok body₂ ∧
        anythingRpcParse body₁ = .error .trailingData ∧
        (anythingRpcParse body₂).toOption.isSome = true := by
  have hone : Delivers 2000 [⟨0, .bytes (Sample.sysInfoLine ++ ascii "x")⟩]
      (Sample.sysInfoLine ++ ascii "x" ++ []) := .bytes (by decide) (by decide) .nil
  have htwo : Delivers 2000 [⟨0, .bytes Sample.sysInfoLine⟩, ⟨0, .bytes (ascii "x")⟩]
      (Sample.sysInfoLine ++ (ascii "x" ++ [])) :=
    .bytes (by decide) (by decide) (.bytes (by decide) (by decide) .nil)
  rw [List.append_nil] at hone htwo
  have hread : anythingTransportReadRequest 1048576 2000
      [⟨0, .bytes (Sample.sysInfoLine ++ ascii "x")⟩] 0 =
        .ok (Sample.sysInfoLine ++ ascii "x") := by decide +kernel
  have hread' : anythingTransportReadRequest 1048576 2000
      [⟨0, .bytes Sample.sysInfoLine⟩, ⟨0, .bytes (ascii "x")⟩] 0 =
        .ok Sample.sysInfoLine := by decide +kernel
  refine ⟨?_, _, _, _, _, hone, htwo, hread, hread', by decide +kernel, by decide +kernel⟩
  intro hall
  obtain ⟨hline, -, -⟩ := hall _ _ 0 0 hone hone (by decide) (by decide)
  rw [hread] at hline
  exact absurd (Except.ok.inj hline) (by decide +kernel)

/-! ## The size limit -/

/-- A full buffer is not read into. -/
theorem readLoop_full (deadlineMs : ℤ) {buffer : Bytes} (h : maxBytes ≤ buffer.length)
    (calls : List ReadCall) : readLoop maxBytes deadlineMs buffer calls = .ok buffer := by
  cases calls with
  | nil => rw [readLoop]
  | cons call calls => rw [readLoop, if_neg (not_lt.mpr h)]

/-- A beginning with the newline is the whole of a line. -/
theorem eq_of_prefix_of_newline {t u : Bytes} (hline : newline ∉ (t ++ u).dropLast)
    (hmem : newline ∈ t) : u = [] := by
  by_contra hne
  rw [List.dropLast_append_of_ne_nil hne] at hline
  exact hline (List.mem_append_left _ hmem)

/-- A line is read up to the limit. -/
theorem readLoop_line (h : Delivers deadlineMs calls stream) {buffer : Bytes}
    (hline : newline ∉ (buffer ++ stream).dropLast) (hfits : buffer.length ≤ maxBytes) :
    readLoop maxBytes deadlineMs buffer calls = .ok ((buffer ++ stream).take maxBytes) := by
  induction h generalizing buffer with
  | nil => rw [readLoop, List.append_nil, List.take_of_length_le hfits]
  | interrupted htime _ ih =>
      rcases hfits.lt_or_eq with hroom | hfull
      · rw [readLoop, if_pos hroom, if_neg (not_lt.mpr htime)]
        exact ih hline hfits
      · rw [readLoop_full deadlineMs hfull.ge, ← hfull, List.take_left]
  | @bytes _ chunk calls stream htime hne _ ih =>
      rcases hfits.lt_or_eq with hroom | hfull
      · have htake : chunk.take (maxBytes - buffer.length) ≠ [] := by
          rw [Ne, List.take_eq_nil_iff]
          rintro (hzero | hnil)
          · omega
          · exact hne hnil
        rw [readLoop, if_pos hroom, if_neg (not_lt.mpr htime)]
        simp only [if_neg htake]
        rcases le_or_gt chunk.length (maxBytes - buffer.length) with hshort | hlong
        · rw [List.take_of_length_le hshort]
          rw [← List.append_assoc] at hline ⊢
          have hlen : (buffer ++ chunk).length ≤ maxBytes := by
            rw [List.length_append]
            omega
          split_ifs with hnewline
          · rw [eq_of_prefix_of_newline hline hnewline, List.append_nil,
              List.take_of_length_le hlen]
          · exact ih hline hlen
        · -- the result fills the buffer
          have hlen : (buffer ++ chunk.take (maxBytes - buffer.length)).length = maxBytes := by
            rw [List.length_append, List.length_take]
            omega
          have hall : (buffer ++ (chunk ++ stream)).take maxBytes =
              buffer ++ chunk.take (maxBytes - buffer.length) := by
            rw [List.take_append, List.take_of_length_le hfits,
              List.take_append_of_le_length hlong.le]
          rw [hall]
          split_ifs
          · rfl
          · exact readLoop_full deadlineMs hlen.ge calls
      · rw [readLoop_full deadlineMs hfull.ge, ← hfull, List.take_left]

/-- A line is returned exactly when it is shorter than the limit. -/
theorem readRequest_limit (h : Delivers deadlineMs calls stream)
    (htime : elapsedMs ≤ deadlineMs) (hline : newline ∉ stream.dropLast) :
    anythingTransportReadRequest maxBytes deadlineMs calls elapsedMs =
      if maxBytes ≤ stream.length then .error .tooLarge else .ok stream := by
  have hloop : readLoop maxBytes deadlineMs [] calls = .ok (stream.take maxBytes) :=
    readLoop_line h hline (Nat.zero_le maxBytes)
  rw [anythingTransportReadRequest, hloop]
  simp only [bind, Except.bind]
  rw [if_neg (not_lt.mpr htime), List.length_take]
  by_cases hlarge : maxBytes ≤ stream.length
  · rw [if_pos hlarge, if_pos (by omega)]
  · rw [if_neg hlarge, if_neg (by omega), List.take_of_length_le (by omega)]

/-- However the stream arrives, it is refused for its size exactly when it is larger than
the limit, it is returned whole otherwise, and the NUL behind what is returned stands in
the buffer of one byte more than the limit. -/
def LimitExact (maxBytes : ℕ) (deadlineMs : ℤ) (stream : Bytes) : Prop :=
  ∀ calls : List ReadCall, ∀ elapsedMs : ℤ, Delivers deadlineMs calls stream →
    elapsedMs ≤ deadlineMs →
      (anythingTransportReadRequest maxBytes deadlineMs calls elapsedMs = .error .tooLarge ↔
          maxBytes < stream.length) ∧
        (stream.length ≤ maxBytes →
          anythingTransportReadRequest maxBytes deadlineMs calls elapsedMs = .ok stream) ∧
        ∀ body, anythingTransportReadRequest maxBytes deadlineMs calls elapsedMs = .ok body →
          body.length < maxBytes + 1

/-- The limit is exact for every line but those of just its length. -/
theorem limitExact_iff (hpos : 1 ≤ maxBytes) (hline : newline ∉ stream.dropLast) :
    LimitExact maxBytes deadlineMs stream ↔ stream.length ≠ maxBytes := by
  constructor
  · intro hexact hlen
    have hne : stream ≠ [] := List.ne_nil_of_length_pos (by omega)
    have hwhole : Delivers deadlineMs _ stream := .whole hne
    have hread := ((hexact _ _ hwhole le_rfl).2.1) hlen.le
    rw [readRequest_limit hwhole le_rfl hline, if_pos hlen.ge] at hread
    cases hread
  · intro hlen calls elapsedMs h htime
    rw [readRequest_limit h htime hline]
    by_cases hlarge : maxBytes ≤ stream.length
    · rw [if_pos hlarge]
      refine ⟨iff_of_true rfl (by omega), fun hle => by omega, ?_⟩
      intro body hbody
      cases hbody
    · rw [if_neg hlarge]
      refine ⟨iff_of_false (by simp) (by omega), fun _ => rfl, ?_⟩
      intro body hbody
      obtain rfl := Except.ok.inj hbody
      omega

theorem limitExact_sample : LimitExact 1048576 2000 Sample.sysInfoLine :=
  (limitExact_iff (by decide) (by decide)).mpr (by decide)

/-- A line of just the allowed size is refused as one that exceeds it. -/
theorem not_limitExact :
    ¬ ∀ (maxBytes : ℕ) (deadlineMs : ℤ) (stream : Bytes), 1 ≤ maxBytes →
      newline ∉ stream.dropLast → LimitExact maxBytes deadlineMs stream := by
  intro h
  have hexact := h 47 2000 Sample.sysInfoLine (by decide) (by decide)
  have hwhole : Delivers 2000 [⟨0, .bytes Sample.sysInfoLine⟩] (Sample.sysInfoLine ++ []) :=
    .bytes (by decide) (by decide) .nil
  rw [List.append_nil] at hwhole
  obtain ⟨-, hread, -⟩ := hexact _ 0 hwhole (by decide)
  have hrefused : anythingTransportReadRequest 47 2000 [⟨0, .bytes Sample.sysInfoLine⟩] 0 =
      .error .tooLarge := by decide +kernel
  rw [hrefused] at hread
  cases hread (by decide)

end Delivery

end AnythingTool
