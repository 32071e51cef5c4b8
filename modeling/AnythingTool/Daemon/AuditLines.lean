import AnythingTool.Daemon.Handlers
import AnythingTool.Rpc.Lines

/-!
# The audit log as JSON lines

`anything_audit_write_event` prints an event in two or three `dprintf` calls.
`eventLine` is what they print together: one line, with the fields of the event. The
log keeps whole lines as long as every event that is begun is also finished
(`wholeLines_iff`).
-/

namespace AnythingTool

open CText JsonText

variable {n : ℕ}

/-! ## Escaping whatever a cursor points to -/

theorem escapeLoop_cstr (out : CString n) (text : Bytes) :
    escapeLoop out (cstr text) = escapeLoop out text := by
  induction text generalizing out with
  | nil => rfl
  | cons c text ih =>
      by_cases hc : c = 0
      · rw [hc]
        rfl
      · have hcons : cstr (c :: text) = c :: cstr text := by simp [cstr, hc]
        rw [hcons, escapeLoop, escapeLoop, dif_neg hc, dif_neg hc]
        cases escapeChar out c hc with
        | none => rfl
        | some out' => exact ih out'

theorem escaped_of_anythingJsonEscapeString [HasRoom n] {text : Bytes} {out : CString n}
    (h : anythingJsonEscapeString n text = some out) : out.bytes = escaped (cstr text) := by
  rw [anythingJsonEscapeString, ← escapeLoop_cstr] at h
  exact (anythingJsonEscapeString_eq_some (zero_notMem_cstr text)).mp h

/-- A C string as a value. -/
def textValue (text : Bytes) : Bytes := stringValue (cstr text)

/-! ## One event -/

/-- An identity as an object of the log. -/
def identityObject (identity : Identity) : Bytes :=
  objectText (fields [("uid", formatInt identity.uid.toNat),
    ("gid", formatInt identity.gid.toNat), ("pid", formatInt identity.pid.toInt)])

/-- The fields the first write prints behind the time. -/
def headFields (e : AuditEvent) : List (String × Bytes) :=
  [("event", textValue e.event.text), ("request_id", textValue e.requestId),
    ("session_id", textValue e.sessionId), ("caller", identityObject e.caller)]

def approverFields (e : AuditEvent) : List (String × Bytes) :=
  e.approver.toList.map fun approver => ("approver", identityObject approver)

/-- The fields the last write prints. -/
def tailFields (e : AuditEvent) : List (String × Bytes) :=
  [("method", textValue e.method), ("risk", textValue e.risk),
    ("decision", textValue e.decision), ("error_kind", textValue e.errorKind),
    ("duration_ms", formatInt e.durationMs), ("params_summary", textValue e.paramsSummary)]

/-- The fields of an event, in the order they are printed. -/
def eventFields (timestamp : Bytes) (e : AuditEvent) : List (String × Bytes) :=
  ("timestamp", literal timestamp) :: (headFields e ++ (approverFields e ++ tailFields e))

def eventLine (timestamp : Bytes) (e : AuditEvent) : Bytes :=
  objectText (fields (eventFields timestamp e)) ++ [newline]

/-- The escaped fields are those of the event. -/
structure EscapedEvent.Of (f : EscapedEvent) (e : AuditEvent) : Prop where
  event : f.event.bytes = escaped (cstr e.event.text)
  requestId : f.requestId.bytes = escaped (cstr e.requestId)
  sessionId : f.sessionId.bytes = escaped (cstr e.sessionId)
  method : f.method.bytes = escaped (cstr e.method)
  risk : f.risk.bytes = escaped (cstr e.risk)
  decision : f.decision.bytes = escaped (cstr e.decision)
  errorKind : f.errorKind.bytes = escaped (cstr e.errorKind)
  paramsSummary : f.paramsSummary.bytes = escaped (cstr e.paramsSummary)

theorem escapeEvent_of {e : AuditEvent} {f : EscapedEvent} (h : escapeEvent e = some f) :
    f.Of e := by
  simp only [escapeEvent, bind, Option.bind_eq_some_iff] at h
  obtain ⟨event, hevent, requestId, hid, sessionId, hsession, method, hmethod, risk, hrisk,
    decision, hdecision, errorKind, hkind, summary, hsummary, h⟩ := h
  obtain rfl := Option.some.inj h
  constructor
  · exact escaped_of_anythingJsonEscapeString hevent
  · exact escaped_of_anythingJsonEscapeString hid
  · exact escaped_of_anythingJsonEscapeString hsession
  · exact escaped_of_anythingJsonEscapeString hmethod
  · exact escaped_of_anythingJsonEscapeString hrisk
  · exact escaped_of_anythingJsonEscapeString hdecision
  · exact escaped_of_anythingJsonEscapeString hkind
  · exact escaped_of_anythingJsonEscapeString hsummary

theorem identityText_eq (identity : Identity) :
    identityText identity = identityObject identity := by
  simp only [identityText, identityObject, objectText_fields_cons, moreFields, field_text,
    List.flatMap_cons, List.flatMap_nil, List.append_assoc, List.cons_append, List.nil_append]
  rfl

/-- The part of a line that only an event with an approver has. -/
def approverPart : Option Identity → Bytes
  | none => []
  | some approver => approverText approver

theorem moreFields_append (fs gs : List (String × Bytes)) :
    moreFields (fs ++ gs) = moreFields fs ++ moreFields gs := List.flatMap_append

theorem headText_eq (timestamp : CString 32) {e : AuditEvent} {f : EscapedEvent} (h : f.Of e) :
    headText timestamp f e.caller =
      lbrace :: ((field "timestamp" (literal timestamp.bytes)).text ++
        (moreFields (headFields e) ++ [comma])) := by
  simp only [headText, headFields, moreFields, field_text, textValue, stringValue, literal,
    h.event, h.requestId, h.sessionId, identityText_eq, List.flatMap_cons, List.flatMap_nil,
    List.append_assoc, List.cons_append, List.nil_append]
  rfl

theorem approverPart_eq (e : AuditEvent) :
    [comma] ++ approverPart e.approver = moreFields (approverFields e) ++ [comma] := by
  cases happrover : e.approver with
  | none => simp [approverPart, approverFields, happrover, moreFields]
  | some approver =>
      simp only [approverPart, approverText, approverFields, happrover, moreFields, field_text,
        identityText_eq, Option.toList_some, List.map_cons, List.map_nil, List.flatMap_cons,
        List.flatMap_nil, List.append_assoc, List.cons_append, List.nil_append]
      rfl

theorem tailText_eq {e : AuditEvent} {f : EscapedEvent} (h : f.Of e) :
    [comma] ++ tailText f e.durationMs = moreFields (tailFields e) ++ [rbrace, newline] := by
  simp only [tailText, tailFields, moreFields, field_text, textValue, stringValue, literal,
    h.method, h.risk, h.decision, h.errorKind, h.paramsSummary, List.flatMap_cons,
    List.flatMap_nil, List.append_assoc, List.cons_append, List.nil_append]
  rfl

/-- The writes of an event are one line. -/
theorem eventLine_eq (timestamp : CString 32) {e : AuditEvent} {f : EscapedEvent} (h : f.Of e) :
    headText timestamp f e.caller ++ approverPart e.approver ++ tailText f e.durationMs =
      eventLine timestamp.bytes e := by
  -- the comma each write ends with stands in front of the fields of the next one
  calc headText timestamp f e.caller ++ approverPart e.approver ++ tailText f e.durationMs
      = lbrace :: ((field "timestamp" (literal timestamp.bytes)).text ++
          (moreFields (headFields e) ++ (([comma] ++ approverPart e.approver) ++
            tailText f e.durationMs))) := by
        rw [headText_eq timestamp h]
        simp only [List.append_assoc, List.cons_append, List.nil_append]
    _ = lbrace :: ((field "timestamp" (literal timestamp.bytes)).text ++
          (moreFields (headFields e) ++ (moreFields (approverFields e) ++
            ([comma] ++ tailText f e.durationMs)))) := by
        rw [approverPart_eq, List.append_assoc]
    _ = eventLine timestamp.bytes e := by
        rw [tailText_eq h, eventLine, eventFields, objectText_fields_cons, moreFields_append,
          moreFields_append]
        simp only [List.append_assoc, List.cons_append, List.nil_append]

theorem inline_identityObject (identity : Identity) : Inline (identityObject identity) := by
  apply Inline.object (by simp)
  · simp only [PlainKeys, List.forall_mem_cons]
    decide
  · simp only [List.forall_mem_cons]
    exact ⟨.number _, .number _, .number _, by simp⟩

/-- A property of the fields of an event is shown for the fields of each write. -/
theorem forall_mem_eventFields {P : String × Bytes → Prop} {timestamp : Bytes} {e : AuditEvent}
    (htime : P ("timestamp", literal timestamp)) (hhead : ∀ f ∈ headFields e, P f)
    (happrover : ∀ approver, P ("approver", identityObject approver))
    (htail : ∀ f ∈ tailFields e, P f) : ∀ f ∈ eventFields timestamp e, P f := by
  intro f hf
  rcases List.mem_cons.mp hf with rfl | hf
  · exact htime
  rcases List.mem_append.mp hf with hf | hf
  · exact hhead f hf
  rcases List.mem_append.mp hf with hf | hf
  · obtain ⟨approver, -, rfl⟩ := List.mem_map.mp hf
    exact happrover approver
  · exact htail f hf

theorem plainKeys_eventFields (timestamp : Bytes) (e : AuditEvent) :
    PlainKeys (eventFields timestamp e) := by
  have htime : ∀ c ∈ ascii "timestamp", Unescaped c := by decide
  have happrover : ∀ c ∈ ascii "approver", Unescaped c := by decide
  apply forall_mem_eventFields (P := fun f => ∀ c ∈ ascii f.1, Unescaped c) htime
  · simp only [headFields, List.forall_mem_cons]
    decide
  · exact fun _ => happrover
  · simp only [tailFields, List.forall_mem_cons]
    decide

theorem jsonLine_eventLine {timestamp : Bytes} (htime : ∀ c ∈ timestamp, Unescaped c)
    (e : AuditEvent) : JsonLine (eventLine timestamp e) := by
  apply JsonLine.object (List.cons_ne_nil _ _) (plainKeys_eventFields timestamp e)
  apply forall_mem_eventFields
  · exact .string (.of_unescaped htime)
  · simp only [headFields, List.forall_mem_cons]
    exact ⟨inline_stringValue _, inline_stringValue _, inline_stringValue _,
      inline_identityObject _, by simp⟩
  · exact inline_identityObject
  · simp only [tailFields, List.forall_mem_cons]
    exact ⟨inline_stringValue _, inline_stringValue _, inline_stringValue _,
      inline_stringValue _, .number _, inline_stringValue _, by simp⟩

/-! ## One call -/

/-- One call of `anything_audit_write_event`, with how its system calls end. -/
structure AuditCall where
  outcome : AuditOutcome
  event : AuditEvent

namespace AuditCall

/-- What the call appends to the log. -/
def appended (call : AuditCall) : Bytes := (anythingAuditWriteEvent call.outcome call.event).2

/-- What it should append. -/
def line (call : AuditCall) : Bytes := eventLine call.outcome.timestamp.bytes call.event

/-- The call gets as far as printing something. -/
structure Begins (call : AuditCall) : Prop where
  opened : call.outcome.opened = true
  fits : (escapeEvent call.event).isSome = true
  headWritten : call.outcome.headWritten = true

/-- The later `dprintf` calls, as far as the event has them, succeed. -/
structure Finishes (call : AuditCall) : Prop where
  approverWritten : call.event.approver.isSome = true → call.outcome.approverWritten = true
  tailWritten : call.outcome.tailWritten = true

theorem appended_of_not_begins {call : AuditCall} (h : ¬ call.Begins) : call.appended = [] := by
  unfold appended anythingAuditWriteEvent
  cases hopened : call.outcome.opened with
  | false => rfl
  | true =>
      cases hescape : escapeEvent call.event with
      | none => rfl
      | some f =>
          have hhead : call.outcome.headWritten = false := by
            cases hhead : call.outcome.headWritten with
            | false => rfl
            | true => exact absurd ⟨hopened, by rw [hescape]; rfl, hhead⟩ h
          cases call.event.approver <;> simp [hhead, tryWrite]

theorem appended_of_finishes {call : AuditCall} (h : call.Begins) (h' : call.Finishes) :
    call.appended = call.line := by
  obtain ⟨f, hescape⟩ := Option.isSome_iff_exists.mp h.fits
  rw [line, ← eventLine_eq call.outcome.timestamp (escapeEvent_of hescape)]
  unfold appended anythingAuditWriteEvent
  cases happrover : call.event.approver with
  | none => simp [h.opened, hescape, h.headWritten, h'.tailWritten, tryWrite, approverPart]
  | some approver =>
      have hwritten := h'.approverWritten (by rw [happrover]; rfl)
      simp [h.opened, hescape, h.headWritten, hwritten, h'.tailWritten, tryWrite, approverPart]

/-- A line that is begun and not finished ends with the comma before its next field. -/
theorem getLast?_appended {call : AuditCall} (h : call.Begins) (h' : ¬ call.Finishes) :
    call.appended.getLast? = some comma := by
  obtain ⟨f, hescape⟩ := Option.isSome_iff_exists.mp h.fits
  have hhead : (headText call.outcome.timestamp f call.event.caller).getLast? = some comma := by
    rw [headText, List.getLast?_append]
    rfl
  have hpart : ∀ approver, (approverText approver).getLast? = some comma := by
    intro approver
    rw [approverText, List.getLast?_append]
    rfl
  unfold appended anythingAuditWriteEvent
  cases happrover : call.event.approver with
  | none =>
      have htail : call.outcome.tailWritten = false := by
        apply Bool.eq_false_iff.mpr
        intro htail
        exact h' ⟨by simp [happrover], htail⟩
      simpa [h.opened, hescape, h.headWritten, htail, tryWrite] using hhead
  | some approver =>
      cases hwritten : call.outcome.approverWritten with
      | false => simpa [h.opened, hescape, h.headWritten, hwritten, tryWrite] using hhead
      | true =>
          have htail : call.outcome.tailWritten = false := by
            apply Bool.eq_false_iff.mpr
            intro htail
            exact h' ⟨fun _ => hwritten, htail⟩
          simp [h.opened, hescape, h.headWritten, htail, tryWrite, hpart approver]

end AuditCall

/-! ## A run of calls -/

/-- What `strftime` prints needs no escape. -/
def AuditOutcome.PlainTime (o : AuditOutcome) : Prop := ∀ c ∈ o.timestamp.bytes, Unescaped c

instance (o : AuditOutcome) : Decidable o.PlainTime :=
  inferInstanceAs (Decidable (∀ c ∈ o.timestamp.bytes, Unescaped c))

/-- The log file after some calls. -/
def logAfter (log : Bytes) (calls : List AuditCall) : Bytes :=
  log ++ calls.flatMap AuditCall.appended

/-- The log is cut into lines, and behind what it held before these are the lines of some of
the calls, of all that returned `0` among them, in the order of the calls. -/
structure WholeLines (log : Bytes) (calls : List AuditCall) : Prop where
  lines : JsonLines (logAfter log calls)
  events : ∃ written : List AuditCall, written.Sublist calls ∧
    (∀ call ∈ calls, (anythingAuditWriteEvent call.outcome call.event).1 = true →
      call ∈ written) ∧ logAfter log calls = log ++ written.flatMap AuditCall.line

theorem begins_of_ok {call : AuditCall}
    (h : (anythingAuditWriteEvent call.outcome call.event).1 = true) : call.Begins := by
  unfold anythingAuditWriteEvent at h
  cases hopened : call.outcome.opened with
  | false => simp [hopened] at h
  | true =>
      cases hescape : escapeEvent call.event with
      | none => simp [hopened, hescape] at h
      | some f =>
          refine ⟨hopened, by rw [hescape]; rfl, ?_⟩
          cases hhead : call.outcome.headWritten with
          | true => rfl
          | false =>
              cases happrover : call.event.approver <;>
                simp [hopened, hescape, hhead, happrover, tryWrite] at h

/-- The lines of a log without torn events. -/
theorem wholeLines_of_finishes {log : Bytes} (hlog : JsonLines log) {calls : List AuditCall}
    (htime : ∀ call ∈ calls, call.outcome.PlainTime)
    (h : ∀ call ∈ calls, call.Begins → call.Finishes) : WholeLines log calls := by
  classical
  have hwritten : calls.flatMap AuditCall.appended =
      (calls.filter fun call => call.Begins).flatMap AuditCall.line := by
    clear htime
    induction calls with
    | nil => rfl
    | cons call calls ih =>
        have hcalls := ih fun call' hcall' => h call' (List.mem_cons_of_mem call hcall')
        by_cases hbegins : call.Begins
        · rw [List.flatMap_cons, hcalls, List.filter_cons_of_pos (by simpa using hbegins),
            List.flatMap_cons,
            AuditCall.appended_of_finishes hbegins (h call List.mem_cons_self hbegins)]
        · rw [List.flatMap_cons, hcalls, List.filter_cons_of_neg (by simpa using hbegins),
            AuditCall.appended_of_not_begins hbegins, List.nil_append]
  have hlines : JsonLines ((calls.filter fun call => call.Begins).flatMap AuditCall.line) := by
    refine ⟨(calls.filter fun call => call.Begins).map AuditCall.line, ?_, List.flatMap_def⟩
    intro line hline
    obtain ⟨call, hcall, rfl⟩ := List.mem_map.mp hline
    exact jsonLine_eventLine (htime call (List.mem_of_mem_filter hcall)) call.event
  refine ⟨?_, calls.filter fun call => call.Begins, List.filter_sublist, ?_, ?_⟩
  · rw [logAfter, hwritten]
    exact hlog.append hlines
  · intro call hcall hok
    exact List.mem_filter.mpr ⟨hcall, by simpa using begins_of_ok hok⟩
  · rw [logAfter, hwritten]

/-- A torn event is in the log at once. -/
theorem not_jsonLines_of_torn {log : Bytes} {calls : List AuditCall} {call : AuditCall}
    (h : call.Begins) (h' : ¬ call.Finishes) : ¬ JsonLines (logAfter log (calls ++ [call])) := by
  intro hlines
  have hlast := AuditCall.getLast?_appended h h'
  have hne : logAfter log (calls ++ [call]) ≠ [] := by
    intro hnil
    have happended : call.appended = [] := by
      have hparts := List.append_eq_nil_iff.mp hnil
      simpa using (List.flatMap_eq_nil_iff.mp hparts.2) call (by simp)
    rw [happended] at hlast
    cases hlast
  have hnewline := hlines.getLast? hne
  rw [logAfter, List.flatMap_append, List.flatMap_singleton, List.getLast?_append,
    List.getLast?_append, hlast, Option.some_or, Option.some_or] at hnewline
  exact absurd hnewline (by decide)

/-- The log holds whole lines after every call exactly when every event that is begun is
finished. -/
theorem wholeLines_iff (log : Bytes) (hlog : JsonLines log) (calls : List AuditCall)
    (htime : ∀ call ∈ calls, call.outcome.PlainTime) :
    (∀ k, WholeLines log (calls.take k)) ↔ ∀ call ∈ calls, call.Begins → call.Finishes := by
  constructor
  · intro h call hcall hbegins
    obtain ⟨past, rest, rfl⟩ := List.append_of_mem hcall
    by_contra hfinishes
    have htake : (past ++ call :: rest).take (past.length + 1) = past ++ [call] := by
      rw [List.append_cons]
      exact List.take_left' (by simp)
    have hlines := (h (past.length + 1)).lines
    rw [htake] at hlines
    exact not_jsonLines_of_torn hbegins hfinishes hlines
  · intro h k
    apply wholeLines_of_finishes hlog
    · exact fun call hcall => htime call (List.mem_of_mem_take hcall)
    · exact fun call hcall => h call (List.mem_of_mem_take hcall)

namespace Sample

/-- The event of a tool request of the agent. -/
def received : AuditEvent :=
  { event := .requestReceived
    requestId := []
    sessionId := ascii "default"
    caller := agent
    approver := none
    method := ascii "sys.info"
    risk := []
    decision := ascii "received"
    errorKind := []
    paramsSummary := ascii "bounded request"
    durationMs := 0 }

/-- An audit write during which the disk fills up. -/
def diskFull : AuditOutcome := { written with tailWritten := false, closed := false }

end Sample

/-- Two events, of which only the first is written. -/
theorem wholeLines_sample :
    WholeLines [] [⟨Sample.written, Sample.received⟩, ⟨Sample.notOpened, Sample.received⟩] := by
  have hall := (wholeLines_iff [] .nil [⟨Sample.written, Sample.received⟩,
    ⟨Sample.notOpened, Sample.received⟩] ?_).mpr ?_
  · exact hall 2
  · simp only [List.forall_mem_cons]
    exact ⟨by decide, by decide, by simp⟩
  · simp only [List.forall_mem_cons]
    exact ⟨fun _ => ⟨by decide, rfl⟩, fun hbegins => absurd hbegins.opened (by decide), by simp⟩

/-- An event that a full disk cuts off leaves a part of a line. -/
theorem not_wholeLines :
    ¬ ∀ (log : Bytes) (calls : List AuditCall), JsonLines log →
      (∀ call ∈ calls, call.outcome.PlainTime) → ∀ k, WholeLines log (calls.take k) := by
  intro h
  have hbegins : AuditCall.Begins ⟨Sample.diskFull, Sample.received⟩ :=
    ⟨rfl, by decide +kernel, rfl⟩
  have hfinishes : ¬ AuditCall.Finishes ⟨Sample.diskFull, Sample.received⟩ :=
    fun hfinishes => absurd hfinishes.tailWritten (by decide)
  have htime : ∀ call ∈ [(⟨Sample.diskFull, Sample.received⟩ : AuditCall)],
      call.outcome.PlainTime := by
    simp only [List.forall_mem_cons]
    exact ⟨by decide, by simp⟩
  have hwhole := h [] [⟨Sample.diskFull, Sample.received⟩] .nil htime 1
  have hlines : JsonLines (logAfter [] ([] ++ [⟨Sample.diskFull, Sample.received⟩])) :=
    hwhole.lines
  exact not_jsonLines_of_torn hbegins hfinishes hlines

end AnythingTool
