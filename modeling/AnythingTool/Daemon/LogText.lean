import AnythingTool.Daemon.AuditFields
import AnythingTool.Daemon.LogFile
import AnythingTool.Daemon.Replay
import AnythingTool.Library.TextLines

/-!
# The store in the text of the log

An audit write that succeeds is one line, and `anything_rpc_extract_param_string` reads the
texts of its event back from it. `replayLog` goes over the lines of a log and keeps a list of
entries; after every request that is on record it has come to the ids, sessions, methods, risks,
summaries and statuses of the store.
-/

namespace AnythingTool

open CText JsonText TextLines Transition

/-! ## Reading the log -/

/-- What a line of the log says. -/
structure LogRecord where
  event : Bytes
  requestId : Bytes
  sessionId : Bytes
  method : Bytes
  risk : Bytes
  summary : Bytes
deriving DecidableEq

/-- What a log says of a stored request. -/
structure LogEntry where
  requestId : Bytes
  sessionId : Bytes
  method : Bytes
  risk : Bytes
  summary : Bytes
  status : ApprovalStatus
deriving DecidableEq

/-- A text of a line, by its key. -/
def fieldOf (line : Bytes) (key : String) : Bytes :=
  ((anythingRpcExtractParamString 512 line (ascii key)).map CString.bytes).getD []

def readRecord (line : Bytes) : LogRecord :=
  ⟨fieldOf line "event", fieldOf line "request_id", fieldOf line "session_id",
    fieldOf line "method", fieldOf line "risk", fieldOf line "params_summary"⟩

/-- The entry under a new status, when it has this id. -/
def LogEntry.rule (requestId : Bytes) (status : ApprovalStatus) (entry : LogEntry) : LogEntry :=
  if entry.requestId = requestId then { entry with status := status } else entry

/-- The status a line gives the request it is about. -/
def statusOfText (event : Bytes) : Option ApprovalStatus :=
  if event = ascii "approval_required" then some .pending
  else if event = ascii "approval_granted" then some .granted
  else if event = ascii "approval_rejected" then some .rejected
  else if event = ascii "execution_finished" then some .executed
  else none

/-- The entries behind one more line. -/
def applyRecord (entries : List LogEntry) (r : LogRecord) : List LogEntry :=
  match statusOfText r.event with
  | none => entries
  | some .pending =>
      entries ++ [⟨r.requestId, r.sessionId, r.method, r.risk, r.summary, .pending⟩]
  | some status => entries.map (.rule r.requestId status)

def replayRecords (entries : List LogEntry) (records : List LogRecord) : List LogEntry :=
  records.foldl applyRecord entries

/-- What a log comes to. -/
def replayLog (log : Bytes) : List LogEntry :=
  replayRecords [] ((completeLines log).map readRecord)

/-- What an event should say in the log. -/
def AuditEvent.record (e : AuditEvent) : LogRecord :=
  ⟨e.event.text, e.requestId, e.sessionId, e.method, e.risk, e.paramsSummary⟩

/-- What the log should say of a stored request. -/
def PendingRequest.entry (p : PendingRequest) : LogEntry :=
  ⟨p.requestId.bytes, p.sessionId.bytes, p.method.bytes, p.risk.bytes, p.summary.bytes, p.status⟩

/-- What the log should say of the store. -/
def entriesOf (approvals : ApprovalStore) : List LogEntry :=
  approvals.pending.map PendingRequest.entry

/-! ## Reading a line -/

section Lines

variable {e : AuditEvent}

/-- A number of at most twelve digits. -/
theorem length_formatInt {k : ℤ} (h : k.natAbs < 10 ^ 12) : (formatInt k).length ≤ 13 := by
  have hdigits : (formatNat k.natAbs).length ≤ 12 := by
    rw [formatNat, List.length_map]
    exact (Nat.length_toDigits_le_iff (by decide) (by decide)).mpr h
  have hminus : (ascii "-").length = 1 := rfl
  unfold formatInt
  split_ifs
  · rw [List.length_append, hminus]
    omega
  · omega

theorem length_identityObject (identity : Identity) :
    (identityObject identity).length < 1024 := by
  have huid := length_formatInt (k := identity.uid.toNat) (by
    have hlt := identity.uid.toNat_lt
    omega)
  have hgid := length_formatInt (k := identity.gid.toNat) (by
    have hlt := identity.gid.toNat_lt
    omega)
  have hpid := length_formatInt (k := identity.pid.toInt) (by
    have hle := identity.pid.le_toInt
    have hlt := identity.pid.toInt_lt
    omega)
  have htext : (identityObject identity).length =
      22 + (formatInt identity.uid.toNat).length + (formatInt identity.gid.toNat).length +
        (formatInt identity.pid.toInt).length := by
    rw [← identityText_eq]
    simp [identityText, ascii]
    omega
  omega

theorem Fits.length_textValue {k : ℕ} {text : Bytes} (h : Fits k text) (hk : k ≤ 1000) :
    (textValue text).length < 1024 := by
  have hroom := h.room
  rw [textValue, cstr_of_notMem (ShortlyEscaped.zero_notMem h.short)]
  simp only [stringValue, literal, List.length_append, List.length_cons, List.length_nil]
  omega

/-- The members of a line can all be passed over. -/
theorem Recordable.passable (h : Recordable e) (hduration : e.durationMs = 0)
    {timestamp : CString 32} (htime : ∀ c ∈ timestamp.bytes, Unescaped c) :
    ∀ m ∈ fields (eventFields timestamp.bytes e), Passable m := by
  have hobject := h.isObject htime
  have hlength : ∀ f ∈ eventFields timestamp.bytes e, f.2.length < 1024 := by
    apply forall_mem_eventFields
    · have hfits := timestamp.fits
      simp only [literal, List.length_append, List.length_cons, List.length_nil]
      omega
    · simp only [headFields, List.forall_mem_cons]
      exact ⟨e.event.fits.length_textValue (by decide), h.requestId.length_textValue (by decide),
        h.sessionId.length_textValue (by decide), length_identityObject _, by simp⟩
    · exact length_identityObject
    · simp only [tailFields, List.forall_mem_cons, hduration]
      exact ⟨h.method.length_textValue (by decide), h.risk.length_textValue (by decide),
        h.decision.length_textValue (by decide), h.errorKind.length_textValue (by decide),
        by decide, h.paramsSummary.length_textValue (by decide), by simp⟩
  intro m hm
  refine ⟨hobject.lexes m hm, hobject.value m hm, ?_⟩
  obtain ⟨f, hf, rfl⟩ := List.mem_map.mp hm
  exact hlength f hf

/-- The extraction from an object without blanks. -/
theorem extract_fields {n : ℕ} {fs : List (String × Bytes)} {key : Bytes} {out : CString n}
    (hne : fs ≠ []) (hpass : ∀ m ∈ fields fs, Passable m) :
    anythingRpcExtractParamString n (objectText (fields fs)) key = some out ↔
      Finds key out.bytes (fields fs) := by
  obtain ⟨f, fs, rfl⟩ := List.exists_cons_of_ne_nil hne
  have hf := (hpass (field f.1 f.2) List.mem_cons_self).lexes
  have htext : objectText (fields (f :: fs)) =
      lbrace :: ((field f.1 f.2).text ++ (afterMember (fields fs) ++ [])) := by
    rw [List.append_nil]
    exact objectText_cons _ _
  rw [anythingRpcExtractParamString, htext, skipWs_cons (by decide)]
  simp only [if_true]
  rw [skipWs_text_append hf]
  exact extractLoop_eq_some [] (fields fs) hpass

/-- A text that fits is the only value of its key. -/
theorem fieldOf_eq {fs : List (String × Bytes)} (hne : fs ≠ [])
    (hpass : ∀ m ∈ fields fs, Passable m) (hkeys : ∀ f ∈ fs, (ascii f.1).length ≤ 63)
    {key : String} {k : ℕ} {text : Bytes} (hfield : StringField (fields fs) (ascii key) text)
    (hfits : Fits k text) (hk : k ≤ 512) : fieldOf (objectText (fields fs)) key = text := by
  obtain ⟨m, hm, hvalue⟩ := hfield
  have hlength := (stringBody_escaped hfits.short).length_le
  have hroom := hfits.room
  let out : CString 512 := ⟨text, ShortlyEscaped.zero_notMem hfits.short, by omega⟩
  have hkeys' : ∀ m ∈ fields fs, m.key.length ≤ 63 := by
    intro m hm
    obtain ⟨f, hf, rfl⟩ := List.mem_map.mp hm
    exact hkeys f hf
  have hextract : anythingRpcExtractParamString 512 (objectText (fields fs)) (ascii key) =
      some out := (extract_fields hne hpass).mpr (.of_membersAt hkeys' hm hvalue)
  rw [fieldOf, hextract]
  rfl

theorem length_eventKeys (timestamp : Bytes) (e : AuditEvent) :
    ∀ f ∈ eventFields timestamp e, (ascii f.1).length ≤ 63 := by
  have htime : (ascii "timestamp").length ≤ 63 := by decide
  have happrover : (ascii "approver").length ≤ 63 := by decide
  apply forall_mem_eventFields (P := fun f => (ascii f.1).length ≤ 63) htime
  · simp only [headFields, List.forall_mem_cons]
    decide
  · exact fun _ => happrover
  · simp only [tailFields, List.forall_mem_cons]
    decide

/-- The line of an event says what the event says. -/
theorem Recordable.readRecord_line (h : Recordable e) (hduration : e.durationMs = 0)
    {timestamp : CString 32} (htime : ∀ c ∈ timestamp.bytes, Unescaped c) :
    readRecord (objectText (fields (eventFields timestamp.bytes e))) = e.record := by
  have hreads := h.readsBack timestamp.bytes
  have hfield : ∀ {key : String} {k : ℕ} {text : Bytes},
      StringField (fields (eventFields timestamp.bytes e)) (ascii key) text → Fits k text →
      k ≤ 512 → fieldOf (objectText (fields (eventFields timestamp.bytes e))) key = text :=
    fieldOf_eq (List.cons_ne_nil _ _) (h.passable hduration htime)
      (length_eventKeys timestamp.bytes e)
  rw [readRecord, hfield hreads.event e.event.fits (by decide),
    hfield hreads.requestId h.requestId (by decide),
    hfield hreads.sessionId h.sessionId (by decide), hfield hreads.method h.method (by decide),
    hfield hreads.risk h.risk (by decide), hfield hreads.paramsSummary h.paramsSummary le_rfl,
    AuditEvent.record]

end Lines

/-! ## Reading what the writes append -/

theorem finishes_of_ok {call : AuditCall}
    (h : (anythingAuditWriteEvent call.outcome call.event).1 = true) : call.Finishes := by
  obtain ⟨f, hescape⟩ := Option.isSome_iff_exists.mp (begins_of_ok h).fits
  have hbegins := begins_of_ok h
  unfold anythingAuditWriteEvent at h
  refine ⟨?_, ?_⟩
  · intro hsome
    obtain ⟨approver, happrover⟩ := Option.isSome_iff_exists.mp hsome
    cases hwritten : call.outcome.approverWritten with
    | true => rfl
    | false => simp [hbegins.opened, hescape, happrover, hwritten, tryWrite] at h
  · cases htail : call.outcome.tailWritten with
    | true => rfl
    | false => simp [hbegins.opened, hescape, htail, tryWrite] at h

/-- A line that says what an event says. -/
structure AuditWrite.Legible (w : AuditWrite) (line : Bytes) : Prop where
  appended : w.appended = line ++ [newline]
  oneLine : newline ∉ line
  record : readRecord line = w.event.record

/-- A call under these outcomes, without a duration. -/
def AuditWrite.Made (env : Env) (w : AuditWrite) : Prop :=
  w.event.durationMs = 0 ∧ ∃ k, w = auditWrite (env.audit k) w.event

theorem made_auditWrite {env : Env} {e : AuditEvent} (h : e.durationMs = 0) (k : ℕ) :
    (auditWrite (env.audit k) e).Made env :=
  ⟨h, k, rfl⟩

theorem AuditWrite.Made.legible {env : Env} {w : AuditWrite} (h : w.Made env)
    (hrecordable : Recordable w.event) (hok : w.ok = true)
    (htime : ∀ k, (env.audit k).PlainTime) : ∃ line, w.Legible line := by
  obtain ⟨hduration, k, hw⟩ := h
  rw [hw] at hok
  let call : AuditCall := ⟨env.audit k, w.event⟩
  have happended : call.appended = call.line :=
    AuditCall.appended_of_finishes (begins_of_ok hok) (finishes_of_ok hok)
  obtain ⟨t, ht, -, heq⟩ := jsonLine_eventLine (htime k) w.event
  refine ⟨t, ?_, ht.noControl.notMem (by decide), ?_⟩
  · rw [← heq, hw]
    exact happended
  · rw [← List.append_cancel_right heq]
    exact hrecordable.readRecord_line hduration (htime k)

/-- What is read of a log whose writes are lines. -/
theorem readRecord_log {log : List AuditWrite} (h : ∀ w ∈ log, ∃ line, w.Legible line) :
    (completeLines (log.flatMap AuditWrite.appended)).map readRecord =
      log.map fun w => w.event.record := by
  obtain ⟨ls, htext, hplain, hrecords⟩ : ∃ ls : List Bytes,
      log.flatMap AuditWrite.appended = ls.flatMap (fun l => l ++ [newline]) ∧
        (∀ l ∈ ls, newline ∉ l) ∧ ls.map readRecord = log.map fun w => w.event.record := by
    induction log with
    | nil => exact ⟨[], rfl, by simp, rfl⟩
    | cons w log ih =>
        obtain ⟨hw, hlog⟩ := List.forall_mem_cons.mp h
        obtain ⟨line, hline⟩ := hw
        obtain ⟨ls, htext, hplain, hrecords⟩ := ih hlog
        refine ⟨line :: ls, ?_, ?_, ?_⟩
        · rw [List.flatMap_cons, List.flatMap_cons, htext, hline.appended]
        · exact List.forall_mem_cons.mpr ⟨hline.oneLine, hplain⟩
        · rw [List.map_cons, List.map_cons, hrecords, hline.record]
  rw [htext, completeLines_flatMap hplain, hrecords]

/-! ## Entries and records -/

theorem statusOfText_text (kind : AuditEventKind) : statusOfText kind.text = kind.status := by
  cases kind
  all_goals decide

section Entries

variable {e : AuditEvent} (entries : List LogEntry)

theorem applyRecord_quiet (h : e.event.status = none) :
    applyRecord entries e.record = entries := by
  rw [applyRecord, AuditEvent.record, statusOfText_text, h]

theorem applyRecord_required (h : e.event = .approvalRequired) :
    applyRecord entries e.record =
      entries ++ [⟨e.requestId, e.sessionId, e.method, e.risk, e.paramsSummary, .pending⟩] := by
  rw [applyRecord, AuditEvent.record, statusOfText_text, h]
  rfl

theorem applyRecord_ruling {status : ApprovalStatus} (h : e.event.status = some status)
    (hstatus : status ≠ .pending) :
    applyRecord entries e.record = entries.map (.rule e.requestId status) := by
  rw [applyRecord, AuditEvent.record, statusOfText_text, h]
  cases status with
  | pending => exact absurd rfl hstatus
  | _ => rfl

end Entries

section Store

variable {config : Config} {approvals : ApprovalStore} {input : Input} {request : RpcRequest}

/-- A ruling about one id rewrites the entry of one request. -/
theorem entriesOf_write {slot : ℕ} {e e' : PendingRequest} {status : ApprovalStatus}
    (hstored : approvals.pending[slot]? = some e)
    (honce : (approvals.pending.map fun p => p.requestId.bytes).Nodup)
    (hentry : e'.entry = { e.entry with status := status }) :
    (entriesOf approvals).map (.rule e.requestId.bytes status) =
      entriesOf (approvals.write ⟨slot, e'⟩) := by
  apply List.ext_getElem?
  intro i
  rw [entriesOf, entriesOf, List.getElem?_map, List.getElem?_map, List.getElem?_map]
  by_cases hslot : slot = i
  · subst hslot
    rw [getElem?_write_self e' hstored, hstored, Option.map_some, Option.map_some,
      Option.map_some, hentry]
    exact congrArg some (if_pos rfl)
  · rw [getElem?_write_ne hslot]
    cases hi : approvals.pending[i]? with
    | none => rfl
    | some p =>
        have hother := (requestId_ne_of_slot_ne hstored hi honce hslot).symm
        exact congrArg some (if_neg hother)

theorem entriesOf_push (approvals : ApprovalStore) (pending : PendingRequest) :
    entriesOf (approvals.push pending) = entriesOf approvals ++ [pending.entry] :=
  List.map_append

/-- What the effects of a request say in the log. -/
def recordsOf (effects : List Effect) : List LogRecord :=
  (auditWrites effects).map fun w => w.event.record

theorem replayRecords_cons (entries : List LogEntry) (r : LogRecord) (rs : List LogRecord) :
    replayRecords entries (r :: rs) = replayRecords (applyRecord entries r) rs := rfl

theorem recordsOf_audit (outcome : AuditOutcome) (event : AuditEvent) (handled : Handled) :
    recordsOf (emit (.audit (auditWrite outcome event)) handled).effects =
      event.record :: recordsOf handled.effects := rfl

/-- A ruling on a stored request, and the line about it. -/
theorem applyRecord_write (event : AuditEvent) (e' : PendingRequest) {status : ApprovalStatus}
    (hstatus : status ≠ .pending) {ref : PendingRef}
    (hstored : approvals.pending[ref.slot]? = some ref.request)
    (honce : (approvals.pending.map fun p => p.requestId.bytes).Nodup)
    (hevent : event.event.status = some status)
    (hid : event.requestId = ref.request.requestId.bytes)
    (hentry : e'.entry = { ref.request.entry with status := status }) :
    applyRecord (entriesOf approvals) event.record =
      entriesOf (approvals.write ⟨ref.slot, e'⟩) := by
  rw [applyRecord_ruling _ hevent hstatus, hid]
  exact entriesOf_write hstored honce hentry

theorem reportRun_entries {ref : PendingRef} {id : Bytes}
    (hstored : approvals.pending[ref.slot]? = some ref.request)
    (honce : (approvals.pending.map fun p => p.requestId.bytes).Nodup)
    (hwritten : AllWritten (reportRun approvals input.env input.peer id ref
      (anythingSysInfoJson input.env.os)).effects) :
    replayRecords (entriesOf approvals) (recordsOf (reportRun approvals input.env input.peer id
        ref (anythingSysInfoJson input.env.os)).effects) =
      entriesOf (reportRun approvals input.env input.peer id ref
        (anythingSysInfoJson input.env.os)).approvals := by
  cases hresult : anythingSysInfoJson input.env.os with
  | error sysError =>
      rw [hresult] at hwritten
      unfold reportRun at hwritten ⊢
      simp only at hwritten ⊢
      obtain ⟨heq, -⟩ := checkedAudit_written hwritten
      rw [heq, recordsOf_audit, replayRecords_cons, applyRecord_quiet]
      · rfl
      · rfl
  | ok result =>
      rw [hresult] at hwritten
      unfold reportRun at hwritten ⊢
      simp only at hwritten ⊢
      obtain ⟨heq, -⟩ := checkedAudit_written hwritten
      rw [heq, recordsOf_audit, replayRecords_cons]
      have hne : ApprovalStatus.executed ≠ .pending := by decide
      exact applyRecord_write (executionFinishedEvent ref.request input.peer) ref.request.executed
        hne hstored honce rfl rfl rfl

/-- A course on record changes the store as the lines it writes say. -/
theorem Course.entries {handled : Handled} (h : Course config approvals input request handled)
    (hwritten : AllWritten handled.effects)
    (honce : (approvals.pending.map fun p => p.requestId.bytes).Nodup) :
    replayRecords (entriesOf approvals) (recordsOf handled.effects) =
      entriesOf handled.approvals := by
  cases h with
  | denied hplane hdenial =>
      obtain ⟨heq, hwritten⟩ := checkedAudit_written hwritten
      obtain ⟨heq', -⟩ := checkedAudit_written hwritten
      rw [heq, heq', recordsOf_audit, recordsOf_audit, replayRecords_cons, replayRecords_cons,
        applyRecord_quiet, applyRecord_quiet]
      · rfl
      · rfl
      · rfl
  | full hplane hallowed hfull =>
      obtain ⟨heq, -⟩ := checkedAudit_written hwritten
      rw [heq, recordsOf_audit, replayRecords_cons, applyRecord_quiet]
      · rfl
      · rfl
  | stored hplane hallowed hroom hfields =>
      obtain ⟨heq, hwritten⟩ := checkedAudit_written hwritten
      obtain ⟨heq', -⟩ := checkedAudit_written (allWritten_emit hwritten)
      rw [heq, heq', recordsOf_audit, replayRecords_cons, applyRecord_quiet]
      · have happlied := applyRecord_required (entriesOf approvals)
          (e := approvalRequiredEvent (admitted config approvals input request) input.peer) rfl
        exact happlied.trans (entriesOf_push approvals _).symm
      · rfl
  | unauthorized hplane hadmin =>
      obtain ⟨heq, -⟩ := checkedAudit_written hwritten
      rw [heq, recordsOf_audit, replayRecords_cons, applyRecord_quiet]
      · rfl
      · rfl
  | refused hplane hadmin hrefusal => rfl
  | listed hplane hadmin hmethod hlist => rfl
  | @granted ref hmethod haddr hstatus hnow hother =>
      obtain ⟨heq, -⟩ := checkedAudit_written (allWritten_emit hwritten)
      rw [heq]
      have hne : ApprovalStatus.granted ≠ .pending := by decide
      exact applyRecord_write (approvalGrantedEvent (ref.request.grantedBy input.peer) input.peer)
        (ref.request.grantedBy input.peer) hne haddr.stored honce rfl rfl rfl
  | @rejected ref hmethod haddr hother =>
      obtain ⟨heq, -⟩ := checkedAudit_written (allWritten_emit hwritten)
      rw [heq]
      have hne : ApprovalStatus.rejected ≠ .pending := by decide
      exact applyRecord_write (approvalRejectedEvent (ref.request.rejectedBy input.peer) input.peer)
        (ref.request.rejectedBy input.peer) hne haddr.stored honce rfl rfl rfl
  | ran hmethod haddr hstatus hnow hpolicy =>
      obtain ⟨heq, hwritten⟩ := checkedAudit_written hwritten
      rw [heq, recordsOf_audit, replayRecords_cons, applyRecord_quiet]
      · exact reportRun_entries haddr.stored honce (allWritten_emit hwritten)
      · rfl

theorem replayRecords_append (entries : List LogEntry) (rs rs' : List LogRecord) :
    replayRecords entries (rs ++ rs') = replayRecords (replayRecords entries rs) rs' :=
  List.foldl_append

/-- The records of a run on record come to the store. -/
theorem replayRecords_run (config : Config) (is : List Input)
    (hwritten : ∀ w ∈ ((daemon config).run is).auditLog, w.ok = true) :
    replayRecords [] (((daemon config).run is).auditLog.map fun w => w.event.record) =
      entriesOf ((daemon config).run is).approvals := by
  induction is using List.reverseRecOn with
  | nil => rfl
  | append_singleton is input ih =>
      rw [daemon_run_snoc_auditLog] at hwritten ⊢
      obtain ⟨hpast, hlast⟩ := List.forall_mem_append.mp hwritten
      rw [List.map_append, replayRecords_append, ih hpast, Machine.run_append_singleton,
        daemon_step_approvals]
      cases hparse : anythingRpcParse input.body with
      | error e =>
          rw [handleRequest_invalid hparse]
          rfl
      | ok request => exact (course config _ hparse).entries hlast (ids_nodup_run config is)

/-! ## The writes of a run -/

theorem made_reportRun {ref : PendingRef} {id : Bytes} :
    ∀ w ∈ auditWrites (reportRun approvals input.env input.peer id ref
      (anythingSysInfoJson input.env.os)).effects, w.Made input.env := by
  cases hresult : anythingSysInfoJson input.env.os with
  | error sysError => exact forall_writes_checked (made_auditWrite rfl 1) (forall_writes_reply _)
  | ok result => exact forall_writes_checked (made_auditWrite rfl 1) (forall_writes_reply _)

theorem Course.made {handled : Handled} (h : Course config approvals input request handled) :
    ∀ w ∈ auditWrites handled.effects, w.Made input.env := by
  cases h with
  | denied hplane hdenial =>
      exact forall_writes_checked (made_auditWrite rfl 0)
        (forall_writes_checked (made_auditWrite rfl 1) (forall_writes_reply _))
  | full hplane hallowed hfull =>
      exact forall_writes_checked (made_auditWrite rfl 0) (forall_writes_reply _)
  | stored hplane hallowed hroom hfields =>
      exact forall_writes_checked (made_auditWrite rfl 0) (forall_writes_emit (by simp)
        (forall_writes_checked (made_auditWrite rfl 1) (forall_writes_reply _)))
  | unauthorized hplane hadmin =>
      exact forall_writes_checked (made_auditWrite rfl 0) (forall_writes_reply _)
  | refused hplane hadmin hrefusal => exact forall_writes_reply _
  | listed hplane hadmin hmethod hlist => exact forall_writes_reply _
  | granted hmethod haddr hstatus hnow hother =>
      exact forall_writes_emit (by simp)
        (forall_writes_checked (made_auditWrite rfl 0) (forall_writes_reply _))
  | rejected hmethod haddr hother =>
      exact forall_writes_emit (by simp)
        (forall_writes_checked (made_auditWrite rfl 0) (forall_writes_reply _))
  | ran hmethod haddr hstatus hnow hpolicy =>
      exact forall_writes_checked (made_auditWrite rfl 0)
        (forall_writes_emit (by simp) made_reportRun)

/-- Every write of a run that succeeds at a plain time is a line that can be read. -/
theorem legible_run (config : Config) (is : List Input)
    (hwritten : ∀ w ∈ ((daemon config).run is).auditLog, w.ok = true)
    (htime : ∀ input ∈ is, ∀ k, (input.env.audit k).PlainTime) :
    ∀ w ∈ ((daemon config).run is).auditLog, ∃ line, w.Legible line := by
  induction is using List.reverseRecOn with
  | nil =>
      intro w hw
      cases hw
  | append_singleton is input ih =>
      rw [daemon_run_snoc_auditLog] at hwritten ⊢
      obtain ⟨hpast, hlast⟩ := List.forall_mem_append.mp hwritten
      obtain ⟨htimes, htime⟩ := List.forall_mem_append.mp htime
      refine List.forall_mem_append.mpr ⟨ih hpast htimes, ?_⟩
      intro w hw
      have hok := hlast w hw
      cases hparse : anythingRpcParse input.body with
      | error e =>
          rw [handleRequest_invalid hparse] at hw
          cases hw
      | ok request =>
          have hcourse := course config ((daemon config).run is).approvals hparse
          have hstore : ∀ (slot : ℕ) pending,
              ((daemon config).run is).approvals.pending[slot]? = some pending →
                ShortPending pending :=
            fun slot pending hstored => (bound_run config is slot pending hstored).shortPending
          exact (hcourse.made w hw).legible
            (hcourse.recordable (shortStrings_of_parse hparse) hstore w hw) hok
            (htime input (by simp))

/-- What the log of a run comes to. -/
theorem replayLog_run (config : Config) (is : List Input)
    (hwritten : ∀ w ∈ ((daemon config).run is).auditLog, w.ok = true)
    (htime : ∀ input ∈ is, ∀ k, (input.env.audit k).PlainTime) :
    replayLog (((daemon config).run is).auditLog.flatMap AuditWrite.appended) =
      entriesOf ((daemon config).run is).approvals := by
  rw [replayLog, readRecord_log (legible_run config is hwritten htime)]
  exact replayRecords_run config is hwritten

end Store

/-! ## The log of a process -/

/-- The audit writes for some connections, in order. -/
def writesFor (exchanges : List Exchange) : List AuditWrite :=
  exchanges.flatMap fun x => auditWrites x.served.effects

/-- What serving them has appended to the log. -/
def loggedFor (exchanges : List Exchange) : Bytes :=
  (writesFor exchanges).flatMap AuditWrite.appended

/-- Every audit write for the connection succeeds, at a time that needs no escape. -/
structure OnRecord (x : Exchange) : Prop where
  written : AllWritten x.served.effects
  plainTime : ∀ k, (x.connection.env.audit k).PlainTime

section Processes

variable {config : Config}

theorem Serves.auditLog {process last : Process} {xs : List Exchange}
    (h : Serves config process xs last) :
    last.daemon.auditLog = process.daemon.auditLog ++ writesFor xs := by
  induction h with
  | done process => exact (List.append_nil _).symm
  | @next process last x xs halive hconfig hplain hserved hrest ih =>
      calc last.daemon.auditLog
          = process.daemon.auditLog ++ auditWrites x.served.effects ++ writesFor xs := ih
        _ = process.daemon.auditLog ++ writesFor (x :: xs) := List.append_assoc _ _ _

theorem arrival_plainTime {xs : List Exchange} (h : ∀ x ∈ xs, OnRecord x) :
    ∀ input ∈ requestsIn config xs, ∀ k, (input.env.audit k).PlainTime := by
  intro input hinput
  obtain ⟨x, hx, hrequest⟩ := List.mem_filterMap.mp hinput
  rw [arrival_env (request_eq_some.mp hrequest)]
  exact (h x hx).plainTime

/-- What has been logged up to a connection comes to the store the connection leaves. -/
theorem replayLog_exchanges {polls : List Poll} {pre post : List Exchange} {x : Exchange}
    (hsplit : exchanges config polls = pre ++ x :: post) (h : ∀ y ∈ pre ++ [x], OnRecord y) :
    replayLog (loggedFor (pre ++ [x])) = entriesOf x.served.approvals := by
  have hserves := exchanges_serves config polls
  rw [hsplit] at hserves
  obtain ⟨middle, hpre, -, hserved, -⟩ := hserves.split
  have hmiddle : middle.daemon = (daemon config).run (requestsIn config pre) := hpre.daemon.1
  have hconfig : middle.daemon.config = config := by
    rw [hmiddle]
    exact daemon_run_config (requestsIn config pre)
  have hstate : (middle.after x.served).daemon =
      (daemon config).run (requestsIn config (pre ++ [x])) := by
    rw [(after_served hconfig hserved).1, hmiddle, requestsIn_append, Machine.run_append]
  have hlog : ((daemon config).run (requestsIn config (pre ++ [x]))).auditLog =
      writesFor (pre ++ [x]) := by
    rw [← hstate, writesFor, List.flatMap_append, List.flatMap_singleton]
    exact congrArg (· ++ auditWrites x.served.effects) hpre.auditLog
  have hstore : ((daemon config).run (requestsIn config (pre ++ [x]))).approvals =
      x.served.approvals := by
    rw [← hstate]
    rfl
  rw [loggedFor, ← hlog, ← hstore]
  refine replayLog_run config _ ?_ (arrival_plainTime h)
  rw [hlog]
  intro w hw
  obtain ⟨y, hy, hw⟩ := List.mem_flatMap.mp hw
  exact (h y hy).written w hw

end Processes

/-- At any time of a process whose audit writes have all succeeded, the text it has appended to
its log comes to its store. -/
theorem main_replays (os : Allocators) (argv : List Bytes) (launch : Launch)
    (polls : List Poll) (held : Finset Handle) :
    ∃ r left, main os argv launch polls held = .ok (r, left) ∧
      ∀ pre x post, r.exchanges = pre ++ x :: post → (∀ y ∈ pre ++ [x], OnRecord y) →
        replayLog (loggedFor (pre ++ [x])) = entriesOf x.served.approvals := by
  refine ⟨_, _, main_run os argv launch polls held, ?_⟩
  intro pre x post hsplit hrecord
  rcases report_exchanges argv launch polls with hnone | ⟨config, -, hexchanges⟩
  · rw [hnone] at hsplit
    simp at hsplit
  · rw [hexchanges] at hsplit
    exact replayLog_exchanges hsplit hrecord

/-- A process that has filed one request, in its log. -/
theorem main_replays_sample : ∃ r left,
    main Sample.allocators [] Sample.launch [Sample.poll (Sample.ask Sample.written)] ∅ =
        .ok (r, left) ∧
      (replayLog (loggedFor r.exchanges)).map (fun e => (e.requestId, e.status)) =
        [(ascii "req_1", .pending)] := by
  let polls := [Sample.poll (Sample.ask Sample.written)]
  obtain ⟨r, left, hmain, hreplays⟩ :=
    main_replays Sample.allocators [] Sample.launch polls ∅
  have hrun := main_run Sample.allocators [] Sample.launch polls ∅
  rw [hmain] at hrun
  obtain ⟨rfl, -⟩ := Prod.mk.inj (Except.ok.inj hrun)
  have hone : (report [] Sample.launch polls).exchanges.length = 1 := by decide +kernel
  have hwritten : ∀ x ∈ (report [] Sample.launch polls).exchanges,
      ∀ w ∈ auditWrites x.served.effects, w.ok = true := by decide +kernel
  have hstore : ∀ x ∈ (report [] Sample.launch polls).exchanges,
      (entriesOf x.served.approvals).map (fun e => (e.requestId, e.status)) =
        [(ascii "req_1", .pending)] := by decide +kernel
  obtain ⟨x, hx, hconnection⟩ : ∃ x, (report [] Sample.launch polls).exchanges = [x] ∧
      x.connection = Sample.connection (Sample.ask Sample.written) := by
    rcases report_exchanges [] Sample.launch polls with hnone | ⟨config, -, hexchanges⟩
    · rw [hnone] at hone
      cases hone
    · exact ⟨_, hexchanges, rfl⟩
  refine ⟨_, left, hmain, ?_⟩
  have hrecord : ∀ y ∈ [] ++ [x], OnRecord y := by
    intro y hy
    obtain rfl := List.mem_singleton.mp hy
    refine ⟨hwritten y (by simp [hx]), ?_⟩
    have htime : Sample.written.PlainTime := by decide
    rw [hconnection]
    exact fun _ => htime
  have hreplayed := hreplays [] x [] hx hrecord
  rw [hx]
  exact (congrArg _ hreplayed).trans (hstore x (by simp [hx]))

end AnythingTool
