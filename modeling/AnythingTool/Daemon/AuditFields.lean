import AnythingTool.Daemon.AuditLines
import AnythingTool.Daemon.Replies
import AnythingTool.Rpc.Complete

/-!
# What requests write on record

The texts of an event come from a parsed request, from a stored one or are fixed, so
none of them needs the six-byte escape, and their sizes keep all of them within the
buffers of `anything_audit_write_event` (`Course.recordable`). What the log then gets is
one line in which the texts can be read back.
-/

namespace AnythingTool

open CText JsonText

variable {n : ℕ} {config : Config} {approvals : ApprovalStore} {input : Input}
  {request : RpcRequest}

/-! ## Texts that fit -/

/-- A text that fits a `char[k]` when it is escaped, and decodes to itself. -/
structure Fits (k : ℕ) (text : Bytes) : Prop where
  short : ShortText text
  room : (escaped text).length < k

instance (k : ℕ) (text : Bytes) : Decidable (Fits k text) :=
  decidable_of_iff (ShortText text ∧ (escaped text).length < k)
    ⟨fun h => ⟨h.1, h.2⟩, fun h => ⟨h.short, h.room⟩⟩

/-- The escape at most doubles what a buffer can hold. -/
theorem Fits.of_cstring {k : ℕ} {s : CString n} (h : ShortText s.bytes) (hk : 2 * n ≤ k + 1) :
    Fits k s.bytes := by
  have hlen := length_escaped_le h
  have hfits := s.fits
  exact ⟨h, by omega⟩

theorem Fits.exists_escape {k : ℕ} [HasRoom k] {text : Bytes} (h : Fits k text) :
    ∃ out, anythingJsonEscapeString k text = some out :=
  (exists_anythingJsonEscapeString_iff (ShortlyEscaped.zero_notMem h.short)).mpr h.room

theorem shortText_snprintf [HasRoom n] {text : Bytes} (h : ShortText text) :
    ShortText (CString.snprintf n text).bytes :=
  fun c hc => h c ((List.takeWhile_prefix _).subset (List.mem_of_mem_take hc))

theorem shortText_append {s t : Bytes} (hs : ShortText s) (ht : ShortText t) :
    ShortText (s ++ t) := by
  intro c hc
  rcases List.mem_append.mp hc with hc | hc
  · exact hs c hc
  · exact ht c hc

/-- The texts of an event fit the buffers of `anything_audit_write_event`. -/
structure Recordable (e : AuditEvent) : Prop where
  requestId : Fits 128 e.requestId
  sessionId : Fits 128 e.sessionId
  method : Fits 128 e.method
  risk : Fits 64 e.risk
  decision : Fits 64 e.decision
  errorKind : Fits 128 e.errorKind
  paramsSummary : Fits 512 e.paramsSummary

theorem AuditEventKind.fits (kind : AuditEventKind) : Fits 64 kind.text := by
  cases kind
  all_goals decide

theorem Recordable.exists_escapeEvent {e : AuditEvent} (h : Recordable e) :
    ∃ f, escapeEvent e = some f := by
  obtain ⟨event, hevent⟩ := e.event.fits.exists_escape
  obtain ⟨requestId, hid⟩ := h.requestId.exists_escape
  obtain ⟨sessionId, hsession⟩ := h.sessionId.exists_escape
  obtain ⟨method, hmethod⟩ := h.method.exists_escape
  obtain ⟨risk, hrisk⟩ := h.risk.exists_escape
  obtain ⟨decision, hdecision⟩ := h.decision.exists_escape
  obtain ⟨errorKind, hkind⟩ := h.errorKind.exists_escape
  obtain ⟨summary, hsummary⟩ := h.paramsSummary.exists_escape
  exact ⟨⟨event, requestId, sessionId, method, risk, decision, errorKind, summary⟩, by
    simp only [escapeEvent, hevent, hid, hsession, hmethod, hrisk, hdecision, hkind, hsummary,
      bind, Option.bind, pure]⟩

/-! ## The events of the handlers -/

theorem recordable_requestEvent {event : AuditEventKind} {caller : Identity}
    {risk decision errorKind summary : Bytes} (hrequest : ShortStrings request)
    (hrisk : Fits 64 risk) (hdecision : Fits 64 decision) (hkind : Fits 128 errorKind)
    (hsummary : Fits 512 summary) :
    Recordable (requestEvent event request caller risk decision errorKind summary) :=
  have hempty : Fits 128 [] := by decide
  ⟨hempty, .of_cstring hrequest.sessionId (by decide), .of_cstring hrequest.method (by decide),
    hrisk, hdecision, hkind, hsummary⟩

/-- The texts of a stored request print shortly. -/
structure ShortPending (pending : PendingRequest) : Prop where
  requestId : ShortText pending.requestId.bytes
  sessionId : ShortText pending.sessionId.bytes
  method : ShortText pending.method.bytes
  risk : ShortText pending.risk.bytes
  summary : ShortText pending.summary.bytes

theorem recordable_pendingEvent {event : AuditEventKind} {pending : PendingRequest}
    {caller : Identity} {approver : Option Identity} {decision errorKind summary : Bytes}
    (hpending : ShortPending pending) (hdecision : Fits 64 decision)
    (hkind : Fits 128 errorKind) (hsummary : Fits 512 summary) :
    Recordable (pendingEvent event pending caller approver decision errorKind summary) :=
  ⟨.of_cstring hpending.requestId (by decide), .of_cstring hpending.sessionId (by decide),
    .of_cstring hpending.method (by decide), .of_cstring hpending.risk (by decide), hdecision,
    hkind, hsummary⟩

/-- The texts of the policy, the method of the request in one of them. -/
theorem preflight_fits (config : Config) (hmethod : ShortText request.method.bytes) :
    ShortText (anythingPolicyPreflight config request).risk.bytes ∧
      Fits 128 (anythingPolicyPreflight config request).reason.bytes ∧
      ShortText (anythingPolicyPreflight config request).summary.bytes := by
  have hunknown : ShortText (ascii "Unknown method " ++ request.method.bytes) :=
    shortText_append (by decide) hmethod
  unfold anythingPolicyPreflight
  split_ifs
  all_goals dsimp only
  · exact ⟨by decide, by decide, shortText_snprintf hunknown⟩
  · exact ⟨by decide, by decide, by decide⟩
  · exact ⟨by decide, by decide, by decide⟩

theorem shortPending_admitted (hrequest : ShortStrings request) :
    ShortPending (admitted config approvals input request) := by
  obtain ⟨hrisk, -, hsummary⟩ := preflight_fits config hrequest.method
  constructor
  · exact shortText_snprintf fun c hc => requestId_shortlyEscaped hc
  · exact shortText_snprintf hrequest.sessionId
  · exact shortText_snprintf hrequest.method
  · exact shortText_snprintf hrisk
  · exact shortText_snprintf hsummary

theorem Bound.shortPending {history : List DaemonRecord} {slot : ℕ} {pending : PendingRequest}
    (h : Bound config history slot pending) : ShortPending pending := by
  obtain ⟨r, -, -, request, hto⟩ := h
  have hrequest := shortStrings_of_parse hto.parse
  obtain ⟨hrisk, -, hsummary⟩ := preflight_fits config hrequest.method
  constructor
  · rw [hto.requestId]
    exact fun c hc => requestId_shortlyEscaped hc
  · exact hto.sessionId ▸ hrequest.sessionId
  · exact hto.method ▸ hrequest.method
  · exact hto.risk ▸ hrisk
  · exact hto.summary ▸ hsummary

/-! ## Every course -/

/-- All events among the effects can be recorded. -/
def AllRecordable (effects : List Effect) : Prop :=
  ∀ w ∈ auditWrites effects, Recordable w.event

section Writes

variable {P : AuditWrite → Prop}

theorem forall_writes_reply (r : Option (CString 4096)) : ∀ w ∈ auditWrites [.reply r], P w := by
  intro w hw
  cases hw

theorem forall_writes_emit {effect : Effect} {handled : Handled}
    (hquiet : ∀ w, effect ≠ .audit w) (h : ∀ w ∈ auditWrites handled.effects, P w) :
    ∀ w ∈ auditWrites (emit effect handled).effects, P w := by
  intro w hw
  rcases List.mem_cons.mp (mem_auditWrites.mp hw) with heq | hw
  · exact absurd heq.symm (hquiet w)
  · exact h w (mem_auditWrites.mpr hw)

theorem forall_writes_checked {outcome : AuditOutcome} {event : AuditEvent} {rpcId : Bytes}
    {store : ApprovalStore} {next : Handled} (hwrite : P (auditWrite outcome event))
    (h : ∀ w ∈ auditWrites next.effects, P w) :
    ∀ w ∈ auditWrites (checkedAudit outcome event rpcId store next).effects, P w := by
  intro w hw
  rcases List.mem_cons.mp (mem_auditWrites.mp hw) with heq | hw
  · obtain rfl := Effect.audit.inj heq
    exact hwrite
  · split_ifs at hw
    · exact h w (mem_auditWrites.mpr hw)
    · exact absurd (List.mem_singleton.mp hw) (by simp [errorResponse, writeResponse])

end Writes

theorem allRecordable_reply (r : Option (CString 4096)) : AllRecordable [.reply r] :=
  forall_writes_reply r

theorem allRecordable_emit {effect : Effect} {handled : Handled}
    (hquiet : ∀ w, effect ≠ .audit w) (h : AllRecordable handled.effects) :
    AllRecordable (emit effect handled).effects :=
  forall_writes_emit hquiet h

theorem allRecordable_checked {outcome : AuditOutcome} {event : AuditEvent} {rpcId : Bytes}
    {store : ApprovalStore} {next : Handled} (hevent : Recordable event)
    (h : AllRecordable next.effects) :
    AllRecordable (checkedAudit outcome event rpcId store next).effects :=
  forall_writes_checked hevent h

theorem allRecordable_reportRun {ref : PendingRef} {id : Bytes}
    (hpending : ShortPending ref.request) :
    AllRecordable (reportRun approvals input.env input.peer id ref
      (anythingSysInfoJson input.env.os)).effects := by
  have herrors : ∀ text ∈ sysErrors, Fits 512 text := by decide
  have hsummary : Fits 512 ref.request.summary.bytes := .of_cstring hpending.summary (by decide)
  cases hresult : anythingSysInfoJson input.env.os with
  | error sysError =>
      have herror := herrors _ ((anythingSysInfoJson_spec input.env.os).2 sysError hresult)
      exact allRecordable_checked
        (recordable_pendingEvent hpending (by decide) (by decide) herror) (allRecordable_reply _)
  | ok result =>
      exact allRecordable_checked
        (recordable_pendingEvent hpending (by decide) (by decide) hsummary)
        (allRecordable_reply _)

theorem Denial.fits {code : ℤ} {risk kind summary message : Bytes}
    (h : Denial config request code risk kind summary message)
    (hmethod : ShortText request.method.bytes) :
    Fits 64 risk ∧ Fits 128 kind ∧ Fits 512 summary := by
  cases h with
  | controlPlane hcontrol => exact ⟨by decide, by decide, by decide⟩
  | policy hcontrol hdeny =>
      obtain ⟨hrisk, hreason, hsummary⟩ := preflight_fits config hmethod
      exact ⟨.of_cstring hrisk (by decide), hreason, .of_cstring hsummary (by decide)⟩

theorem Course.recordable {handled : Handled} (h : Course config approvals input request handled)
    (hrequest : ShortStrings request)
    (hstore : ∀ (slot : ℕ) pending, approvals.pending[slot]? = some pending →
      ShortPending pending) :
    AllRecordable handled.effects := by
  have hreceived : Recordable (receivedEvent request input.peer) :=
    recordable_requestEvent hrequest (by decide) (by decide) (by decide) (by decide)
  cases h with
  | denied hplane hdenial =>
      obtain ⟨hrisk, hkind, hsummary⟩ := hdenial.fits hrequest.method
      exact allRecordable_checked hreceived (allRecordable_checked
        (recordable_requestEvent hrequest hrisk (by decide) hkind hsummary)
        (allRecordable_reply _))
  | full hplane hallowed hfull =>
      exact allRecordable_checked hreceived (allRecordable_reply _)
  | stored hplane hallowed hroom hfields =>
      have hpending : ShortPending (admitted config approvals input request) :=
        shortPending_admitted hrequest
      exact allRecordable_checked hreceived (allRecordable_emit (by simp)
        (allRecordable_checked (recordable_pendingEvent hpending (by decide) (by decide)
          (.of_cstring hpending.summary (by decide))) (allRecordable_reply _)))
  | unauthorized hplane hadmin =>
      exact allRecordable_checked (recordable_requestEvent hrequest (by decide) (by decide)
        (by decide) (by decide)) (allRecordable_reply _)
  | refused hplane hadmin hrefusal => exact allRecordable_reply _
  | listed hplane hadmin hmethod hlist => exact allRecordable_reply _
  | @granted ref hmethod haddr hstatus hnow hother =>
      have hpending := hstore ref.slot ref.request haddr.stored
      have hgranted : ShortPending (ref.request.grantedBy input.peer) :=
        ⟨hpending.requestId, hpending.sessionId, hpending.method, hpending.risk,
          hpending.summary⟩
      exact allRecordable_emit (by simp) (allRecordable_checked
        (recordable_pendingEvent hgranted (by decide) (by decide)
          (.of_cstring hgranted.summary (by decide))) (allRecordable_reply _))
  | @rejected ref hmethod haddr hother =>
      have hpending := hstore ref.slot ref.request haddr.stored
      have hrejected : ShortPending (ref.request.rejectedBy input.peer) :=
        ⟨hpending.requestId, hpending.sessionId, hpending.method, hpending.risk,
          hpending.summary⟩
      exact allRecordable_emit (by simp) (allRecordable_checked
        (recordable_pendingEvent hrejected (by decide) (by decide)
          (.of_cstring hrejected.summary (by decide))) (allRecordable_reply _))
  | @ran ref hmethod haddr hstatus hnow hpolicy =>
      have hpending := hstore ref.slot ref.request haddr.stored
      exact allRecordable_checked (recordable_pendingEvent hpending (by decide) (by decide)
        (.of_cstring hpending.summary (by decide)))
        (allRecordable_emit (by simp) (allRecordable_reportRun hpending))

/-! ## Reading a record back -/

theorem textValue_reads {text : Bytes} (h : ShortText text) :
    StringValue (textValue text) text := by
  refine ⟨escaped text, stringBody_escaped h, ?_⟩
  rw [textValue, cstr_of_notMem (ShortlyEscaped.zero_notMem h)]
  rfl

theorem isValue_textValue {text : Bytes} (h : ShortText text) : IsValue (textValue text) := by
  obtain ⟨raw, hbody, heq⟩ := textValue_reads h
  rw [heq]
  exact .string hbody

theorem isValue_formatInt (k : ℤ) : IsValue (formatInt k) := .scalar (.inl (isNumber_formatInt k))

theorem isValue_identityObject (identity : Identity) : IsValue (identityObject identity) := by
  have hkeys : PlainKeys [("uid", formatInt identity.uid.toNat),
      ("gid", formatInt identity.gid.toNat), ("pid", formatInt identity.pid.toInt)] := by
    simp only [PlainKeys, List.forall_mem_cons]
    decide
  have hvalues : ∀ f ∈ [("uid", formatInt identity.uid.toNat),
      ("gid", formatInt identity.gid.toNat), ("pid", formatInt identity.pid.toInt)],
      IsValue f.2 := by
    simp only [List.forall_mem_cons]
    exact ⟨isValue_formatInt _, isValue_formatInt _, isValue_formatInt _, by simp⟩
  cases isObject_fields (List.cons_ne_nil _ _) hkeys hvalues with
  | members hne hl hv => exact .object hne hl hv

/-- The line of a recordable event is an object. -/
theorem Recordable.isObject {e : AuditEvent} (h : Recordable e) {timestamp : Bytes}
    (htime : ∀ c ∈ timestamp, Unescaped c) :
    IsObject (fields (eventFields timestamp e))
      (objectText (fields (eventFields timestamp e))) := by
  apply isObject_fields (List.cons_ne_nil _ _) (plainKeys_eventFields timestamp e)
  apply forall_mem_eventFields
  · exact .string (.of_unescaped htime)
  · simp only [headFields, List.forall_mem_cons]
    exact ⟨isValue_textValue e.event.fits.short, isValue_textValue h.requestId.short,
      isValue_textValue h.sessionId.short, isValue_identityObject _, by simp⟩
  · exact isValue_identityObject
  · simp only [tailFields, List.forall_mem_cons]
    exact ⟨isValue_textValue h.method.short, isValue_textValue h.risk.short,
      isValue_textValue h.decision.short, isValue_textValue h.errorKind.short,
      isValue_formatInt _, isValue_textValue h.paramsSummary.short, by simp⟩

/-- Each text of an event is the only value of its key, and decodes to what was passed. -/
structure ReadsBack (ms : List Member) (e : AuditEvent) : Prop where
  event : StringField ms (ascii "event") e.event.text
  requestId : StringField ms (ascii "request_id") e.requestId
  sessionId : StringField ms (ascii "session_id") e.sessionId
  method : StringField ms (ascii "method") e.method
  risk : StringField ms (ascii "risk") e.risk
  decision : StringField ms (ascii "decision") e.decision
  errorKind : StringField ms (ascii "error_kind") e.errorKind
  paramsSummary : StringField ms (ascii "params_summary") e.paramsSummary

/-- Among fields with different keys a key has one member. -/
theorem membersAt_fields {fs : List (String × Bytes)}
    (hkeys : (fs.map fun f => ascii f.1).Nodup) {key : String} {value : Bytes}
    (h : (key, value) ∈ fs) : membersAt (fields fs) (ascii key) = [field key value] := by
  induction fs with
  | nil => cases h
  | cons f fs ih =>
      obtain ⟨hfresh, hkeys⟩ := List.nodup_cons.mp hkeys
      rcases List.mem_cons.mp h with rfl | hmem
      · have hnone : membersAt (fields fs) (ascii key) = [] := by
          apply List.filter_eq_nil_iff.mpr
          intro m hm
          obtain ⟨f, hf, rfl⟩ := List.mem_map.mp hm
          intro hkey
          exact hfresh (List.mem_map.mpr ⟨f, hf, of_decide_eq_true hkey⟩)
        rw [membersAt, fields, List.map_cons, List.filter_cons_of_pos (by simp [field])]
        exact congrArg _ hnone
      · have hother : ¬ decide ((field f.1 f.2).key = ascii key) = true := by
          intro heq
          exact hfresh
            (List.mem_map.mpr ⟨(key, value), hmem, (of_decide_eq_true heq).symm⟩)
        rw [membersAt, fields, List.map_cons,
          List.filter_cons_of_neg (p := fun m : Member => m.key = ascii key) hother]
        exact ih hkeys hmem

theorem nodup_eventFields (timestamp : Bytes) (e : AuditEvent) :
    ((eventFields timestamp e).map fun f => ascii f.1).Nodup := by
  unfold eventFields approverFields
  cases e.approver with
  | none =>
      change (List.map ascii ["timestamp", "event", "request_id", "session_id", "caller",
        "method", "risk", "decision", "error_kind", "duration_ms", "params_summary"]).Nodup
      decide
  | some approver =>
      change (List.map ascii ["timestamp", "event", "request_id", "session_id", "caller",
        "approver", "method", "risk", "decision", "error_kind", "duration_ms",
        "params_summary"]).Nodup
      decide

theorem Recordable.readsBack {e : AuditEvent} (h : Recordable e) (timestamp : Bytes) :
    ReadsBack (fields (eventFields timestamp e)) e := by
  have hreads : ∀ {key : String} {text : Bytes}, ShortText text →
      (key, textValue text) ∈ headFields e ++ tailFields e →
      StringField (fields (eventFields timestamp e)) (ascii key) text := by
    intro key text hshort hmem
    have hfield : (key, textValue text) ∈ eventFields timestamp e := by
      simp only [eventFields, List.mem_cons, List.mem_append] at hmem ⊢
      tauto
    exact ⟨_, membersAt_fields (nodup_eventFields timestamp e) hfield, textValue_reads hshort⟩
  constructor
  · exact hreads e.event.fits.short (by simp [headFields])
  · exact hreads h.requestId.short (by simp [headFields])
  · exact hreads h.sessionId.short (by simp [headFields])
  · exact hreads h.method.short (by simp [tailFields])
  · exact hreads h.risk.short (by simp [tailFields])
  · exact hreads h.decision.short (by simp [tailFields])
  · exact hreads h.errorKind.short (by simp [tailFields])
  · exact hreads h.paramsSummary.short (by simp [tailFields])

/-- Every system call of an audit write succeeds. -/
structure AuditOutcome.Succeeds (o : AuditOutcome) : Prop where
  opened : o.opened = true
  headWritten : o.headWritten = true
  approverWritten : o.approverWritten = true
  tailWritten : o.tailWritten = true
  closed : o.closed = true

theorem Recordable.write {e : AuditEvent} (h : Recordable e) {o : AuditOutcome}
    (ho : o.Succeeds) : anythingAuditWriteEvent o e = (true, eventLine o.timestamp.bytes e) := by
  obtain ⟨f, hescape⟩ := h.exists_escapeEvent
  have hbegins : AuditCall.Begins ⟨o, e⟩ := ⟨ho.opened, by rw [hescape]; rfl, ho.headWritten⟩
  have hfinishes : AuditCall.Finishes ⟨o, e⟩ := ⟨fun _ => ho.approverWritten, ho.tailWritten⟩
  have happended : (anythingAuditWriteEvent o e).2 = eventLine o.timestamp.bytes e :=
    AuditCall.appended_of_finishes hbegins hfinishes
  have hok : (anythingAuditWriteEvent o e).1 = true := by
    unfold anythingAuditWriteEvent
    cases e.approver <;>
      simp [ho.opened, hescape, ho.headWritten, ho.approverWritten, ho.tailWritten, ho.closed,
        tryWrite]
  rw [← happended, ← hok]

/-- Whatever a client sends, the events it causes fit the buffers of the audit write, and
a write that meets no failure appends one line in which every text can be read back. -/
theorem recorded_lines (config : Config) (is : List Input) (input : Input)
    (request : RpcRequest) (hparse : anythingRpcParse input.body = .ok request) :
    ∀ w ∈ auditWrites ((daemon config).step ((daemon config).run is) input).2,
      (∃ f, escapeEvent w.event = some f) ∧
        ∀ o : AuditOutcome, o.Succeeds → o.PlainTime →
          ∃ t ms, anythingAuditWriteEvent o w.event = (true, t ++ [newline]) ∧ newline ∉ t ∧
            IsObject ms t ∧ ReadsBack ms w.event := by
  intro w hw
  rw [daemon_step_effects] at hw
  have hstore : ∀ (slot : ℕ) pending,
      ((daemon config).run is).approvals.pending[slot]? = some pending → ShortPending pending :=
    fun slot pending hstored => (bound_run config is slot pending hstored).shortPending
  have hrecord : Recordable w.event :=
    (course config _ hparse).recordable (shortStrings_of_parse hparse) hstore w hw
  refine ⟨hrecord.exists_escapeEvent, ?_⟩
  intro o ho htime
  refine ⟨_, _, hrecord.write ho, ?_, hrecord.isObject htime, hrecord.readsBack _⟩
  obtain ⟨t, ht, -, heq⟩ := jsonLine_eventLine htime w.event
  rw [List.append_cancel_right heq]
  exact ht.noControl.notMem (by decide)

/-- A first request of the agent. -/
theorem recorded_lines_sample : ∃ request,
    anythingRpcParse (Sample.ask Sample.written).body = .ok request ∧
    ∀ w ∈ auditWrites ((daemon Sample.config).step ((daemon Sample.config).run [])
        (Sample.ask Sample.written)).2,
      (∃ f, escapeEvent w.event = some f) ∧
        ∀ o : AuditOutcome, o.Succeeds → o.PlainTime →
          ∃ t ms, anythingAuditWriteEvent o w.event = (true, t ++ [newline]) ∧ newline ∉ t ∧
            IsObject ms t ∧ ReadsBack ms w.event := by
  obtain ⟨request, hparse⟩ := exists_ok_of_isSome
    (by decide +kernel : (anythingRpcParse (Sample.ask Sample.written).body).toOption.isSome =
      true)
  exact ⟨request, hparse, recorded_lines Sample.config [] (Sample.ask Sample.written) request
    hparse⟩

end AnythingTool
