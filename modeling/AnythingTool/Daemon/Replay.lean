import AnythingTool.Daemon.Listing

/-!
# Replaying the audit log

When every audit write succeeds, the log says everything the store knows about the
course of its requests. `LogMove` relates what one request does to the store with the
events it writes; it is read off the courses. `Replays` reads ids, statuses and
approvers off a log, and is kept by every `LogMove`.
-/

namespace AnythingTool

open CText

variable {config : Config} {approvals : ApprovalStore} {input : Input} {request : RpcRequest}

/-! ## Requests that are on record -/

/-- Every audit write among the effects succeeded. -/
def AllWritten (effects : List Effect) : Prop := ∀ w ∈ auditWrites effects, w.ok = true

/-- The events of the audit writes among the effects. -/
def auditEvents (effects : List Effect) : List AuditEvent :=
  (auditWrites effects).map AuditWrite.event

theorem auditEvents_emit_audit (w : AuditWrite) (handled : Handled) :
    auditEvents (emit (.audit w) handled).effects = w.event :: auditEvents handled.effects := rfl

/-- Behind an audit write that succeeded the handler goes on. -/
theorem checkedAudit_written {outcome : AuditOutcome} {event : AuditEvent} {rpcId : Bytes}
    {store : ApprovalStore} {next : Handled}
    (h : AllWritten (checkedAudit outcome event rpcId store next).effects) :
    checkedAudit outcome event rpcId store next =
        emit (.audit (auditWrite outcome event)) next ∧ AllWritten next.effects := by
  have hok : (auditWrite outcome event).ok = true := by
    apply h
    rw [checkedAudit, mem_auditWrites]
    exact List.mem_cons_self
  rw [checkedAudit_of_ok hok] at h ⊢
  refine ⟨rfl, ?_⟩
  intro w hw
  apply h
  rw [mem_auditWrites] at hw ⊢
  exact List.mem_cons_of_mem _ hw

/-- An effect in front that is no audit write. -/
theorem allWritten_emit {effect : Effect} {handled : Handled}
    (h : AllWritten (emit effect handled).effects) : AllWritten handled.effects := by
  intro w hw
  apply h
  rw [mem_auditWrites] at hw ⊢
  exact List.mem_cons_of_mem _ hw

/-! ## Store and log in one step -/

/-- The end of an execution: both events are about the same request. -/
def Ends (started done : AuditEvent) : Prop :=
  (done.event = .executionFinished ∨ done.event = .executionFailed) ∧
    done.requestId = started.requestId

/-- What one request does to the store, with the events it writes. -/
inductive LogMove (approvals : ApprovalStore) : List AuditEvent → ApprovalStore → Prop
  | quiet {events : List AuditEvent}
      (h : ∀ e ∈ events, e.event = .requestReceived ∨ e.event = .preflightDenied) :
      LogMove approvals events approvals
  | stored {received required : AuditEvent} {pending : PendingRequest}
      (hreceived : received.event = .requestReceived)
      (hrequired : required.event = .approvalRequired)
      (hid : required.requestId = pending.requestId.bytes) (hstatus : pending.status = .pending)
      (happrover : pending.approver = ⟨0, 0, 0⟩) :
      LogMove approvals [received, required] (approvals.push pending)
  | granted {event : AuditEvent} {ref : PendingRef} {admin : Identity}
      (hstored : approvals.pending[ref.slot]? = some ref.request)
      (hevent : event.event = .approvalGranted)
      (hid : event.requestId = ref.request.requestId.bytes)
      (happrover : event.approver = some admin) :
      LogMove approvals [event] (approvals.write ⟨ref.slot, ref.request.grantedBy admin⟩)
  | rejected {event : AuditEvent} {ref : PendingRef} {admin : Identity}
      (hstored : approvals.pending[ref.slot]? = some ref.request)
      (hevent : event.event = .approvalRejected)
      (hid : event.requestId = ref.request.requestId.bytes)
      (happrover : event.approver = some admin) :
      LogMove approvals [event] (approvals.write ⟨ref.slot, ref.request.rejectedBy admin⟩)
  | failed {started done : AuditEvent} (hstarted : started.event = .executionStarted)
      (hdone : done.event = .executionFailed) (hid : done.requestId = started.requestId) :
      LogMove approvals [started, done] approvals
  | finished {started done : AuditEvent} {ref : PendingRef}
      (hstored : approvals.pending[ref.slot]? = some ref.request)
      (hstarted : started.event = .executionStarted)
      (hdone : done.event = .executionFinished) (hid : done.requestId = started.requestId)
      (hid' : started.requestId = ref.request.requestId.bytes) :
      LogMove approvals [started, done] (approvals.write ⟨ref.slot, ref.request.executed⟩)

theorem reportRun_logMove {ref : PendingRef} {id : Bytes}
    (hstored : approvals.pending[ref.slot]? = some ref.request)
    (hwritten : AllWritten (reportRun approvals input.env input.peer id ref
      (anythingSysInfoJson input.env.os)).effects) :
    LogMove approvals
      (executionStartedEvent ref.request input.peer ::
        auditEvents (reportRun approvals input.env input.peer id ref
          (anythingSysInfoJson input.env.os)).effects)
      (reportRun approvals input.env input.peer id ref
        (anythingSysInfoJson input.env.os)).approvals := by
  cases hresult : anythingSysInfoJson input.env.os with
  | error sysError =>
      rw [hresult] at hwritten
      unfold reportRun at hwritten ⊢
      simp only at hwritten ⊢
      obtain ⟨heq, -⟩ := checkedAudit_written hwritten
      rw [heq]
      exact .failed rfl rfl rfl
  | ok result =>
      rw [hresult] at hwritten
      unfold reportRun at hwritten ⊢
      simp only at hwritten ⊢
      obtain ⟨heq, -⟩ := checkedAudit_written hwritten
      rw [heq]
      exact .finished hstored rfl rfl rfl rfl

/-- A course on record moves store and log together. -/
theorem Course.logMove {handled : Handled} (h : Course config approvals input request handled)
    (hwritten : AllWritten handled.effects) :
    LogMove approvals (auditEvents handled.effects) handled.approvals := by
  cases h with
  | denied hplane hdenial =>
      obtain ⟨heq, hwritten⟩ := checkedAudit_written hwritten
      obtain ⟨heq', -⟩ := checkedAudit_written hwritten
      rw [heq, heq']
      refine .quiet ?_
      intro e he
      change e ∈ [_, _] at he
      simp only [List.mem_cons, List.not_mem_nil, or_false] at he
      rcases he with rfl | rfl
      · exact .inl rfl
      · exact .inr rfl
  | full hplane hallowed hfull =>
      obtain ⟨heq, -⟩ := checkedAudit_written hwritten
      rw [heq]
      refine .quiet ?_
      intro e he
      obtain rfl := List.mem_singleton.mp he
      exact .inl rfl
  | stored hplane hallowed hroom hfields =>
      obtain ⟨heq, hwritten⟩ := checkedAudit_written hwritten
      obtain ⟨heq', -⟩ := checkedAudit_written (allWritten_emit hwritten)
      rw [heq, heq']
      exact .stored rfl rfl rfl rfl rfl
  | unauthorized hplane hadmin =>
      obtain ⟨heq, -⟩ := checkedAudit_written hwritten
      rw [heq]
      refine .quiet ?_
      intro e he
      obtain rfl := List.mem_singleton.mp he
      exact .inr rfl
  | refused hplane hadmin hrefusal =>
      refine .quiet ?_
      intro e he
      cases he
  | listed hplane hadmin hmethod hlist =>
      refine .quiet ?_
      intro e he
      cases he
  | granted hmethod haddr hstatus hnow hother =>
      obtain ⟨heq, -⟩ := checkedAudit_written (allWritten_emit hwritten)
      rw [heq]
      exact .granted haddr.stored rfl rfl rfl
  | rejected hmethod haddr hother =>
      obtain ⟨heq, -⟩ := checkedAudit_written (allWritten_emit hwritten)
      rw [heq]
      exact .rejected haddr.stored rfl rfl rfl
  | ran hmethod haddr hstatus hnow hpolicy =>
      obtain ⟨heq, hwritten⟩ := checkedAudit_written hwritten
      rw [heq]
      exact reportRun_logMove haddr.stored (allWritten_emit hwritten)

/-- Every request on record moves store and log together. -/
theorem logMove (config : Config) (approvals : ApprovalStore) (input : Input)
    (hwritten : AllWritten (handleRequest config approvals input).effects) :
    LogMove approvals (auditEvents (handleRequest config approvals input).effects)
      (handleRequest config approvals input).approvals := by
  cases hparse : anythingRpcParse input.body with
  | error e =>
      rw [handleRequest_invalid hparse]
      refine .quiet ?_
      intro e he
      cases he
  | ok request => exact (course config approvals hparse).logMove hwritten

/-! ## What a log says about the store -/

/-- The status an event gives the request it is about. -/
def AuditEventKind.status : AuditEventKind → Option ApprovalStatus
  | .approvalRequired => some .pending
  | .approvalGranted => some .granted
  | .approvalRejected => some .rejected
  | .executionFinished => some .executed
  | _ => none

/-- An event in which an admin rules on a request. -/
def AuditEventKind.rules : AuditEventKind → Bool
  | .approvalGranted => true
  | .approvalRejected => true
  | _ => false

/-- The last event of these kinds about a request. -/
def lastEvent (kinds : AuditEventKind → Bool) (requestId : Bytes) (log : List AuditEvent) :
    Option AuditEvent :=
  (log.filter fun e => kinds e.event && e.requestId = requestId).getLast?

/-- The ids of the requests stored in a log. -/
def requiredIds (log : List AuditEvent) : List Bytes :=
  (log.filter fun e => e.event = .approvalRequired).map AuditEvent.requestId

/-- The status a log gives a request. -/
def statusIn (log : List AuditEvent) (requestId : Bytes) : Option ApprovalStatus :=
  (lastEvent (fun kind => kind.status.isSome) requestId log).bind fun e => e.event.status

/-- The approver a log gives a request; a stored request starts with the zero identity. -/
def approverIn (log : List AuditEvent) (requestId : Bytes) : Identity :=
  ((lastEvent AuditEventKind.rules requestId log).bind AuditEvent.approver).getD ⟨0, 0, 0⟩

/-- Each execution in a log is a pair of neighbours. -/
inductive Paired : List AuditEvent → Prop
  | nil : Paired []
  | plain {e : AuditEvent} {log : List AuditEvent} (hstart : e.event ≠ .executionStarted)
      (hfinish : e.event ≠ .executionFinished) (hfail : e.event ≠ .executionFailed)
      (hlog : Paired log) : Paired (e :: log)
  | execution {started done : AuditEvent} {log : List AuditEvent}
      (hstart : started.event = .executionStarted) (hends : Ends started done)
      (hlog : Paired log) : Paired (started :: done :: log)

/-- The log replays to the store. -/
structure Replays (log : List AuditEvent) (approvals : ApprovalStore) : Prop where
  ids : requiredIds log = approvals.pending.map fun p => p.requestId.bytes
  once : (requiredIds log).Nodup
  status : ∀ p ∈ approvals.pending, statusIn log p.requestId.bytes = some p.status
  approver : ∀ p ∈ approvals.pending, approverIn log p.requestId.bytes = p.approver
  known : ∀ e ∈ log, e.event.rules = true → e.requestId ∈ requiredIds log
  executions : Paired log

/-- A ruling gives a status. -/
theorem rules_status {kind : AuditEventKind} (h : kind.rules = true) :
    kind.status.isSome = true := by
  cases kind with
  | approvalGranted => rfl
  | approvalRejected => rfl
  | _ => cases h

theorem lastEvent_append (kinds : AuditEventKind → Bool) (requestId : Bytes)
    (log more : List AuditEvent) :
    lastEvent kinds requestId (log ++ more) =
      (lastEvent kinds requestId more).or (lastEvent kinds requestId log) := by
  rw [lastEvent, List.filter_append, List.getLast?_append]
  rfl

theorem lastEvent_eq_none {kinds : AuditEventKind → Bool} {requestId : Bytes}
    {log : List AuditEvent}
    (h : ∀ e ∈ log, kinds e.event = true → e.requestId ≠ requestId) :
    lastEvent kinds requestId log = none := by
  have hnil : (log.filter fun e => kinds e.event && e.requestId = requestId) = [] := by
    rw [List.filter_eq_nil_iff]
    intro e he hmatch
    rw [Bool.and_eq_true, decide_eq_true_eq] at hmatch
    exact h e he hmatch.1 hmatch.2
  rw [lastEvent, hnil]
  rfl

/-- Events that are not about a request leave what the log says about it. -/
theorem statusIn_append_of_none {log more : List AuditEvent} {requestId : Bytes}
    (h : ∀ e ∈ more, e.event.status.isSome = true → e.requestId ≠ requestId) :
    statusIn (log ++ more) requestId = statusIn log requestId := by
  rw [statusIn, lastEvent_append, lastEvent_eq_none h]
  rfl

theorem approverIn_append_of_none {log more : List AuditEvent} {requestId : Bytes}
    (h : ∀ e ∈ more, e.event.rules = true → e.requestId ≠ requestId) :
    approverIn (log ++ more) requestId = approverIn log requestId := by
  rw [approverIn, lastEvent_append, lastEvent_eq_none h]
  rfl

theorem statusIn_append_of_last {log more : List AuditEvent} {e : AuditEvent}
    {status : ApprovalStatus} (hlast : lastEvent (fun kind => kind.status.isSome) e.requestId
      more = some e) (hstatus : e.event.status = some status) :
    statusIn (log ++ more) e.requestId = some status := by
  rw [statusIn, lastEvent_append, hlast]
  exact hstatus

theorem Paired.append {log more : List AuditEvent} (h : Paired log) (hmore : Paired more) :
    Paired (log ++ more) := by
  induction h with
  | nil => exact hmore
  | plain hstart hfinish hfail _ ih => exact .plain hstart hfinish hfail ih
  | execution hstart hends _ ih => exact .execution hstart hends ih

theorem Ends.not_start {started done : AuditEvent} (h : Ends started done) :
    done.event ≠ .executionStarted := by
  intro hstart
  rcases h.1 with hdone | hdone
  · rw [hstart] at hdone
    cases hdone
  · rw [hstart] at hdone
    cases hdone

/-- In such a log the event behind a start ends it, and the one behind that does not. -/
theorem Paired.ended {log : List AuditEvent} (h : Paired log) {before after : List AuditEvent}
    {started : AuditEvent} (hlog : log = before ++ started :: after)
    (hstarted : started.event = .executionStarted) :
    ∃ done rest, after = done :: rest ∧ Ends started done ∧
      ∀ next ∈ rest.head?, ¬ Ends started next := by
  induction h generalizing before with
  | nil => simp at hlog
  | plain hstart _ _ _ ih =>
      cases before with
      | nil =>
          obtain ⟨rfl, -⟩ := List.cons.inj hlog
          exact absurd hstarted hstart
      | cons b before => exact ih (List.cons.inj hlog).2
  | @execution started' done log hstart hends hpaired ih =>
      cases before with
      | nil =>
          obtain ⟨rfl, rfl⟩ := List.cons.inj hlog
          refine ⟨done, log, rfl, hends, ?_⟩
          intro next hnext hnextEnds
          cases hpaired with
          | nil => cases hnext
          | plain _ hfinish hfail _ =>
              obtain rfl := Option.some.inj hnext
              rcases hnextEnds.1 with h | h
              · exact hfinish h
              · exact hfail h
          | execution hnextStart _ _ =>
              obtain rfl := Option.some.inj hnext
              exact hnextEnds.not_start hnextStart
      | cons b before =>
          have htail := (List.cons.inj hlog).2
          cases before with
          | nil =>
              obtain ⟨rfl, -⟩ := List.cons.inj htail
              exact absurd hstarted hends.not_start
          | cons c before => exact ih (List.cons.inj htail).2

/-! ## One step -/

theorem requiredIds_append (log more : List AuditEvent) :
    requiredIds (log ++ more) = requiredIds log ++ requiredIds more := by
  rw [requiredIds, List.filter_append, List.map_append]
  rfl

theorem requiredIds_eq_nil {log : List AuditEvent}
    (h : ∀ e ∈ log, e.event ≠ .approvalRequired) : requiredIds log = [] := by
  rw [requiredIds, List.filter_eq_nil_iff.mpr]
  · rfl
  · intro e he
    simpa using h e he

/-- Where no id occurs twice, other slots have other ids. -/
theorem requestId_ne_of_slot_ne {slot i : ℕ} {e p : PendingRequest}
    (hstored : approvals.pending[slot]? = some e) (hi : approvals.pending[i]? = some p)
    (honce : (approvals.pending.map fun p => p.requestId.bytes).Nodup) (hslot : slot ≠ i) :
    e.requestId.bytes ≠ p.requestId.bytes := by
  intro heq
  have hlen : slot < (approvals.pending.map fun p => p.requestId.bytes).length := by
    rw [List.length_map]
    exact (List.getElem?_eq_some_iff.mp hstored).1
  apply hslot
  apply (List.getElem?_inj hlen honce).mp
  rw [List.getElem?_map, List.getElem?_map, hstored, hi]
  exact congrArg some heq

/-- What holds of a replaced entry and of all others holds of the store after the write. -/
theorem forall_write {slot : ℕ} {e e' : PendingRequest} {P : PendingRequest → Prop}
    (hstored : approvals.pending[slot]? = some e)
    (honce : (approvals.pending.map fun p => p.requestId.bytes).Nodup) (hnew : P e')
    (hold : ∀ p ∈ approvals.pending, e.requestId.bytes ≠ p.requestId.bytes → P p) :
    ∀ p ∈ (approvals.write ⟨slot, e'⟩).pending, P p := by
  intro p hp
  obtain ⟨i, hi⟩ := List.mem_iff_getElem?.mp hp
  by_cases hslot : slot = i
  · subst hslot
    rw [getElem?_write_self e' hstored] at hi
    exact Option.some.inj hi ▸ hnew
  · rw [getElem?_write_ne hslot] at hi
    exact hold p (List.mem_of_getElem? hi) (requestId_ne_of_slot_ne hstored hi honce hslot)

theorem ids_write {slot : ℕ} {e e' : PendingRequest}
    (hstored : approvals.pending[slot]? = some e) (hid : e'.requestId = e.requestId) :
    (approvals.write ⟨slot, e'⟩).pending.map (fun p => p.requestId.bytes) =
      approvals.pending.map fun p => p.requestId.bytes := by
  apply List.ext_getElem?
  intro i
  rw [List.getElem?_map, List.getElem?_map]
  by_cases hslot : slot = i
  · subst hslot
    rw [getElem?_write_self e' hstored, hstored, Option.map_some, Option.map_some, hid]
  · rw [getElem?_write_ne hslot]

namespace Replays

variable {log events : List AuditEvent}

/-- Events about no request leave the store as it is. -/
theorem keep (h : Replays log approvals) (hstatus : ∀ e ∈ events, e.event.status = none)
    (hpaired : Paired events) : Replays (log ++ events) approvals := by
  have hrules : ∀ e ∈ events, e.event.rules ≠ true := by
    intro e he hrule
    have hsome := rules_status hrule
    rw [hstatus e he] at hsome
    cases hsome
  have hrequired : requiredIds events = [] := by
    apply requiredIds_eq_nil
    intro e he hkind
    have hnone := hstatus e he
    rw [hkind] at hnone
    cases hnone
  have hids : requiredIds (log ++ events) = requiredIds log := by
    rw [requiredIds_append, hrequired, List.append_nil]
  constructor
  · rw [hids]
    exact h.ids
  · rw [hids]
    exact h.once
  · intro p hp
    rw [statusIn_append_of_none, h.status p hp]
    intro e he hsome
    rw [hstatus e he] at hsome
    cases hsome
  · intro p hp
    rw [approverIn_append_of_none, h.approver p hp]
    intro e he hrule
    exact absurd hrule (hrules e he)
  · intro e he hrule
    rw [hids]
    rcases List.mem_append.mp he with he | he
    · exact h.known e he hrule
    · exact absurd hrule (hrules e he)
  · exact h.executions.append hpaired

/-- Events about one stored request rewrite its entry. -/
theorem update (h : Replays log approvals) {slot : ℕ} {e e' : PendingRequest}
    (hstored : approvals.pending[slot]? = some e) (hid : e'.requestId = e.requestId)
    (hrequired : ∀ x ∈ events, x.event ≠ .approvalRequired)
    (habout : ∀ x ∈ events, x.requestId = e.requestId.bytes)
    (hstatus : statusIn (log ++ events) e.requestId.bytes = some e'.status)
    (happrover : approverIn (log ++ events) e.requestId.bytes = e'.approver)
    (hpaired : Paired events) : Replays (log ++ events) (approvals.write ⟨slot, e'⟩) := by
  have hids : requiredIds (log ++ events) = requiredIds log := by
    rw [requiredIds_append, requiredIds_eq_nil hrequired, List.append_nil]
  have honce := h.once
  rw [h.ids] at honce
  constructor
  · rw [hids, ids_write hstored hid]
    exact h.ids
  · rw [hids]
    exact h.once
  · refine forall_write hstored honce ?_ ?_
    · rw [hid]
      exact hstatus
    · intro p hp hne
      rw [statusIn_append_of_none, h.status p hp]
      intro x hx _ heq
      exact hne ((habout x hx).symm.trans heq)
  · refine forall_write hstored honce ?_ ?_
    · rw [hid]
      exact happrover
    · intro p hp hne
      rw [approverIn_append_of_none, h.approver p hp]
      intro x hx _ heq
      exact hne ((habout x hx).symm.trans heq)
  · intro x hx hrule
    rw [hids]
    rcases List.mem_append.mp hx with hx | hx
    · exact h.known x hx hrule
    · rw [habout x hx, h.ids]
      exact List.mem_map_of_mem (List.mem_of_getElem? hstored)
  · exact h.executions.append hpaired

/-- A ruling on a stored request rewrites its entry. -/
theorem ruling (h : Replays log approvals) {slot : ℕ} {e e' : PendingRequest}
    {event : AuditEvent} (hstored : approvals.pending[slot]? = some e)
    (hid : e'.requestId = e.requestId) (habout : event.requestId = e.requestId.bytes)
    (hrules : event.event.rules = true) (hstatus : event.event.status = some e'.status)
    (happrover : event.approver = some e'.approver) :
    Replays (log ++ [event]) (approvals.write ⟨slot, e'⟩) := by
  have hnot : ∀ kind : AuditEventKind, kind.rules = false → event.event ≠ kind := by
    intro kind hkind heq
    rw [heq, hkind] at hrules
    cases hrules
  refine h.update hstored hid ?_ ?_ ?_ ?_ ?_
  · simpa using hnot _ rfl
  · simpa using habout
  · rw [← habout]
    apply statusIn_append_of_last
    · simp [lastEvent, hstatus]
    · exact hstatus
  · rw [approverIn, lastEvent_append]
    simp [lastEvent, hrules, habout, happrover]
  · exact .plain (hnot _ rfl) (hnot _ rfl) (hnot _ rfl) .nil

/-- A request that is put on record under a fresh id. -/
theorem push (h : Replays log approvals) {received required : AuditEvent}
    {pending : PendingRequest} (hreceived : received.event = .requestReceived)
    (hrequired : required.event = .approvalRequired)
    (hid : required.requestId = pending.requestId.bytes) (hstatus : pending.status = .pending)
    (happrover : pending.approver = ⟨0, 0, 0⟩)
    (hfresh : ∀ p ∈ approvals.pending, pending.requestId.bytes ≠ p.requestId.bytes) :
    Replays (log ++ [received, required]) (approvals.push pending) := by
  have hids : requiredIds (log ++ [received, required]) =
      requiredIds log ++ [pending.requestId.bytes] := by
    rw [requiredIds_append]
    simp [requiredIds, hreceived, hrequired, hid]
  have hnew : pending.requestId.bytes ∉ requiredIds log := by
    rw [h.ids, List.mem_map]
    rintro ⟨p, hp, heq⟩
    exact hfresh p hp heq.symm
  have habout : ∀ x ∈ [received, required], x.event.status.isSome = true →
      x.requestId = pending.requestId.bytes := by
    intro x hx hsome
    simp only [List.mem_cons, List.not_mem_nil, or_false] at hx
    rcases hx with rfl | rfl
    · rw [hreceived] at hsome
      cases hsome
    · exact hid
  have hquiet : ∀ x ∈ [received, required], x.event.rules ≠ true := by
    simp [hreceived, hrequired, AuditEventKind.rules]
  constructor
  · rw [hids, h.ids, ApprovalStore.push, List.map_append, List.map_singleton]
  · rw [hids, List.nodup_append]
    refine ⟨h.once, by simp, ?_⟩
    intro id hmem id' hmem' heq
    rw [List.mem_singleton] at hmem'
    exact hnew (hmem' ▸ heq ▸ hmem)
  · intro p hp
    rcases List.mem_append.mp hp with hp | hp
    · rw [statusIn_append_of_none, h.status p hp]
      intro x hx hsome heq
      exact hfresh p hp ((habout x hx hsome).symm.trans heq)
    · obtain rfl := List.mem_singleton.mp hp
      rw [statusIn, lastEvent_append]
      simp [lastEvent, hreceived, hrequired, hid, hstatus, AuditEventKind.status]
  · intro p hp
    rw [approverIn_append_of_none fun x hx hrule => absurd hrule (hquiet x hx)]
    rcases List.mem_append.mp hp with hp | hp
    · exact h.approver p hp
    · obtain rfl := List.mem_singleton.mp hp
      rw [approverIn, lastEvent_eq_none, happrover]
      · rfl
      · intro x hx hrule heq
        exact hnew (heq ▸ h.known x hx hrule)
  · intro x hx hrule
    rw [hids]
    rcases List.mem_append.mp hx with hx | hx
    · exact List.mem_append_left _ (h.known x hx hrule)
    · exact absurd hrule (hquiet x hx)
  · refine h.executions.append (.plain ?_ ?_ ?_ (.plain ?_ ?_ ?_ .nil))
    · simp [hreceived]
    · simp [hreceived]
    · simp [hreceived]
    · simp [hrequired]
    · simp [hrequired]
    · simp [hrequired]

end Replays

/-- Every move of store and log keeps the log a record of the store. -/
theorem LogMove.replays {events : List AuditEvent} {approvals' : ApprovalStore}
    (hmove : LogMove approvals events approvals') {log : List AuditEvent}
    (h : Replays log approvals)
    (honce : (approvals'.pending.map fun p => p.requestId.bytes).Nodup) :
    Replays (log ++ events) approvals' := by
  cases hmove with
  | quiet hquiet =>
      refine h.keep ?_ ?_
      · intro e he
        rcases hquiet e he with hkind | hkind
        · rw [hkind]
          rfl
        · rw [hkind]
          rfl
      · clear h honce
        induction events with
        | nil => exact .nil
        | cons e events ih =>
            obtain ⟨he, hevents⟩ := List.forall_mem_cons.mp hquiet
            refine .plain ?_ ?_ ?_ (ih hevents)
            all_goals
              rcases he with hkind | hkind
              · rw [hkind]
                decide
              · rw [hkind]
                decide
  | stored hreceived hrequired hid hstatus happrover =>
      refine h.push hreceived hrequired hid hstatus happrover ?_
      intro p hp heq
      rw [ApprovalStore.push, List.map_append, List.nodup_append] at honce
      exact honce.2.2 _ (List.mem_map_of_mem hp) _ (List.mem_singleton_self _) heq.symm
  | granted hstored hevent hid happrover =>
      exact h.ruling hstored rfl hid (by rw [hevent]; rfl) (by rw [hevent]; rfl) happrover
  | rejected hstored hevent hid happrover =>
      exact h.ruling hstored rfl hid (by rw [hevent]; rfl) (by rw [hevent]; rfl) happrover
  | failed hstarted hdone hid =>
      refine h.keep ?_ ?_
      · simp [hstarted, hdone, AuditEventKind.status]
      · exact .execution hstarted ⟨.inr hdone, hid⟩ .nil
  | @finished started done ref hstored hstarted hdone hid hid' =>
      have hdoneId := hid.trans hid'
      refine h.update hstored rfl ?_ ?_ ?_ ?_ ?_
      · simp [hstarted, hdone]
      · simp [hid, hid']
      · rw [← hdoneId]
        apply statusIn_append_of_last
        · simp [lastEvent, hstarted, hdone, AuditEventKind.status]
        · rw [hdone]
          rfl
      · rw [approverIn_append_of_none]
        · exact h.approver _ (List.mem_of_getElem? hstored)
        · simp [hstarted, hdone, AuditEventKind.rules]
      · exact .execution hstarted ⟨.inl hdone, hid⟩ .nil

/-! ## Over a run -/

/-- The ids of a reachable store are distinct. -/
theorem ids_nodup_run (config : Config) (is : List Input) :
    (((daemon config).run is).approvals.pending.map fun p => p.requestId.bytes).Nodup := by
  apply List.pairwise_iff_getElem.mpr
  intro i j hi hj hij heq
  rw [List.length_map] at hi hj
  rw [List.getElem_map, List.getElem_map] at heq
  have hsame := requestId_injective (bound_run config is i _ (List.getElem?_eq_getElem hi))
    (bound_run config is j _ (List.getElem?_eq_getElem hj)) heq
  omega

theorem daemon_run_snoc_auditLog (config : Config) (is : List Input) (input : Input) :
    ((daemon config).run (is ++ [input])).auditLog = ((daemon config).run is).auditLog ++
      auditWrites (handleRequest config ((daemon config).run is).approvals input).effects := by
  rw [Transition.Machine.run_append_singleton, ← daemon_step_effects]
  rfl

/-- As long as every audit write succeeds, the log replays to the store after every
step, and each start of an execution is followed at once by its one end. -/
theorem replays_run (config : Config) (is : List Input)
    (hwritten : ∀ w ∈ ((daemon config).run is).auditLog, w.ok = true) :
    Replays (((daemon config).run is).auditLog.map AuditWrite.event)
        ((daemon config).run is).approvals ∧
      ∀ before started after,
        ((daemon config).run is).auditLog.map AuditWrite.event = before ++ started :: after →
        started.event = .executionStarted →
        ∃ done rest, after = done :: rest ∧ Ends started done ∧
          ∀ next ∈ rest.head?, ¬ Ends started next := by
  have hreplays : Replays (((daemon config).run is).auditLog.map AuditWrite.event)
      ((daemon config).run is).approvals := by
    induction is using List.reverseRecOn with
    | nil => exact ⟨rfl, List.nodup_nil, by simp [daemon, anythingApprovalStoreInit,
        Transition.Machine.run], by simp [daemon, anythingApprovalStoreInit,
        Transition.Machine.run], by simp [daemon, Transition.Machine.run], .nil⟩
    | append_singleton is input ih =>
        rw [daemon_run_snoc_auditLog] at hwritten ⊢
        rw [List.forall_mem_append] at hwritten
        have hmove := logMove config ((daemon config).run is).approvals input hwritten.2
        have honce := ids_nodup_run config (is ++ [input])
        rw [Transition.Machine.run_append_singleton, daemon_step_approvals] at honce ⊢
        rw [List.map_append]
        exact hmove.replays (ih hwritten.1) honce
  exact ⟨hreplays, fun before started after hlog hstarted =>
    hreplays.executions.ended hlog hstarted⟩

/-- The record of a request that is approved and executed. -/
theorem replays_sample :
    statusIn (((daemon Sample.config).run [Sample.ask Sample.written,
        Sample.ruling Sample.operator "approval.approve" Sample.written,
        Sample.ruling Sample.operator "approval.execute" Sample.written]).auditLog.map
          AuditWrite.event) (ascii "req_1") = some .executed := by
  let is := [Sample.ask Sample.written,
    Sample.ruling Sample.operator "approval.approve" Sample.written,
    Sample.ruling Sample.operator "approval.execute" Sample.written]
  have hwritten : ∀ w ∈ ((daemon Sample.config).run is).auditLog, w.ok = true := by
    decide +kernel
  obtain ⟨p, hp, hid, hstatus⟩ : ∃ p ∈ ((daemon Sample.config).run is).approvals.pending,
      p.requestId.bytes = ascii "req_1" ∧ p.status = .executed := by decide +kernel
  have hreplays := (replays_run Sample.config is hwritten).1.status p hp
  rw [hid, hstatus] at hreplays
  exact hreplays

end AnythingTool
