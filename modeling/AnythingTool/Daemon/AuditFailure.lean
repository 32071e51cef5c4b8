import AnythingTool.Daemon.Refusals

/-!
# Requests whose audit write fails

A handler that cannot write an audit event answers `audit_failed`. Three handlers change the
store before they write the event about the change, and leave the change in force:
`Unrecorded` says when, and `keepsStore_iff` that a failed write leaves the store alone in
all other cases but the one after the tool has run.
-/

namespace AnythingTool

open CText

variable {config : Config} {approvals : ApprovalStore} {input : Input} {request : RpcRequest}

/-- This audit write failed, and the answer says so. -/
structure FailedWrite (effects : List Effect) (w : AuditWrite) : Prop where
  written : w ∈ auditWrites effects
  failed : w.ok = false
  answered : Reports effects (ascii "audit_failed") (ascii "audit write failed")

/-- A failed audit write leaves the store as it was, unless it is the one after the tool has
run. -/
def KeepsStore (before after : ApprovalStore) (effects : List Effect) : Prop :=
  ∀ w, FailedWrite effects w → w.event.event = .executionFinished ∨ after = before

/-- A request that changes the store, with an audit write about the change that fails. -/
inductive Unrecorded (config : Config) (approvals : ApprovalStore) (input : Input) : Prop
  | stored {request : RpcRequest} (h : Admits config approvals input request)
      (hfailed : (auditWrite (input.env.audit 1)
        (approvalRequiredEvent (admitted config approvals input request) input.peer)).ok = false)
  | granted {ref : PendingRef} (h : Addresses config approvals input (ascii "approval.approve") ref)
      (hstatus : ref.request.status = .pending) (hnow : input.env.now ≤ ref.request.expiresAt)
      (hother : ref.request.requester ≠ input.peer)
      (hfailed : (auditWrite (input.env.audit 0)
        (approvalGrantedEvent (ref.request.grantedBy input.peer) input.peer)).ok = false)
  | rejected {ref : PendingRef} (h : Addresses config approvals input (ascii "approval.reject") ref)
      (hother : ref.request.requester ≠ input.peer)
      (hchanged : ref.request.rejectedBy input.peer ≠ ref.request)
      (hfailed : (auditWrite (input.env.audit 0)
        (approvalRejectedEvent (ref.request.rejectedBy input.peer) input.peer)).ok = false)

/-! ## One audit write -/

theorem audit_ne_reply (w : AuditWrite) : ∀ r, Effect.audit w ≠ .reply r := nofun

theorem KeepsStore.same (approvals : ApprovalStore) (effects : List Effect) :
    KeepsStore approvals approvals effects :=
  fun _ _ => .inr rfl

/-- An effect that is neither an audit write nor an answer. -/
theorem KeepsStore.emit {effect : Effect} {handled : Handled}
    (haudit : ∀ w, effect ≠ .audit w) (hquiet : ∀ r, effect ≠ .reply r)
    (h : KeepsStore approvals handled.approvals handled.effects) :
    KeepsStore approvals (emit effect handled).approvals (emit effect handled).effects := by
  intro w hw
  have hmem : .audit w ∈ effect :: handled.effects := mem_auditWrites.mp hw.written
  rcases List.mem_cons.mp hmem with heq | hmem
  · exact absurd heq.symm (haudit w)
  · exact h w ⟨mem_auditWrites.mpr hmem, hw.failed, (reports_emit hquiet).mp hw.answered⟩

/-- A checked audit write that leaves the store alone when it fails. -/
theorem KeepsStore.checked {outcome : AuditOutcome} {event : AuditEvent} {rpcId : Bytes}
    {next : Handled} (h : (auditWrite outcome event).ok = true →
      KeepsStore approvals next.approvals next.effects) :
    KeepsStore approvals (checkedAudit outcome event rpcId approvals next).approvals
      (checkedAudit outcome event rpcId approvals next).effects := by
  cases hok : (auditWrite outcome event).ok with
  | false =>
      obtain ⟨r, hr⟩ := checkedAudit_of_failed approvals rpcId next hok
      rw [hr]
      exact .same approvals _
  | true =>
      rw [checkedAudit_of_ok hok]
      intro w hw
      have hmem : .audit w ∈ .audit (auditWrite outcome event) :: next.effects :=
        mem_auditWrites.mp hw.written
      rcases List.mem_cons.mp hmem with heq | hmem
      · obtain rfl := Effect.audit.inj heq
        have hfailed := hw.failed
        rw [hok] at hfailed
        cases hfailed
      · exact h hok w ⟨mem_auditWrites.mpr hmem, hw.failed,
          (reports_emit (audit_ne_reply _)).mp hw.answered⟩

/-- The audit write about a change of the store that was made. -/
theorem KeepsStore.record {outcome : AuditOutcome} {event : AuditEvent} {rpcId : Bytes}
    {store : ApprovalStore} {response : Option (CString 4096)}
    (h : (auditWrite outcome event).ok = true ∨ event.event = .executionFinished ∨
      store = approvals) :
    KeepsStore approvals
      (checkedAudit outcome event rpcId store ⟨store, [.reply response]⟩).approvals
      (checkedAudit outcome event rpcId store ⟨store, [.reply response]⟩).effects := by
  obtain ⟨r, hr⟩ := checkedAudit_reply store outcome event rpcId response
  rw [hr]
  intro w hw
  have hwrite : w = auditWrite outcome event := by
    have hmem : Effect.audit w ∈ [.audit (auditWrite outcome event), .reply r] :=
      mem_auditWrites.mp hw.written
    simpa using hmem
  rcases h with hok | hfinished | hsame
  · have hfailed := hw.failed
    rw [hwrite, hok] at hfailed
    cases hfailed
  · rw [hwrite]
    exact .inl hfinished
  · exact .inr hsame

/-- A write that fails is answered. -/
theorem FailedWrite.of_checked {outcome : AuditOutcome} {event : AuditEvent} {next : Handled}
    {store : ApprovalStore} (hid : ShortText request.id.bytes)
    (hfailed : (auditWrite outcome event).ok = false) :
    FailedWrite (checkedAudit outcome event request.id.bytes store next).effects
        (auditWrite outcome event) ∧
      (checkedAudit outcome event request.id.bytes store next).approvals = store := by
  have hfixed : FixedError (-32050) (ascii "audit_failed") (ascii "audit write failed") :=
    ⟨by decide, by decide, by decide⟩
  rw [checkedAudit, if_neg (by rw [hfailed]; exact Bool.false_ne_true)]
  refine ⟨⟨mem_auditWrites.mpr List.mem_cons_self, hfailed, ?_⟩, rfl⟩
  exact (reports_emit (audit_ne_reply _)).mpr (reports_plainError hid hfixed)

theorem FailedWrite.emit {effect : Effect} {handled : Handled} {w : AuditWrite}
    (h : FailedWrite handled.effects w) (hquiet : ∀ r, effect ≠ .reply r) :
    FailedWrite (emit effect handled).effects w :=
  ⟨mem_auditWrites.mpr (List.mem_cons_of_mem _ (mem_auditWrites.mp h.written)), h.failed,
    (reports_emit hquiet).mpr h.answered⟩

/-! ## The requests -/

/-- A write through a pointer changes nothing exactly when it writes what is there. -/
theorem write_eq_self_iff {slot : ℕ} {e e' : PendingRequest}
    (h : approvals.pending[slot]? = some e) :
    approvals.write ⟨slot, e'⟩ = approvals ↔ e' = e := by
  constructor
  · intro heq
    have hafter := getElem?_write_self e' h
    rw [heq, h] at hafter
    exact (Option.some.inj hafter).symm
  · rintro rfl
    obtain ⟨hlt, rfl⟩ := List.getElem?_eq_some_iff.mp h
    rw [ApprovalStore.write, List.set_getElem_self]

theorem reportRun_keeps (approvals : ApprovalStore) (env : Env) (admin : Identity) (id : Bytes)
    (ref : PendingRef) (result : Except (CString 128) (CString 2048)) :
    KeepsStore approvals (reportRun approvals env admin id ref result).approvals
      (reportRun approvals env admin id ref result).effects := by
  cases result with
  | error sysError => exact .record (.inr (.inr rfl))
  | ok text => exact .record (.inr (.inl rfl))

/-- Every course but the three keeps the store. -/
theorem Course.keepsStore {handled : Handled}
    (h : Course config approvals input request handled)
    (hparse : anythingRpcParse input.body = .ok request)
    (hrecorded : ¬ Unrecorded config approvals input) :
    KeepsStore approvals handled.approvals handled.effects := by
  have hok : ∀ {w : AuditWrite}, ¬ w.ok = false → w.ok = true :=
    fun h => Bool.not_eq_false _ ▸ h
  cases h with
  | denied hplane hdenial =>
      exact .checked fun _ => .checked fun _ => .same approvals _
  | full hplane hallowed hfull => exact .checked fun _ => .same approvals _
  | stored hplane hallowed hroom hfields =>
      refine .checked fun hreceived => .emit nofun nofun (.record (.inl (hok ?_)))
      intro hfailed
      obtain ⟨hmethod, hcap⟩ := anythingPolicyPreflight_ne_deny.mp hallowed
      exact hrecorded (.stored ⟨hplane, hparse, hreceived, hmethod, hcap, hroom⟩ hfailed)
  | unauthorized hplane hadmin => exact .checked fun _ => .same approvals _
  | refused hplane hadmin hrefusal => exact .same approvals _
  | listed hplane hadmin hmethod hlist => exact .same approvals _
  | granted hmethod haddr hstatus hnow hother =>
      refine .emit nofun nofun (.record (.inl (hok ?_)))
      intro hfailed
      exact hrecorded (.granted haddr hstatus hnow hother hfailed)
  | @rejected ref hmethod haddr hother =>
      refine .emit nofun nofun (.record ?_)
      by_cases hsame : ref.request.rejectedBy input.peer = ref.request
      · -- a repeated rejection writes what is there
        exact .inr (.inr ((write_eq_self_iff haddr.stored).mpr hsame))
      · refine .inl (hok ?_)
        intro hfailed
        exact hrecorded (.rejected haddr hother hsame hfailed)
  | ran hmethod haddr hstatus hnow hpolicy =>
      exact .checked fun _ => .emit nofun nofun (reportRun_keeps _ _ _ _ _ _)

/-- A request that is granted, up to the audit write. -/
theorem handled_of_approve {ref : PendingRef}
    (h : Addresses config approvals input (ascii "approval.approve") ref)
    (hstatus : ref.request.status = .pending) (hnow : input.env.now ≤ ref.request.expiresAt)
    (hother : ref.request.requester ≠ input.peer) :
    ∃ request next, anythingRpcParse input.body = .ok request ∧
      handleRequest config approvals input = emit (.granted ref.slot input.peer)
        (checkedAudit (input.env.audit 0)
          (approvalGrantedEvent (ref.request.grantedBy input.peer) input.peer)
          request.id.bytes (approvals.write ⟨ref.slot, ref.request.grantedBy input.peer⟩)
          next) := by
  obtain ⟨request, requestId, hparse, hmethod, hid, hfind⟩ := h.names
  have hgrant : anythingApprovalGrant (some ref) input.peer input.env.now =
      .ok ⟨ref.slot, ref.request.grantedBy input.peer⟩ :=
    anythingApprovalGrant_eq_ok.mpr ⟨ref, rfl, hstatus, hnow, hother, rfl⟩
  have hroute : ascii "approval.approve" ≠ ascii "approval.list" ∧
      ascii "approval.approve" ≠ ascii "approval.execute" := by decide
  refine ⟨request, ⟨approvals.write ⟨ref.slot, ref.request.grantedBy input.peer⟩,
    [resultResponse request.id.bytes (ascii "\x7b\"approved\":true\x7d")]⟩, hparse, ?_⟩
  simp only [handleRequest, h.plane, handleAdminRequest, hparse, h.admin, Bool.not_true,
    Bool.false_eq_true, if_false, routeAdminRequest, hmethod, hroute, hid, hfind, if_true,
    handleAdminApprove, hgrant]

/-- A request that is rejected, up to the audit write. -/
theorem handled_of_reject {ref : PendingRef}
    (h : Addresses config approvals input (ascii "approval.reject") ref)
    (hother : ref.request.requester ≠ input.peer) :
    ∃ request next, anythingRpcParse input.body = .ok request ∧
      handleRequest config approvals input = emit (.rejected ref.slot input.peer)
        (checkedAudit (input.env.audit 0)
          (approvalRejectedEvent (ref.request.rejectedBy input.peer) input.peer)
          request.id.bytes (approvals.write ⟨ref.slot, ref.request.rejectedBy input.peer⟩)
          next) := by
  obtain ⟨request, requestId, hparse, hmethod, hid, hfind⟩ := h.names
  have hreject : anythingApprovalReject (some ref) input.peer =
      .ok ⟨ref.slot, ref.request.rejectedBy input.peer⟩ :=
    anythingApprovalReject_eq_ok.mpr ⟨ref, rfl, hother, rfl⟩
  have hroute : ascii "approval.reject" ≠ ascii "approval.list" ∧
      ascii "approval.reject" ≠ ascii "approval.execute" ∧
      ascii "approval.reject" ≠ ascii "approval.approve" := by decide
  refine ⟨request, ⟨approvals.write ⟨ref.slot, ref.request.rejectedBy input.peer⟩,
    [resultResponse request.id.bytes (ascii "\x7b\"rejected\":true\x7d")]⟩, hparse, ?_⟩
  simp only [handleRequest, h.plane, handleAdminRequest, hparse, h.admin, Bool.not_true,
    Bool.false_eq_true, if_false, routeAdminRequest, hmethod, hroute, hid, hfind, if_true,
    handleAdminReject, hreject]
  rfl

/-- The store after a request of the kinds that change it before they write the event. -/
theorem Unrecorded.loses (h : Unrecorded config approvals input) :
    ∃ w, FailedWrite (handleRequest config approvals input).effects w ∧
      w.event.event ≠ .executionFinished ∧
      (handleRequest config approvals input).approvals ≠ approvals := by
  have hkind : AuditEventKind.approvalRequired ≠ .executionFinished ∧
      AuditEventKind.approvalGranted ≠ .executionFinished ∧
      AuditEventKind.approvalRejected ≠ .executionFinished := by decide
  cases h with
  | stored hadmits hfailed =>
      have hid := (shortStrings_of_parse hadmits.parse).id
      rcases hadmits.reachesStore.handled approvals with ⟨hfull, -⟩ | ⟨-, _, _, _, -, hhandled⟩
      · exact absurd hadmits.room (not_lt.mpr hfull)
      · obtain ⟨hw, hstore⟩ := FailedWrite.of_checked hid hfailed
        have hadded : ∀ r, Effect.added approvals.count ≠ .reply r := nofun
        rw [hhandled]
        refine ⟨_, (hw.emit hadded).emit (audit_ne_reply _), hkind.1, ?_⟩
        intro heq
        have hcount := congrArg ApprovalStore.count (hstore.symm.trans heq)
        rw [count_push] at hcount
        omega
  | @granted ref haddr hstatus hnow hother hfailed =>
      obtain ⟨request, next, hparse, hhandled⟩ := handled_of_approve haddr hstatus hnow hother
      have hid := (shortStrings_of_parse hparse).id
      obtain ⟨hw, hstore⟩ := FailedWrite.of_checked hid hfailed
      rw [hhandled]
      refine ⟨_, hw.emit nofun, hkind.2.1, ?_⟩
      intro heq
      have hsame := (write_eq_self_iff haddr.stored).mp (hstore.symm.trans heq)
      have hgranted : ApprovalStatus.granted = ref.request.status :=
        congrArg PendingRequest.status hsame
      rw [hstatus] at hgranted
      cases hgranted
  | rejected haddr hother hchanged hfailed =>
      obtain ⟨request, next, hparse, hhandled⟩ := handled_of_reject haddr hother
      have hid := (shortStrings_of_parse hparse).id
      obtain ⟨hw, hstore⟩ := FailedWrite.of_checked hid hfailed
      rw [hhandled]
      refine ⟨_, hw.emit nofun, hkind.2.2, ?_⟩
      intro heq
      exact hchanged ((write_eq_self_iff haddr.stored).mp (hstore.symm.trans heq))

/-- A failed audit write leaves the store as it was exactly for the requests that do not
change it before the write. -/
theorem keepsStore_iff (config : Config) (is : List Input) (input : Input) :
    KeepsStore ((daemon config).run is).approvals
        ((daemon config).step ((daemon config).run is) input).1.approvals
        ((daemon config).step ((daemon config).run is) input).2 ↔
      ¬ Unrecorded config ((daemon config).run is).approvals input := by
  rw [daemon_step_effects, daemon_step_approvals]
  constructor
  · intro hkeeps hunrecorded
    obtain ⟨w, hw, hkind, hchanged⟩ := hunrecorded.loses
    rcases hkeeps w hw with hfinished | hsame
    · exact hkind hfinished
    · exact hchanged hsame
  · intro hrecorded
    cases hparse : anythingRpcParse input.body with
    | error e =>
        rw [handleRequest_invalid hparse]
        exact .same _ _
    | ok request => exact (course config _ hparse).keepsStore hparse hrecorded

/-- An admin grants a request, and the event about it cannot be written: the answer is
`audit_failed`, and the request is granted. -/
theorem not_keepsStore :
    ¬ ∀ config is input, KeepsStore ((daemon config).run is).approvals
      ((daemon config).step ((daemon config).run is) input).1.approvals
      ((daemon config).step ((daemon config).run is) input).2 := by
  intro h
  let past := [Sample.ask Sample.written]
  let input := Sample.ruling Sample.operator "approval.approve" Sample.notOpened
  have hkeeps := h Sample.config past input
  rw [daemon_step_effects, daemon_step_approvals] at hkeeps
  obtain ⟨ref, haddr, hstatus, hnow, hother, hfailed⟩ : ∃ ref,
      Addresses Sample.config ((daemon Sample.config).run past).approvals input
        (ascii "approval.approve") ref ∧
      ref.request.status = .pending ∧ input.env.now ≤ ref.request.expiresAt ∧
      ref.request.requester ≠ input.peer ∧ (auditWrite (input.env.audit 0)
        (approvalGrantedEvent (ref.request.grantedBy input.peer) input.peer)).ok = false :=
    exists_addresses rfl (by decide) (by decide +kernel) (by decide +kernel)
  have hunrecorded : Unrecorded Sample.config ((daemon Sample.config).run past).approvals input :=
    .granted haddr hstatus hnow hother hfailed
  obtain ⟨w, hw, hkind, hchanged⟩ := hunrecorded.loses
  rcases hkeeps w hw with hfinished | hsame
  · exact hkind hfinished
  · exact hchanged hsame

end AnythingTool
