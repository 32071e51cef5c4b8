import AnythingTool.Daemon.Moves

/-!
# What a stored request is bound to

`Bound` says that a stored request is, but for its status and approver, the one some
earlier tool request created in its slot: nothing was cut when its fields were
copied, and nothing has changed them since. Ids are handed out in order, so the id
of a slot is its number and `anything_approval_find` gets back what was stored under
it. A granted request therefore passes the hash comparison and the policy recheck
of `handle_admin_execute`.
-/

namespace AnythingTool

open CText

/-- The fields of a stored request, by the tool request that created it. -/
structure BoundTo (config : Config) (slot : ℕ) (input : Input) (request : RpcRequest)
    (e : PendingRequest) : Prop where
  plane : input.plane = .tool
  parse : anythingRpcParse input.body = .ok request
  requestId : e.requestId.bytes = ascii "req_" ++ formatNat (slot + 1)
  requester : e.requester = input.peer
  sessionId : e.sessionId = request.sessionId
  method : e.method = request.method
  params : e.params = request.params
  risk : e.risk = (anythingPolicyPreflight config request).risk
  summary : e.summary = (anythingPolicyPreflight config request).summary
  requestHash : e.requestHash =
    anythingRpcHashRequest e.method.bytes e.params.bytes e.sessionId.bytes
  expiresAt : e.expiresAt = input.env.now + config.approvalTtlSeconds
  allowed : (anythingPolicyPreflight config request).decision ≠ .deny

/-- The request in a slot is bound to the step that filled the slot. -/
def Bound (config : Config) (history : List DaemonRecord) (slot : ℕ) (e : PendingRequest) :
    Prop :=
  ∃ r ∈ history, .added slot ∈ r.output ∧
    ∃ request, BoundTo config slot r.input request e

/-- The size of the store and the next id. -/
structure Counted (approvals : ApprovalStore) : Prop where
  count : approvals.count ≤ approvalMaxPending
  nextId : approvals.nextId = approvals.count + 1

/-! ## Lossless copies -/

theorem formatNat_length {k : ℕ} (h : k ≤ 65) : (formatNat k).length ≤ 2 := by
  have hsmall : ∀ k < 66, (formatNat k).length ≤ 2 := by decide
  exact hsmall k (by omega)

/-- An id of a store that is not full fits its buffer. -/
theorem requestId_bytes {k : ℕ} (h : k ≤ 65) :
    (CString.snprintf 40 (ascii "req_" ++ formatNat k)).bytes = ascii "req_" ++ formatNat k := by
  apply CString.snprintf_bytes_of_fits (zero_notMem_requestId k)
  have hlen := formatNat_length h
  have hprefix : (ascii "req_").length = 4 := by decide
  rw [List.length_append, hprefix]
  omega

theorem boundTo_admitted {config : Config} {approvals : ApprovalStore} {input : Input}
    {request : RpcRequest} (h : Admits config approvals input request)
    (hcounted : Counted approvals) :
    BoundTo config approvals.count input request
      (admitted config approvals input request) := by
  have hroom := h.room
  have hmax : approvalMaxPending = 64 := rfl
  constructor
  · exact h.plane
  · exact h.parse
  · rw [admitted, newPending, hcounted.nextId]
    exact requestId_bytes (by omega)
  · rfl
  · simp only [admitted, newPending, CString.snprintf_self]
  · exact admitted_method
  · simp only [admitted, newPending, CString.snprintf_self]
  · simp only [admitted, newPending, CString.snprintf_self]
  · simp only [admitted, newPending, CString.snprintf_self]
  · simp only [admitted, newPending, CString.snprintf_self,
      anythingPolicyPreflight_requestHash]
    exact anythingRpcParse_requestHash h.parse
  · rfl
  · exact anythingPolicyPreflight_ne_deny.mpr ⟨h.method, h.capability⟩

/-! ## Over a run -/

theorem Bound.append {config : Config} {past : List DaemonRecord} {slot : ℕ}
    {e : PendingRequest} (h : Bound config past slot e) (r : DaemonRecord) :
    Bound config (past ++ [r]) slot e := by
  obtain ⟨r', hr', hrest⟩ := h
  exact ⟨r', List.mem_append_left _ hr', hrest⟩

/-- Status and approver are not bound. -/
theorem Bound.congr {config : Config} {past : List DaemonRecord} {slot : ℕ}
    {e : PendingRequest} (h : Bound config past slot e) (approver : Identity)
    (status : ApprovalStatus) :
    Bound config past slot { e with approver := approver, status := status } := by
  obtain ⟨r, hr, hadded, request, hto⟩ := h
  exact ⟨r, hr, hadded, request, hto.plane, hto.parse, hto.requestId, hto.requester,
    hto.sessionId, hto.method, hto.params, hto.risk, hto.summary, hto.requestHash,
    hto.expiresAt, hto.allowed⟩

theorem Counted.write {approvals : ApprovalStore} (h : Counted approvals) (ref : PendingRef) :
    Counted (approvals.write ref) := by
  refine ⟨?_, ?_⟩
  · rw [count_write]
    exact h.count
  · rw [count_write]
    exact h.nextId

theorem Counted.move {config : Config} {approvals : ApprovalStore} {input : Input}
    {handled : Handled} (h : HandlerMove config approvals input handled)
    (hcounted : Counted approvals) : Counted handled.approvals := by
  cases h with
  | quiet hquiet => exact hcounted
  | added hadmits =>
      refine ⟨?_, ?_⟩
      · rw [count_push]
        exact hadmits.room
      · rw [count_push, ApprovalStore.push, hcounted.nextId]
  | granted haddr hstatus hnow hother => exact hcounted.write _
  | rejected haddr hother => exact hcounted.write _
  | ran haddr hstatus hnow hpolicy hstarted =>
      unfold afterRun
      split
      · exact hcounted
      · exact hcounted.write _

theorem counted_run (config : Config) (is : List Input) :
    Counted ((daemon config).run is).approvals := by
  apply (daemon config).invariant (P := fun state => Counted state.approvals)
  · exact ⟨Nat.zero_le _, rfl⟩
  · intro state input hcounted
    exact Counted.move (daemon_move config state input) hcounted

theorem bound_step {config : Config} (past : List DaemonRecord) (r : DaemonRecord) (slot : ℕ)
    (o o' : Option PendingRequest) (hcounted : Counted r.before.approvals)
    (hpast : ∀ e, o = some e → Bound config past slot e)
    (hmove : SlotMove config r.before.approvals r.input r.output slot o o') :
    ∀ e, o' = some e → Bound config (past ++ [r]) slot e := by
  intro e heq
  cases hmove with
  | kept hrun hreject => exact (hpast e heq).append r
  | @created request hadmits hslot hrun hadded haudit =>
      obtain rfl := Option.some.inj heq
      subst hslot
      exact ⟨r, by simp, hadded, request, boundTo_admitted hadmits hcounted⟩
  | @granted e₀ haddr hstatus hnow hother hrun hgranted haudit =>
      obtain rfl := Option.some.inj heq
      exact ((hpast e₀ rfl).congr r.input.peer .granted).append r
  | @rejected e₀ haddr hother =>
      obtain rfl := Option.some.inj heq
      exact ((hpast e₀ rfl).congr r.input.peer .rejected).append r
  | @executed e₀ hstatus =>
      obtain rfl := Option.some.inj heq
      exact ((hpast e₀ rfl).congr e₀.approver .executed).append r

theorem bound_run (config : Config) (is : List Input) (slot : ℕ) :
    ∀ e, ((daemon config).run is).approvals.pending[slot]? = some e →
      Bound config ((daemon config).history is) slot e := by
  refine slotInvariant (A := fun state _ => Counted state.approvals)
    (P := fun past slot o => ∀ e, o = some e → Bound config past slot e) ?_ ?_ is ?_ slot
  · intro slot e heq
    cases heq
  · intro past r slot o o' hcounted _ hpast hmove
    exact bound_step past r slot o o' hcounted hpast hmove
  · intro r hr
    obtain ⟨past, input, rest, -, rfl⟩ := (daemon config).mem_history hr
    exact counted_run config past

/-! ## Lookup -/

theorem Bound.requestId {config : Config} {history : List DaemonRecord} {slot : ℕ}
    {e : PendingRequest} (h : Bound config history slot e) :
    e.requestId.bytes = ascii "req_" ++ formatNat (slot + 1) := by
  obtain ⟨r, -, -, request, hto⟩ := h
  exact hto.requestId

/-- Two slots never have the same id. -/
theorem requestId_injective {config : Config} {history : List DaemonRecord} {slot slot' : ℕ}
    {e e' : PendingRequest} (h : Bound config history slot e)
    (h' : Bound config history slot' e') (heq : e.requestId.bytes = e'.requestId.bytes) :
    slot = slot' := by
  rw [h.requestId, h'.requestId] at heq
  have hnum := formatNat_injective (List.append_cancel_left heq)
  omega

/-- What is found under an id is what was stored with it. -/
theorem anythingApprovalFind_stored {approvals : ApprovalStore} {slot : ℕ}
    {e : PendingRequest} (hstored : approvals.pending[slot]? = some e)
    (hunique : ∀ slot' e', approvals.pending[slot']? = some e' →
      e'.requestId.bytes = e.requestId.bytes → slot' = slot) :
    anythingApprovalFind approvals e.requestId.bytes = some ⟨slot, e⟩ := by
  cases hfind : anythingApprovalFind approvals e.requestId.bytes with
  | none =>
      exact absurd rfl (anythingApprovalFind_eq_none hfind e (List.mem_of_getElem? hstored))
  | some ref =>
      obtain ⟨hstored', hid⟩ := anythingApprovalFind_eq_some hfind
      obtain ⟨slot', e'⟩ := ref
      obtain rfl := hunique slot' e' hstored' hid
      rw [Option.some.inj (hstored.symm.trans hstored')]

/-! ## Execution of a granted request -/

/-- The request handed to the policy again is the one that was stored. -/
theorem pendingToRequest_requestHash {config : Config} {slot : ℕ} {input : Input}
    {request : RpcRequest} {e : PendingRequest} (h : BoundTo config slot input request e) :
    (pendingToRequest e).requestHash = e.requestHash := by
  simp only [pendingToRequest, CString.snprintf_self, h.requestHash]

theorem preflight_pendingToRequest {config : Config} {slot : ℕ} {input : Input}
    {request : RpcRequest} {e : PendingRequest} (h : BoundTo config slot input request e) :
    (anythingPolicyPreflight config (pendingToRequest e)).decision ≠ .deny := by
  rw [anythingPolicyPreflight_ne_deny]
  obtain ⟨hmethod, hcap⟩ := anythingPolicyPreflight_ne_deny.mp h.allowed
  refine ⟨?_, hcap⟩
  change (CString.snprintf 64 e.method.bytes).bytes = _
  rw [CString.snprintf_self, h.method, hmethod]

/-- An execution in time of a granted request, under the id of its own request. -/
theorem handled_of_execute {config : Config} {approvals : ApprovalStore} {input : Input}
    {ref : PendingRef} {history : List DaemonRecord}
    (haddr : Addresses config approvals input (ascii "approval.execute") ref)
    (hbound : Bound config history ref.slot ref.request)
    (hstatus : ref.request.status = .granted)
    (hnow : input.env.now ≤ ref.request.expiresAt) :
    ∃ request, anythingRpcParse input.body = .ok request ∧
      handleRequest config approvals input =
        executePending approvals input.env input.peer request.id.bytes ref := by
  obtain ⟨request, requestId, hparse, hmethod, hid, hfind⟩ := haddr.names
  obtain ⟨r, -, -, created, hto⟩ := hbound
  have hvalid : anythingApprovalValidateForExecute (some ref)
      (pendingToRequest ref.request).requestHash input.env.now = .ok ref :=
    anythingApprovalValidateForExecute_eq_ok.mpr
      ⟨rfl, hstatus, hnow, (pendingToRequest_requestHash hto).symm⟩
  have hrecheck : ¬ ((anythingPolicyPreflight config (pendingToRequest ref.request)).decision =
      .deny ∨ (anythingPolicyPreflight config (pendingToRequest ref.request)).requestHash ≠
        ref.request.requestHash) := by
    rw [anythingPolicyPreflight_requestHash, pendingToRequest_requestHash hto]
    simp [preflight_pendingToRequest hto]
  have hroute : ascii "approval.execute" ≠ ascii "approval.list" := by decide
  refine ⟨request, hparse, ?_⟩
  simp only [handleRequest, haddr.plane, handleAdminRequest, hparse, haddr.admin, Bool.not_true,
    Bool.false_eq_true, if_false, routeAdminRequest, hmethod, hroute, if_true,
    handleAdminExecute, hid, hfind, hvalid, hrecheck]

theorem handleRequest_execute {config : Config} {approvals : ApprovalStore} {input : Input}
    {ref : PendingRef} {history : List DaemonRecord}
    (haddr : Addresses config approvals input (ascii "approval.execute") ref)
    (hbound : Bound config history ref.slot ref.request)
    (hstatus : ref.request.status = .granted)
    (hnow : input.env.now ≤ ref.request.expiresAt) :
    ∃ id, handleRequest config approvals input =
      executePending approvals input.env input.peer id ref := by
  obtain ⟨request, -, hexecute⟩ := handled_of_execute haddr hbound hstatus hnow
  exact ⟨request.id.bytes, hexecute⟩

theorem executePending_ok {approvals : ApprovalStore} {env : Env} {admin : Identity}
    {id : Bytes} {ref : PendingRef} {text : CString 2048}
    (hstarted : (auditWrite (env.audit 0) (executionStartedEvent ref.request admin)).ok = true)
    (hos : anythingSysInfoJson env.os = .ok text)
    (hfinished : (auditWrite (env.audit 1) (executionFinishedEvent ref.request admin)).ok =
      true) :
    executePending approvals env admin id ref =
      ⟨approvals.write ⟨ref.slot, ref.request.executed⟩,
        [.audit (auditWrite (env.audit 0) (executionStartedEvent ref.request admin)),
          .sysInfo ref.slot (.ok text),
          .audit (auditWrite (env.audit 1) (executionFinishedEvent ref.request admin)),
          resultResponse id text.bytes]⟩ := by
  unfold executePending reportRun
  simp only [hos]
  rw [checkedAudit_of_ok hstarted, checkedAudit_of_ok hfinished]
  rfl

/-- The store is counted, its ids are distinct and find what was stored under them,
every request is bound to the step that created it, and an admin can execute every
granted request in time. -/
theorem store_binding (config : Config) (is : List Input) :
    let state := (daemon config).run is
    (state.approvals.count ≤ 64 ∧ state.approvals.nextId = state.approvals.count + 1) ∧
      (∀ slot e, state.approvals.pending[slot]? = some e →
        Bound config ((daemon config).history is) slot e ∧
        anythingApprovalFind state.approvals e.requestId.bytes = some ⟨slot, e⟩ ∧
        ∀ slot' e', state.approvals.pending[slot']? = some e' →
          e'.requestId.bytes = e.requestId.bytes → slot' = slot) ∧
      ∀ input ref, Addresses config state.approvals input (ascii "approval.execute") ref →
        ref.request.status = .granted → input.env.now ≤ ref.request.expiresAt →
        (∃ rest, (handleRequest config state.approvals input).effects =
          .audit (auditWrite (input.env.audit 0)
            (executionStartedEvent ref.request input.peer)) :: rest) ∧
        ∀ text, anythingSysInfoJson input.env.os = .ok text →
          (auditWrite (input.env.audit 0)
            (executionStartedEvent ref.request input.peer)).ok = true →
          (auditWrite (input.env.audit 1)
            (executionFinishedEvent ref.request input.peer)).ok = true →
          ∃ id, handleRequest config state.approvals input =
            ⟨state.approvals.write ⟨ref.slot, ref.request.executed⟩,
              [.audit (auditWrite (input.env.audit 0)
                (executionStartedEvent ref.request input.peer)),
                .sysInfo ref.slot (.ok text),
                .audit (auditWrite (input.env.audit 1)
                  (executionFinishedEvent ref.request input.peer)),
                resultResponse id text.bytes]⟩ := by
  intro state
  have hcounted := counted_run config is
  have hbound := bound_run config is
  refine ⟨⟨hcounted.count, hcounted.nextId⟩, ?_, ?_⟩
  · intro slot e hstored
    have hunique : ∀ slot' e', state.approvals.pending[slot']? = some e' →
        e'.requestId.bytes = e.requestId.bytes → slot' = slot := by
      intro slot' e' hstored' heq
      exact requestId_injective (hbound slot' e' hstored') (hbound slot e hstored) heq
    exact ⟨hbound slot e hstored, anythingApprovalFind_stored hstored hunique, hunique⟩
  · intro input ref haddr hstatus hnow
    obtain ⟨id, hexecute⟩ :=
      handleRequest_execute haddr (hbound ref.slot ref.request haddr.stored) hstatus hnow
    rw [hexecute]
    refine ⟨⟨_, rfl⟩, ?_⟩
    intro text hos hstarted hfinished
    exact ⟨id, executePending_ok hstarted hos hfinished⟩

theorem store_binding_sample :
    ∃ text, .sysInfo 0 (.ok text) ∈ (handleRequest Sample.config
      ((daemon Sample.config).run [Sample.ask Sample.written,
        Sample.ruling Sample.operator "approval.approve" Sample.written]).approvals
      (Sample.ruling Sample.operator "approval.execute" Sample.written)).effects := by
  let past := [Sample.ask Sample.written,
    Sample.ruling Sample.operator "approval.approve" Sample.written]
  let approvals := ((daemon Sample.config).run past).approvals
  let input := Sample.ruling Sample.operator "approval.execute" Sample.written
  obtain ⟨text, hos⟩ := exists_ok_of_isSome
    (by decide +kernel : (anythingSysInfoJson input.env.os).toOption.isSome = true)
  obtain ⟨ref, haddr, hslot, hstatus, hnow, hstarted, hfinished⟩ : ∃ ref,
      Addresses Sample.config approvals input (ascii "approval.execute") ref ∧
      ref.slot = 0 ∧ ref.request.status = .granted ∧ input.env.now ≤ ref.request.expiresAt ∧
      (auditWrite (input.env.audit 0) (executionStartedEvent ref.request input.peer)).ok = true ∧
      (auditWrite (input.env.audit 1) (executionFinishedEvent ref.request input.peer)).ok =
        true :=
    exists_addresses rfl (by decide) (by decide +kernel) (by decide +kernel)
  obtain ⟨-, -, hexecutes⟩ := store_binding Sample.config past
  obtain ⟨-, hruns⟩ := hexecutes input ref haddr hstatus hnow
  obtain ⟨id, heq⟩ := hruns text hos hstarted hfinished
  refine ⟨text, ?_⟩
  rw [heq, hslot]
  simp

end AnythingTool
