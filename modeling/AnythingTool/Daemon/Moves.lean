import AnythingTool.Daemon.Course

/-!
# What one request can do

`HandlerMove` lists everything a handler can do to the store, with all the checks
it made on the way: a request is stored, granted, rejected or run, and everything
else is quiet. `handlerMove` reads the list off the courses of a request.

`SlotMove` is the life of one slot: it is created once, and then granted, rejected
or executed, or kept as it is. `slotMove` says that every request moves every slot
along this life. Statements about runs of the daemon are proved from these two,
with one case for each move.
-/

namespace AnythingTool

open CText

variable {config : Config} {approvals : ApprovalStore} {input : Input}

/-- An effect that leaves the store alone and does not run the tool. -/
def Effect.Quiet : Effect → Prop
  | .audit _ => True
  | .reply _ => True
  | _ => False

/-- A tool request that is stored. -/
structure Admits (config : Config) (approvals : ApprovalStore) (input : Input)
    (request : RpcRequest) : Prop where
  plane : input.plane = .tool
  parse : anythingRpcParse input.body = .ok request
  received : (auditWrite (input.env.audit 0) (requestEvent .requestReceived request input.peer
    [] (ascii "received") [] (ascii "bounded request"))).ok = true
  method : request.method.bytes = ascii "sys.info"
  capability : config.capabilitySysRead = true
  room : approvals.count < approvalMaxPending

/-- The store after the tool has run for a request. -/
def afterRun (approvals : ApprovalStore) (ref : PendingRef)
    (result : Except (CString 128) (CString 2048)) : ApprovalStore :=
  match result with
  | .error _ => approvals
  | .ok _ => approvals.write ⟨ref.slot, ref.request.executed⟩

/-- The moves of the two handlers. -/
inductive HandlerMove (config : Config) (approvals : ApprovalStore) (input : Input) :
    Handled → Prop
  | quiet {effects : List Effect} (h : ∀ x ∈ effects, x.Quiet) :
      HandlerMove config approvals input ⟨approvals, effects⟩
  | added {request : RpcRequest} {received : AuditWrite} {r : Option (CString 4096)}
      (h : Admits config approvals input request) :
      HandlerMove config approvals input
        ⟨approvals.push (admitted config approvals input request),
          [.audit received, .added approvals.count,
            .audit (auditWrite (input.env.audit 1)
              (approvalRequiredEvent (admitted config approvals input request) input.peer)),
            .reply r]⟩
  | granted {ref : PendingRef} {r : Option (CString 4096)}
      (h : Addresses config approvals input (ascii "approval.approve") ref)
      (hstatus : ref.request.status = .pending)
      (hnow : input.env.now ≤ ref.request.expiresAt)
      (hother : ref.request.requester ≠ input.peer) :
      HandlerMove config approvals input
        ⟨approvals.write ⟨ref.slot, ref.request.grantedBy input.peer⟩,
          [.granted ref.slot input.peer,
            .audit (auditWrite (input.env.audit 0)
              (approvalGrantedEvent (ref.request.grantedBy input.peer) input.peer)),
            .reply r]⟩
  | rejected {ref : PendingRef} {w : AuditWrite} {r : Option (CString 4096)}
      (h : Addresses config approvals input (ascii "approval.reject") ref)
      (hother : ref.request.requester ≠ input.peer) :
      HandlerMove config approvals input
        ⟨approvals.write ⟨ref.slot, ref.request.rejectedBy input.peer⟩,
          [.rejected ref.slot input.peer, .audit w, .reply r]⟩
  | ran {ref : PendingRef} {w : AuditWrite} {r : Option (CString 4096)}
      (h : Addresses config approvals input (ascii "approval.execute") ref)
      (hstatus : ref.request.status = .granted)
      (hnow : input.env.now ≤ ref.request.expiresAt)
      (hpolicy : (anythingPolicyPreflight config (pendingToRequest ref.request)).decision ≠
        .deny)
      (hstarted : (auditWrite (input.env.audit 0)
        (executionStartedEvent ref.request input.peer)).ok = true) :
      HandlerMove config approvals input
        ⟨afterRun approvals ref (anythingSysInfoJson input.env.os),
          [.audit (auditWrite (input.env.audit 0)
              (executionStartedEvent ref.request input.peer)),
            .sysInfo ref.slot (anythingSysInfoJson input.env.os), .audit w, .reply r]⟩

/-! ## Audit writes in a handler -/

theorem mem_auditWrites {effects : List Effect} {w : AuditWrite} :
    w ∈ auditWrites effects ↔ .audit w ∈ effects := by
  rw [auditWrites, List.mem_filterMap]
  constructor
  · rintro ⟨x, hx, heq⟩
    cases x with
    | audit w' =>
        obtain rfl := Option.some.inj heq
        exact hx
    | _ => cases heq
  · intro h
    exact ⟨.audit w, h, rfl⟩

theorem checkedAudit_of_ok {outcome : AuditOutcome} {event : AuditEvent} {rpcId : Bytes}
    {next : Handled} (h : (auditWrite outcome event).ok = true) :
    checkedAudit outcome event rpcId approvals next =
      emit (.audit (auditWrite outcome event)) next := by
  rw [checkedAudit, if_pos h]

theorem checkedAudit_of_failed {outcome : AuditOutcome} {event : AuditEvent}
    (approvals : ApprovalStore) (rpcId : Bytes) (next : Handled)
    (h : (auditWrite outcome event).ok = false) :
    ∃ r, checkedAudit outcome event rpcId approvals next =
      ⟨approvals, [.audit (auditWrite outcome event), .reply r]⟩ := by
  rw [checkedAudit, if_neg (by rw [h]; decide)]
  exact ⟨_, rfl⟩

/-- An audit write with nothing but the answer behind it answers either way. -/
theorem checkedAudit_reply (approvals : ApprovalStore) (outcome : AuditOutcome)
    (event : AuditEvent) (rpcId : Bytes) (response : Option (CString 4096)) :
    ∃ r, checkedAudit outcome event rpcId approvals ⟨approvals, [.reply response]⟩ =
      ⟨approvals, [.audit (auditWrite outcome event), .reply r]⟩ := by
  cases h : (auditWrite outcome event).ok with
  | false => exact checkedAudit_of_failed approvals rpcId _ h
  | true => exact ⟨response, checkedAudit_of_ok h⟩

/-- A handler that only writes audit events and answers. -/
def Handled.Idle (handled : Handled) (approvals : ApprovalStore) : Prop :=
  handled.approvals = approvals ∧ ∀ x ∈ handled.effects, x.Quiet

namespace Handled.Idle

theorem reply (r : Option (CString 4096)) :
    Handled.Idle ⟨approvals, [.reply r]⟩ approvals := by
  refine ⟨rfl, ?_⟩
  intro x hx
  rw [List.mem_singleton.mp hx]
  trivial

theorem audit {handled : Handled} (h : handled.Idle approvals) (w : AuditWrite) :
    (emit (.audit w) handled).Idle approvals := by
  refine ⟨h.1, ?_⟩
  intro x hx
  rcases List.mem_cons.mp hx with rfl | hx
  · trivial
  · exact h.2 x hx

theorem checked {handled : Handled} (h : handled.Idle approvals) (outcome : AuditOutcome)
    (event : AuditEvent) (rpcId : Bytes) :
    (checkedAudit outcome event rpcId approvals handled).Idle approvals := by
  cases hok : (auditWrite outcome event).ok with
  | false =>
      obtain ⟨r, hr⟩ := checkedAudit_of_failed approvals rpcId handled hok
      rw [hr]
      exact audit (reply r) _
  | true =>
      rw [checkedAudit_of_ok hok]
      exact audit h _

theorem checkedReply (outcome : AuditOutcome) (event : AuditEvent) (rpcId : Bytes)
    (response : Option (CString 4096)) :
    (checkedAudit outcome event rpcId approvals ⟨approvals, [.reply response]⟩).Idle
      approvals :=
  (reply response).checked outcome event rpcId

theorem move {handled : Handled} (h : handled.Idle approvals) :
    HandlerMove config approvals input handled := by
  obtain ⟨store, effects⟩ := handled
  obtain ⟨rfl, hquiet⟩ := h
  exact .quiet hquiet

end Handled.Idle

/-! ## The courses as moves -/

theorem reportRun_eq (approvals : ApprovalStore) (env : Env) (admin : Identity) (id : Bytes)
    (ref : PendingRef) (result : Except (CString 128) (CString 2048)) :
    ∃ w r, reportRun approvals env admin id ref result =
      ⟨afterRun approvals ref result, [.audit w, .reply r]⟩ := by
  cases result with
  | error sysError =>
      obtain ⟨r, hr⟩ := checkedAudit_reply approvals (env.audit 1) _ id _
      exact ⟨_, r, hr⟩
  | ok text =>
      obtain ⟨r, hr⟩ := checkedAudit_reply
        (approvals.write ⟨ref.slot, ref.request.executed⟩) (env.audit 1) _ id _
      exact ⟨_, r, hr⟩

theorem Course.move {request : RpcRequest} (hparse : anythingRpcParse input.body = .ok request)
    {handled : Handled} (h : Course config approvals input request handled) :
    HandlerMove config approvals input handled := by
  cases h with
  | denied hplane hdenial =>
      exact (Handled.Idle.checked (.checkedReply _ _ _ _) _ _ _).move
  | full hplane hallowed hfull => exact (Handled.Idle.checkedReply _ _ _ _).move
  | stored hplane hallowed hroom hfields =>
      obtain ⟨hmethod, hcap⟩ := anythingPolicyPreflight_ne_deny.mp hallowed
      cases hreceived : (auditWrite (input.env.audit 0) (receivedEvent request
          input.peer)).ok with
      | false =>
          obtain ⟨r, hr⟩ := checkedAudit_of_failed approvals request.id.bytes _ hreceived
          rw [hr]
          exact ((Handled.Idle.reply r).audit _).move
      | true =>
          have hadmits : Admits config approvals input request :=
            ⟨hplane, hparse, hreceived, hmethod, hcap, hroom⟩
          obtain ⟨r, hr⟩ := checkedAudit_reply
            (approvals.push (admitted config approvals input request)) (input.env.audit 1)
            (approvalRequiredEvent (admitted config approvals input request) input.peer)
            request.id.bytes _
          rw [checkedAudit_of_ok hreceived, errorResponse, writeResponse, hr]
          exact .added hadmits
  | unauthorized hplane hadmin => exact (Handled.Idle.checkedReply _ _ _ _).move
  | refused hplane hadmin hrefusal => exact (Handled.Idle.reply _).move
  | listed hplane hadmin hmethod hlist => exact (Handled.Idle.reply _).move
  | @granted ref hmethod haddr hstatus hnow hother =>
      obtain ⟨r, hr⟩ := checkedAudit_reply
        (approvals.write ⟨ref.slot, ref.request.grantedBy input.peer⟩) (input.env.audit 0)
        (approvalGrantedEvent (ref.request.grantedBy input.peer) input.peer) request.id.bytes _
      rw [resultResponse, writeResponse, hr]
      exact .granted haddr hstatus hnow hother
  | @rejected ref hmethod haddr hother =>
      obtain ⟨r, hr⟩ := checkedAudit_reply
        (approvals.write ⟨ref.slot, ref.request.rejectedBy input.peer⟩) (input.env.audit 0)
        (approvalRejectedEvent (ref.request.rejectedBy input.peer) input.peer)
        request.id.bytes _
      rw [resultResponse, writeResponse, hr]
      exact .rejected haddr hother
  | @ran ref hmethod haddr hstatus hnow hpolicy =>
      cases hstarted : (auditWrite (input.env.audit 0)
          (executionStartedEvent ref.request input.peer)).ok with
      | false =>
          obtain ⟨r, hr⟩ := checkedAudit_of_failed approvals request.id.bytes
            (emit _ _) hstarted
          rw [hr]
          exact ((Handled.Idle.reply r).audit _).move
      | true =>
          obtain ⟨w, r, hr⟩ := reportRun_eq approvals input.env input.peer request.id.bytes
            ref (anythingSysInfoJson input.env.os)
          rw [checkedAudit_of_ok hstarted, hr]
          exact .ran haddr hstatus hnow hpolicy hstarted

/-- A body that does not parse is answered and nothing else. -/
theorem handleRequest_invalid {e : RpcParseError}
    (hparse : anythingRpcParse input.body = .error e) :
    handleRequest config approvals input =
      ⟨approvals, [sendInvalid (ascii "null") (ascii "invalid_request") e.message]⟩ := by
  unfold handleRequest
  cases hplane : input.plane with
  | tool => simp only [handleToolRequest, hparse]
  | admin => simp only [handleAdminRequest, hparse]

/-- Every request makes one of the moves. -/
theorem handlerMove (config : Config) (approvals : ApprovalStore) (input : Input) :
    HandlerMove config approvals input (handleRequest config approvals input) := by
  cases hparse : anythingRpcParse input.body with
  | error e =>
      rw [handleRequest_invalid hparse]
      exact (Handled.Idle.reply _).move
  | ok request => exact (course config approvals hparse).move hparse

/-- A tool request that comes to the store: it is on record and the policy allows it. -/
structure ReachesStore (config : Config) (input : Input) (request : RpcRequest) : Prop where
  plane : input.plane = .tool
  parse : anythingRpcParse input.body = .ok request
  received : (auditWrite (input.env.audit 0) (receivedEvent request input.peer)).ok = true
  allowed : (anythingPolicyPreflight config request).decision ≠ .deny

/-- It is stored when there is room, and refused otherwise. -/
theorem ReachesStore.handled {request : RpcRequest} (h : ReachesStore config input request)
    (approvals : ApprovalStore) :
    (approvalMaxPending ≤ approvals.count ∧ handleRequest config approvals input =
      emit (.audit (auditWrite (input.env.audit 0) (receivedEvent request input.peer)))
        ⟨approvals, [errorResponse request.id.bytes (-32000) (ascii "resource_limit")
          (ascii "approval store full") []]⟩) ∨
    (approvals.count < approvalMaxPending ∧ ∃ requestId risk summary,
      let pending := admitted config approvals input request
      AnswerFields pending requestId risk summary ∧ handleRequest config approvals input =
        emit (.audit (auditWrite (input.env.audit 0) (receivedEvent request input.peer)))
          (emit (.added approvals.count)
            (checkedAudit (input.env.audit 1) (approvalRequiredEvent pending input.peer)
              request.id.bytes (approvals.push pending)
              ⟨approvals.push pending, [errorResponse request.id.bytes (-32010)
                (ascii "approval_required") (ascii "approval required")
                (approvalRequiredData requestId risk summary pending.expiresAt).bytes]⟩))) := by
  have hcourse := course config approvals h.parse
  generalize handleRequest config approvals input = handled at hcourse
  have hplane := h.plane
  cases hcourse with
  | denied _ hdenial =>
      cases hdenial with
      | controlPlane hcontrol =>
          rw [(anythingPolicyPreflight_ne_deny.mp h.allowed).1] at hcontrol
          exact absurd hcontrol (by decide)
      | policy _ hdeny => exact absurd hdeny h.allowed
  | full _ _ hfull => exact .inl ⟨hfull, checkedAudit_of_ok h.received⟩
  | stored _ _ hroom hfields =>
      exact .inr ⟨hroom, _, _, _, hfields, checkedAudit_of_ok h.received⟩
  | unauthorized hadmin => exact absurd (hplane.symm.trans hadmin) (by decide)
  | refused hadmin => exact absurd (hplane.symm.trans hadmin) (by decide)
  | listed hadmin => exact absurd (hplane.symm.trans hadmin) (by decide)
  | granted _ haddr => exact absurd (hplane.symm.trans haddr.plane) (by decide)
  | rejected _ haddr => exact absurd (hplane.symm.trans haddr.plane) (by decide)
  | ran _ haddr => exact absurd (hplane.symm.trans haddr.plane) (by decide)

theorem Admits.reachesStore {request : RpcRequest} (h : Admits config approvals input request) :
    ReachesStore config input request :=
  ⟨h.plane, h.parse, h.received, anythingPolicyPreflight_ne_deny.mpr ⟨h.method, h.capability⟩⟩

/-- An admitted request is stored, whether or not its record can be written. -/
theorem Admits.handled {request : RpcRequest} (h : Admits config approvals input request) :
    (handleRequest config approvals input).approvals =
      approvals.push (admitted config approvals input request) := by
  rcases h.reachesStore.handled approvals with ⟨hfull, -⟩ | ⟨-, _, _, _, -, hhandled⟩
  · exact absurd h.room (not_lt.mpr hfull)
  · obtain ⟨r, hr⟩ := checkedAudit_reply
      (approvals.push (admitted config approvals input request)) (input.env.audit 1)
      (approvalRequiredEvent (admitted config approvals input request) input.peer)
      request.id.bytes _
    rw [hhandled, errorResponse, writeResponse, hr]
    rfl

/-! ## The life of a slot -/

/-- No successful run of the tool for this slot. -/
def NotRun (slot : ℕ) (effects : List Effect) : Prop :=
  ∀ text, .sysInfo slot (.ok text) ∉ effects

/-- No successful rejection of this slot. -/
def NotRejected (slot : ℕ) (effects : List Effect) : Prop :=
  ∀ approver, .rejected slot approver ∉ effects

/-- What one request does to one slot. -/
inductive SlotMove (config : Config) (approvals : ApprovalStore) (input : Input)
    (effects : List Effect) (slot : ℕ) :
    Option PendingRequest → Option PendingRequest → Prop
  | kept {e : Option PendingRequest} (hrun : NotRun slot effects)
      (hreject : NotRejected slot effects) :
      SlotMove config approvals input effects slot e e
  | created {request : RpcRequest} (h : Admits config approvals input request)
      (hslot : slot = approvals.count) (hrun : NotRun slot effects)
      (hadded : .added slot ∈ effects)
      (haudit : .audit (auditWrite (input.env.audit 1) (approvalRequiredEvent
        (admitted config approvals input request) input.peer)) ∈ effects) :
      SlotMove config approvals input effects slot none
        (some (admitted config approvals input request))
  | granted {e : PendingRequest}
      (h : Addresses config approvals input (ascii "approval.approve") ⟨slot, e⟩)
      (hstatus : e.status = .pending) (hnow : input.env.now ≤ e.expiresAt)
      (hother : e.requester ≠ input.peer) (hrun : NotRun slot effects)
      (hgranted : .granted slot input.peer ∈ effects)
      (haudit : .audit (auditWrite (input.env.audit 0)
        (approvalGrantedEvent (e.grantedBy input.peer) input.peer)) ∈ effects) :
      SlotMove config approvals input effects slot (some e) (some (e.grantedBy input.peer))
  | rejected {e : PendingRequest}
      (h : Addresses config approvals input (ascii "approval.reject") ⟨slot, e⟩)
      (hother : e.requester ≠ input.peer) :
      SlotMove config approvals input effects slot (some e) (some (e.rejectedBy input.peer))
  | executed {e : PendingRequest} (hstatus : e.status = .granted) :
      SlotMove config approvals input effects slot (some e) (some e.executed)

theorem Addresses.stored {method : Bytes} {ref : PendingRef}
    (h : Addresses config approvals input method ref) :
    approvals.pending[ref.slot]? = some ref.request := by
  obtain ⟨request, requestId, -, -, -, hfind⟩ := h.names
  exact (anythingApprovalFind_eq_some hfind).1

theorem getElem?_write_self {slot : ℕ} {e : PendingRequest} (e' : PendingRequest)
    (h : approvals.pending[slot]? = some e) :
    (approvals.write ⟨slot, e'⟩).pending[slot]? = some e' := by
  rw [ApprovalStore.write, List.getElem?_set_self]
  exact (List.getElem?_eq_some_iff.mp h).1

theorem getElem?_write_ne {slot slot' : ℕ} {e' : PendingRequest} (h : slot' ≠ slot) :
    (approvals.write ⟨slot', e'⟩).pending[slot]? = approvals.pending[slot]? :=
  List.getElem?_set_ne h

@[simp] theorem count_write (ref : PendingRef) :
    (approvals.write ref).count = approvals.count :=
  List.length_set

@[simp] theorem count_push (pending : PendingRequest) :
    (approvals.push pending).count = approvals.count + 1 :=
  List.length_append

theorem getElem?_push_count (pending : PendingRequest) :
    (approvals.push pending).pending[approvals.count]? = some pending :=
  List.getElem?_concat_length

theorem getElem?_push_ne {pending : PendingRequest} {slot : ℕ} (h : slot ≠ approvals.count) :
    (approvals.push pending).pending[slot]? = approvals.pending[slot]? := by
  rw [ApprovalStore.push, List.getElem?_append]
  by_cases hlt : slot < approvals.pending.length
  · rw [if_pos hlt]
  · have hgt : approvals.pending.length < slot := lt_of_le_of_ne (not_lt.mp hlt) (Ne.symm h)
    rw [if_neg hlt, List.getElem?_eq_none hgt.le, List.getElem?_eq_none]
    rw [List.length_singleton]
    omega

/-- Every request moves every slot along its life. -/
theorem slotMove {handled : Handled} (h : HandlerMove config approvals input handled)
    (slot : ℕ) :
    SlotMove config approvals input handled.effects slot approvals.pending[slot]?
      handled.approvals.pending[slot]? := by
  cases h with
  | quiet hquiet =>
      refine .kept ?_ ?_
      · intro text hmem
        exact hquiet _ hmem
      · intro approver hmem
        exact hquiet _ hmem
  | @added request received r hadmits =>
      by_cases hslot : slot = approvals.count
      · have hnone : approvals.pending[slot]? = none :=
          List.getElem?_eq_none (by rw [hslot, ApprovalStore.count])
        rw [hnone, hslot, getElem?_push_count]
        exact .created hadmits rfl (by simp [NotRun]) (by simp) (by simp)
      · rw [getElem?_push_ne hslot]
        exact .kept (by simp [NotRun]) (by simp [NotRejected])
  | @granted ref r haddr hstatus hnow hother =>
      by_cases hslot : ref.slot = slot
      · subst hslot
        rw [getElem?_write_self _ haddr.stored, haddr.stored]
        exact .granted haddr hstatus hnow hother (by simp [NotRun]) (by simp) (by simp)
      · rw [getElem?_write_ne hslot]
        exact .kept (by simp [NotRun]) (by simp [NotRejected])
  | @rejected ref w r haddr hother =>
      by_cases hslot : ref.slot = slot
      · subst hslot
        rw [getElem?_write_self _ haddr.stored, haddr.stored]
        exact .rejected haddr hother
      · rw [getElem?_write_ne hslot]
        exact .kept (by simp [NotRun]) (by simp [NotRejected, Ne.symm hslot])
  | @ran ref w r haddr hstatus hnow hpolicy hstarted =>
      cases hresult : anythingSysInfoJson input.env.os with
      | error sysError => exact .kept (by simp [NotRun]) (by simp [NotRejected])
      | ok text =>
          by_cases hslot : ref.slot = slot
          · subst hslot
            rw [afterRun, getElem?_write_self _ haddr.stored, haddr.stored]
            exact .executed hstatus
          · rw [afterRun, getElem?_write_ne hslot]
            exact .kept (by simp [NotRun, Ne.symm hslot]) (by simp [NotRejected])

/-! ## Runs -/

/-- One step of a run of the daemon. -/
abbrev DaemonRecord := Transition.Record DaemonState Input (List Effect)

theorem daemon_move (config : Config) (state : DaemonState) (input : Input) :
    HandlerMove state.config state.approvals input
      ⟨((daemon config).step state input).1.approvals, ((daemon config).step state input).2⟩ :=
  handlerMove state.config state.approvals input

@[simp] theorem daemon_run_config (is : List Input) : ((daemon config).run is).config = config :=
  (daemon config).invariant (P := fun state => state.config = config) rfl (fun _ _ h => h) is

/-- A step of a run does what the handler does under the daemon's configuration. -/
theorem daemon_step_effects (config : Config) (is : List Input) (input : Input) :
    ((daemon config).step ((daemon config).run is) input).2 =
      (handleRequest config ((daemon config).run is).approvals input).effects := by
  change (handleRequest ((daemon config).run is).config _ _).effects = _
  rw [daemon_run_config]

theorem daemon_step_approvals (config : Config) (is : List Input) (input : Input) :
    ((daemon config).step ((daemon config).run is) input).1.approvals =
      (handleRequest config ((daemon config).run is).approvals input).approvals := by
  change (handleRequest ((daemon config).run is).config _ _).approvals = _
  rw [daemon_run_config]

/-- The log holds the audit writes of the history. -/
theorem daemon_run_auditLog (is : List Input) :
    ((daemon config).run is).auditLog =
      ((daemon config).history is).flatMap fun r => auditWrites r.output := by
  induction is using List.reverseRecOn with
  | nil => rfl
  | append_singleton is input ih =>
      rw [Transition.Machine.run_append_singleton,
        Transition.Machine.history_append_singleton, List.flatMap_append, ← ih,
        List.flatMap_singleton]
      rfl

/-- What holds of an empty slot before anything has happened, and is kept by every
move of a slot, holds of every slot after every run. The steps of the run may be
restricted by a condition `A`. -/
theorem slotInvariant {A : DaemonState → Input → Prop}
    {P : List DaemonRecord → ℕ → Option PendingRequest → Prop}
    (h0 : ∀ slot, P [] slot none)
    (hstep : ∀ (past : List DaemonRecord) (r : DaemonRecord) slot o o',
      A r.before r.input → r.before.config = config → P past slot o →
      SlotMove config r.before.approvals r.input r.output slot o o' →
      P (past ++ [r]) slot o')
    (is : List Input) (hA : ∀ r ∈ (daemon config).history is, A r.before r.input)
    (slot : ℕ) :
    P ((daemon config).history is) slot ((daemon config).run is).approvals.pending[slot]? := by
  refine ((daemon config).historyInvariant (A := A)
    (P := fun past state => state.config = config ∧
      ∀ slot, P past slot state.approvals.pending[slot]?) ⟨rfl, h0⟩ ?_ is hA).2 slot
  intro past state input hA hpast
  obtain ⟨hconfig, hslots⟩ := hpast
  refine ⟨hconfig, ?_⟩
  intro slot
  have hmove := slotMove (daemon_move config state input) slot
  rw [hconfig] at hmove
  exact hstep past ((daemon config).record state input) slot _ _ hA hconfig (hslots slot) hmove

end AnythingTool
