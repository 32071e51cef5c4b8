import AnythingTool.Daemon.Moves

/-!
# What a peer without admin rights can reach

A request on the tool socket leaves the stored requests alone and adds at most one,
and what the peer and the log get to see of the store is its size and its next id.
On the admin socket a peer outside the allowlist neither changes the store nor sees
anything of it.
-/

namespace AnythingTool

open CText

/-- Two handlers that end with the same effects end with the same effects behind an
audit write. -/
theorem checkedAudit_effects {outcome : AuditOutcome} {event : AuditEvent} {rpcId : Bytes}
    {approvals other : ApprovalStore} {next next' : Handled}
    (h : next.effects = next'.effects) :
    (checkedAudit outcome event rpcId approvals next).effects =
      (checkedAudit outcome event rpcId other next').effects := by
  cases hok : (auditWrite outcome event).ok with
  | false =>
      simp only [checkedAudit, hok, emit]
      rfl
  | true =>
      rw [checkedAudit_of_ok hok, checkedAudit_of_ok hok, emit, emit, h]

/-- The answer to a stored request is made from that request alone. -/
theorem answerPending_effects (env : Env) (caller : Identity) (request : RpcRequest)
    (approvals other : ApprovalStore) (pending : PendingRequest) :
    (answerPending env caller request approvals pending).effects =
      (answerPending env caller request other pending).effects := by
  unfold answerPending
  split
  · exact checkedAudit_effects rfl
  · rfl

theorem routeToolRequest_effects {config : Config} {approvals other : ApprovalStore}
    {env : Env} {caller : Identity} {request : RpcRequest}
    (hcount : other.count = approvals.count) (hnext : other.nextId = approvals.nextId) :
    (routeToolRequest config other env caller request).effects =
      (routeToolRequest config approvals env caller request).effects := by
  unfold routeToolRequest
  by_cases hcontrol : strncmpEq request.method.bytes (ascii "approval.") 9 = true
  · rw [if_pos hcontrol, if_pos hcontrol]
    exact checkedAudit_effects rfl
  rw [if_neg hcontrol, if_neg hcontrol]
  by_cases hdeny : (anythingPolicyPreflight config request).decision = .deny
  · simp only [if_pos hdeny]
    exact checkedAudit_effects rfl
  simp only [if_neg hdeny]
  by_cases hmethod : request.method.bytes ≠ ascii "sys.info"
  · rw [if_pos hmethod, if_pos hmethod]
  rw [if_neg hmethod, if_neg hmethod]
  unfold anythingApprovalAdd
  rw [hcount, hnext]
  by_cases hfull : approvals.count ≥ approvalMaxPending
  · rw [if_pos hfull, if_pos hfull]
  · rw [if_neg hfull, if_neg hfull]
    simp only [emit]
    rw [answerPending_effects]

/-- On the tool socket only the two moves are left that no admin makes. -/
theorem HandlerMove.of_tool {config : Config} {approvals : ApprovalStore} {input : Input}
    {handled : Handled} (h : HandlerMove config approvals input handled)
    (hplane : input.plane = .tool) :
    ∃ added, handled.approvals.pending = approvals.pending ++ added ∧ added.length ≤ 1 := by
  have hadmin : ∀ method ref, ¬ Addresses config approvals input method ref := by
    intro method ref haddr
    have hother := haddr.plane
    rw [hplane] at hother
    cases hother
  cases h with
  | quiet hquiet => exact ⟨[], by rw [List.append_nil], Nat.zero_le 1⟩
  | added hadmits => exact ⟨[_], rfl, le_rfl⟩
  | granted haddr hstatus hnow hother => exact (hadmin _ _ haddr).elim
  | rejected haddr hother => exact (hadmin _ _ haddr).elim
  | ran haddr hstatus hnow hpolicy hstarted => exact (hadmin _ _ haddr).elim

/-- Neither socket lets a peer without admin rights touch or read a stored request. -/
theorem controlPlane_noninterference (config : Config) (approvals : ApprovalStore) (env : Env)
    (peer : Identity) (body : Bytes) :
    (∃ added, (handleToolRequest config approvals env peer body).approvals.pending =
        approvals.pending ++ added ∧ added.length ≤ 1) ∧
      (∀ other : ApprovalStore, other.count = approvals.count →
        other.nextId = approvals.nextId →
        (handleToolRequest config other env peer body).effects =
          (handleToolRequest config approvals env peer body).effects) ∧
      (anythingConfigIdentityIsAdmin config peer = false →
        (handleAdminRequest config approvals env peer body).approvals = approvals ∧
        ∀ other : ApprovalStore, (handleAdminRequest config other env peer body).effects =
          (handleAdminRequest config approvals env peer body).effects) := by
  refine ⟨?_, ?_, ?_⟩
  · have hmove : HandlerMove config approvals ⟨.tool, peer, body, env⟩
        (handleToolRequest config approvals env peer body) := handlerMove config approvals _
    exact hmove.of_tool rfl
  · intro other hcount hnext
    unfold handleToolRequest
    cases anythingRpcParse body with
    | error e => rfl
    | ok request => exact checkedAudit_effects (routeToolRequest_effects hcount hnext)
  · intro hadmin
    unfold handleAdminRequest
    cases anythingRpcParse body with
    | error e => exact ⟨rfl, fun _ => rfl⟩
    | ok request =>
        simp only [hadmin, Bool.not_false, if_true]
        refine ⟨?_, ?_⟩
        · obtain ⟨r, hr⟩ := checkedAudit_reply approvals (env.audit 0)
            (requestEvent .preflightDenied request peer (ascii "denied") (ascii "deny")
              (ascii "control_plane_denied") (ascii "admin caller is not in allowlist"))
            request.id.bytes _
          rw [errorResponse, writeResponse, hr]
        · intro other
          exact checkedAudit_effects rfl

/-- A peer outside the allowlist approves nothing, whatever is stored. -/
theorem controlPlane_noninterference_sample :
    (handleAdminRequest Sample.config
        ((daemon Sample.config).run [Sample.ask Sample.written]).approvals
        (Sample.env Sample.written) ⟨1001, 1001, 9⟩
        (Sample.ruling Sample.operator "approval.approve" Sample.written).body).effects =
      (handleAdminRequest Sample.config anythingApprovalStoreInit (Sample.env Sample.written)
        ⟨1001, 1001, 9⟩
        (Sample.ruling Sample.operator "approval.approve" Sample.written).body).effects :=
  ((controlPlane_noninterference Sample.config anythingApprovalStoreInit
    (Sample.env Sample.written) ⟨1001, 1001, 9⟩
    (Sample.ruling Sample.operator "approval.approve" Sample.written).body).2.2
      (by decide)).2 _

end AnythingTool
