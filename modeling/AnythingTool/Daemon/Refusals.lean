import AnythingTool.Daemon.Replay
import AnythingTool.Daemon.Replies

/-!
# Which refusals are on record

On the tool socket every request is recorded as received before anything is decided, and
a peer without admin rights is recorded on the admin socket. What an admin asks for is
recorded only when it is done: an admin's request that is refused leaves no audit event.
`Entitled` says which of an admin's requests are done.
-/

namespace AnythingTool

open CText JsonText

variable {config : Config} {approvals : ApprovalStore} {input : Input} {request : RpcRequest}

/-- The error kinds of a refusal. -/
def refusalKinds : List Bytes :=
  [ascii "control_plane_denied", ascii "policy_denied", ascii "unknown_tool",
    ascii "approval_not_found", ascii "approval_not_pending", ascii "approval_expired",
    ascii "approval_required", ascii "approval_rejected", ascii "request_changed",
    ascii "resource_limit", ascii "invalid_params"]

/-- The response reports a refusal. -/
def Refuses (effects : List Effect) : Prop :=
  ∃ kind ∈ refusalKinds, ∃ message, Reports effects kind message

/-- If every audit write succeeds, a refusal is recorded with the method of the request
and the identity of its caller. -/
def RefusalAudited (input : Input) (request : RpcRequest) (effects : List Effect) : Prop :=
  AllWritten effects → Refuses effects →
    ∃ e ∈ auditEvents effects, e.method = request.method.bytes ∧ e.caller = input.peer

/-- An admin's request that is done. -/
inductive Entitled (approvals : ApprovalStore) (input : Input) (request : RpcRequest) : Prop
  | list (hmethod : request.method.bytes = ascii "approval.list")
      (hfew : approvals.count ≤ 32)
  | approve {requestId : CString 40} {ref : PendingRef}
      (hmethod : request.method.bytes = ascii "approval.approve")
      (hid : namedId request = some requestId)
      (hfind : anythingApprovalFind approvals requestId.bytes = some ref)
      (hstatus : ref.request.status = .pending) (hnow : input.env.now ≤ ref.request.expiresAt)
      (hother : ref.request.requester ≠ input.peer)
  | reject {requestId : CString 40} {ref : PendingRef}
      (hmethod : request.method.bytes = ascii "approval.reject")
      (hid : namedId request = some requestId)
      (hfind : anythingApprovalFind approvals requestId.bytes = some ref)
      (hother : ref.request.requester ≠ input.peer)
  | execute {requestId : CString 40} {ref : PendingRef}
      (hmethod : request.method.bytes = ascii "approval.execute")
      (hid : namedId request = some requestId)
      (hfind : anythingApprovalFind approvals requestId.bytes = some ref)
      (hstatus : ref.request.status = .granted) (hnow : input.env.now ≤ ref.request.expiresAt)

/-! ## Results are no refusals -/

theorem getLast?_errorLine (id : Bytes) (code : ℤ) (kind message : Bytes)
    (data : List (String × Bytes)) :
    (errorLine id code kind message data).getLast? = some newline := by
  rw [errorLine, List.getLast?_append]
  rfl

/-- A result, whole or cut, is not an error. -/
theorem not_reports_result {json kind message : Bytes} (hid : ShortText request.id.bytes)
    (hjson : Inline json) :
    ¬ Reports [resultResponse request.id.bytes json] kind message := by
  rintro ⟨buf, id', code, data, hmem, hbuf⟩
  have hline := jsonLine_resultLine request.id.bytes hjson
  rw [resultResponse, anythingRpcResult_eq request.id.noNul (length_escaped_lt hid),
    List.mem_singleton] at hmem
  obtain rfl : buf = (printLine 4096 (resultLine request.id.bytes json)).2 :=
    Option.some.inj (Effect.reply.inj hmem)
  by_cases hlen : (resultLine request.id.bytes json).length < 4096
  · rw [printLine_bytes hline hlen] at hbuf
    exact resultLine_ne_errorLine _ _ _ _ _ _ _ hbuf
  · have hcut : (printLine 4096 (resultLine request.id.bytes json)).2.bytes =
        (resultLine request.id.bytes json).take (4096 - 1) := by
      change (cstr _).take _ = _
      rw [cstr_of_notMem hline.zero_notMem]
    have hlast := getLast?_errorLine id' code kind message data
    rw [← hbuf, hcut] at hlast
    exact getLast?_take_jsonLine hline (by omega) hlast

/-! ## Refused and entitled -/

/-- Every stored request is bound to the step that created it. -/
def BoundStore (config : Config) (history : List DaemonRecord) (approvals : ApprovalStore) :
    Prop :=
  ∀ slot e, approvals.pending[slot]? = some e → Bound config history slot e

theorem Addresses.named {method : Bytes} {ref : PendingRef}
    (h : Addresses config approvals input method ref)
    (hparse : anythingRpcParse input.body = .ok request) :
    ∃ requestId, namedId request = some requestId ∧
      anythingApprovalFind approvals requestId.bytes = some ref := by
  obtain ⟨request', requestId, hparse', -, hid, hfind⟩ := h.names
  obtain rfl := Except.ok.inj (hparse'.symm.trans hparse)
  exact ⟨requestId, hid, hfind⟩

/-- Neither the hash nor the policy ever stops a granted request of the store. -/
theorem BoundStore.recheck {history : List DaemonRecord}
    (hbound : BoundStore config history approvals) {ref : PendingRef}
    (hstored : approvals.pending[ref.slot]? = some ref.request) :
    (pendingToRequest ref.request).requestHash = ref.request.requestHash ∧
      (anythingPolicyPreflight config (pendingToRequest ref.request)).decision ≠ .deny := by
  obtain ⟨r, -, -, created, hto⟩ := hbound ref.slot ref.request hstored
  exact ⟨pendingToRequest_requestHash hto, preflight_pendingToRequest hto⟩

/-- What is refused was not entitled. -/
theorem Refusal.not_entitled {history : List DaemonRecord}
    (hbound : BoundStore config history approvals)
    (hstore : StandardStore approvals.pending) (hcount : approvals.count ≤ 64)
    {code : ℤ} {kind message : Bytes}
    (h : Refusal config approvals input request code kind message) :
    ¬ Entitled approvals input request := by
  have hlist : ∀ method ∈ [ascii "approval.approve", ascii "approval.reject",
      ascii "approval.execute"], method ≠ ascii "approval.list" := by decide
  have hdistinct : ascii "approval.approve" ≠ ascii "approval.reject" ∧
      ascii "approval.approve" ≠ ascii "approval.execute" ∧
      ascii "approval.reject" ≠ ascii "approval.execute" := by decide
  intro hentitled
  cases hentitled with
  | list hmethod hfew =>
      cases h with
      | listTooLarge _ hnone =>
          obtain ⟨list, hsome⟩ := (exists_list_iff hstore hcount).mpr hfew
          rw [hnone] at hsome
          cases hsome
      | invalidParams hother _ => exact hother hmethod
      | approve hother _ _ => exact hlist _ (by simp) (hother.symm.trans hmethod)
      | reject hother _ _ => exact hlist _ (by simp) (hother.symm.trans hmethod)
      | execute hother _ _ => exact hlist _ (by simp) (hother.symm.trans hmethod)
      | recheck _ hother _ => exact hlist _ (by simp) (hother.symm.trans hmethod)
      | unknownMethod _ hother => exact hother (by simp [hmethod])
  | @approve requestId ref hmethod hid hfind hstatus hnow hself =>
      cases h with
      | listTooLarge hother _ => exact hlist _ (by simp) (hmethod.symm.trans hother)
      | invalidParams _ hnone =>
          rw [hnone] at hid
          cases hid
      | approve _ hid' hgrant =>
          obtain rfl := Option.some.inj (hid.symm.trans hid')
          rw [hfind, anythingApprovalGrant_eq_ok.mpr ⟨ref, rfl, hstatus, hnow, hself, rfl⟩]
            at hgrant
          cases hgrant
      | reject hother _ _ => exact hdistinct.1 (hmethod.symm.trans hother)
      | execute hother _ _ => exact hdistinct.2.1 (hmethod.symm.trans hother)
      | recheck _ hother _ => exact hdistinct.2.1 (hmethod.symm.trans hother)
      | unknownMethod _ hother => exact hother (by simp [hmethod])
  | @reject requestId ref hmethod hid hfind hself =>
      cases h with
      | listTooLarge hother _ => exact hlist _ (by simp) (hmethod.symm.trans hother)
      | invalidParams _ hnone =>
          rw [hnone] at hid
          cases hid
      | approve hother _ _ => exact hdistinct.1 (hother.symm.trans hmethod)
      | reject _ hid' hreject =>
          obtain rfl := Option.some.inj (hid.symm.trans hid')
          rw [hfind, anythingApprovalReject_eq_ok.mpr ⟨ref, rfl, hself, rfl⟩] at hreject
          cases hreject
      | execute hother _ _ => exact hdistinct.2.2 (hmethod.symm.trans hother)
      | recheck _ hother _ => exact hdistinct.2.2 (hmethod.symm.trans hother)
      | unknownMethod _ hother => exact hother (by simp [hmethod])
  | @execute requestId ref hmethod hid hfind hstatus hnow =>
      have hrecheck := hbound.recheck (anythingApprovalFind_eq_some hfind).1
      cases h with
      | listTooLarge hother _ => exact hlist _ (by simp) (hmethod.symm.trans hother)
      | invalidParams _ hnone =>
          rw [hnone] at hid
          cases hid
      | approve hother _ _ => exact hdistinct.2.1 (hother.symm.trans hmethod)
      | reject hother _ _ => exact hdistinct.2.2 (hother.symm.trans hmethod)
      | execute _ hid' hvalid =>
          obtain rfl := Option.some.inj (hid.symm.trans hid')
          have hok : anythingApprovalValidateForExecute (some ref) (currentHash (some ref))
              input.env.now = .ok ref :=
            anythingApprovalValidateForExecute_eq_ok.mpr ⟨rfl, hstatus, hnow, hrecheck.1.symm⟩
          rw [hfind, hok] at hvalid
          cases hvalid
      | recheck haddr _ hfail =>
          have hrecheck' := hbound.recheck haddr.stored
          rcases hfail with hdeny | hhash
          · exact hrecheck'.2 hdeny
          · rw [anythingPolicyPreflight_requestHash] at hhash
            exact hhash hrecheck'.1
      | unknownMethod _ hother => exact hother (by simp [hmethod])

theorem ApprovalError.kind_mem (e : ApprovalError) : e.kind ∈ refusalKinds := by
  cases e
  all_goals decide

theorem Refusal.kind_mem {code : ℤ} {kind message : Bytes}
    (h : Refusal config approvals input request code kind message) : kind ∈ refusalKinds := by
  cases h with
  | listTooLarge => decide
  | invalidParams => decide
  | @approve requestId e => exact e.kind_mem
  | @reject requestId e => exact e.kind_mem
  | @execute requestId e => exact e.kind_mem
  | recheck => decide
  | unknownMethod => decide

/-! ## Every course -/

/-- A recorded event in front settles the claim. -/
theorem refusalAudited_of_checked {outcome : AuditOutcome} {event : AuditEvent} {rpcId : Bytes}
    {store : ApprovalStore} {next : Handled} (hmethod : event.method = request.method.bytes)
    (hcaller : event.caller = input.peer) :
    RefusalAudited input request (checkedAudit outcome event rpcId store next).effects := by
  intro hwritten _
  rw [(checkedAudit_written hwritten).1, auditEvents_emit_audit]
  exact ⟨event, List.mem_cons_self, hmethod, hcaller⟩

theorem not_refuses_result {json : Bytes} (hid : ShortText request.id.bytes)
    (hjson : Inline json) : ¬ Refuses [resultResponse request.id.bytes json] := by
  rintro ⟨kind, -, message, hreports⟩
  exact not_reports_result hid hjson hreports

theorem not_refuses_emit {effect : Effect} {handled : Handled}
    (hquiet : ∀ r, effect ≠ .reply r) (h : ¬ Refuses handled.effects) :
    ¬ Refuses (emit effect handled).effects := by
  rintro ⟨kind, hkind, message, hreports⟩
  exact h ⟨kind, hkind, message, (reports_emit hquiet).mp hreports⟩

/-- A failed run of the tool is no refusal, and neither is its result. -/
theorem not_refuses_run {ref : PendingRef} (hid : ShortText request.id.bytes)
    (hwritten : AllWritten (reportRun approvals input.env input.peer request.id.bytes ref
      (anythingSysInfoJson input.env.os)).effects) :
    ¬ Refuses (reportRun approvals input.env input.peer request.id.bytes ref
      (anythingSysInfoJson input.env.os)).effects := by
  obtain ⟨hok, herror⟩ := anythingSysInfoJson_spec input.env.os
  cases hresult : anythingSysInfoJson input.env.os with
  | error sysError =>
      have hmessages : ∀ message ∈ sysErrors,
          (0 : UInt8) ∉ message ∧ (escaped message).length < 256 := by decide
      have hkinds : ∀ kind ∈ refusalKinds, escaped (ascii "execution_failed") ≠ escaped kind := by
        decide
      rw [hresult] at hwritten
      unfold reportRun at hwritten ⊢
      simp only at hwritten ⊢
      rw [(checkedAudit_written hwritten).1]
      apply not_refuses_emit (by simp)
      rintro ⟨kind, hkind, message, hreports⟩
      have hsame := hreports.of_plainError hid
        ⟨by decide, by decide, hmessages _ (herror sysError hresult)⟩
      exact hkinds kind hkind hsame.1
  | ok result =>
      rw [hresult] at hwritten
      unfold reportRun at hwritten ⊢
      simp only at hwritten ⊢
      rw [(checkedAudit_written hwritten).1]
      exact not_refuses_emit (by simp) (not_refuses_result hid (hok result hresult))

/-- The courses that are no refusals of an admin, and the requests that take them. -/
theorem Course.refusalAudited {handled : Handled}
    (h : Course config approvals input request handled)
    (hparse : anythingRpcParse input.body = .ok request)
    (hstore : StandardStore approvals.pending) (hcount : approvals.count ≤ 64) :
    (∃ code kind message, Refusal config approvals input request code kind message ∧
        input.plane = .admin ∧ anythingConfigIdentityIsAdmin config input.peer = true ∧
        handled = ⟨approvals, [errorResponse request.id.bytes code kind message []]⟩) ∨
      RefusalAudited input request handled.effects ∧
        (input.plane = .tool ∨ anythingConfigIdentityIsAdmin config input.peer = false ∨
          Entitled approvals input request) := by
  have hid := (shortStrings_of_parse hparse).id
  cases h with
  | denied hplane hdenial => exact .inr ⟨refusalAudited_of_checked rfl rfl, .inl hplane⟩
  | full hplane hallowed hfull => exact .inr ⟨refusalAudited_of_checked rfl rfl, .inl hplane⟩
  | stored hplane hallowed hroom hfields =>
      exact .inr ⟨refusalAudited_of_checked rfl rfl, .inl hplane⟩
  | unauthorized hplane hadmin =>
      exact .inr ⟨refusalAudited_of_checked rfl rfl, .inr (.inl hadmin)⟩
  | refused hplane hadmin hrefusal => exact .inl ⟨_, _, _, hrefusal, hplane, hadmin, rfl⟩
  | listed hplane hadmin hmethod hlist =>
      obtain ⟨hfew, hbytes⟩ := list_bytes hstore hcount hlist
      refine .inr ⟨?_, .inr (.inr (.list hmethod hfew))⟩
      intro _ hrefuses
      rw [hbytes] at hrefuses
      exact absurd hrefuses (not_refuses_result hid (inline_listObject _))
  | granted hmethod haddr hstatus hnow hother =>
      obtain ⟨requestId, hnamed, hfind⟩ := haddr.named hparse
      refine .inr ⟨?_, .inr (.inr (.approve hmethod hnamed hfind hstatus hnow hother))⟩
      intro hwritten hrefuses
      rw [(checkedAudit_written (allWritten_emit hwritten)).1] at hrefuses
      exact absurd hrefuses (not_refuses_emit (by simp) (not_refuses_emit (by simp)
        (not_refuses_result hid (inline_flag "approved" (by decide)))))
  | rejected hmethod haddr hother =>
      obtain ⟨requestId, hnamed, hfind⟩ := haddr.named hparse
      refine .inr ⟨?_, .inr (.inr (.reject hmethod hnamed hfind hother))⟩
      intro hwritten hrefuses
      rw [(checkedAudit_written (allWritten_emit hwritten)).1] at hrefuses
      exact absurd hrefuses (not_refuses_emit (by simp) (not_refuses_emit (by simp)
        (not_refuses_result hid (inline_flag "rejected" (by decide)))))
  | ran hmethod haddr hstatus hnow hpolicy =>
      obtain ⟨requestId, hnamed, hfind⟩ := haddr.named hparse
      refine .inr ⟨?_, .inr (.inr (.execute hmethod hnamed hfind hstatus hnow))⟩
      intro hwritten hrefuses
      obtain ⟨heq, hwritten⟩ := checkedAudit_written hwritten
      rw [heq] at hrefuses
      exact absurd hrefuses (not_refuses_emit (by simp) (not_refuses_emit (by simp)
        (not_refuses_run hid (allWritten_emit hwritten))))

/-- A refused admin leaves no record. -/
theorem Refusal.not_audited {code : ℤ} {kind message : Bytes}
    (h : Refusal config approvals input request code kind message)
    (hid : ShortText request.id.bytes) :
    ¬ RefusalAudited input request [errorResponse request.id.bytes code kind message []] := by
  intro haudited
  have hwritten : AllWritten [errorResponse request.id.bytes code kind message []] := by
    intro w hw
    cases hw
  obtain ⟨e, he, -⟩ := haudited hwritten
    ⟨kind, h.kind_mem, message, reports_plainError hid h.fixed⟩
  cases he

/-- A refusal is on record exactly when it is not an admin that is refused on the admin
socket. -/
theorem refusalAudited_iff (config : Config) (is : List Input) (input : Input)
    (request : RpcRequest) (hparse : anythingRpcParse input.body = .ok request) :
    RefusalAudited input request ((daemon config).step ((daemon config).run is) input).2 ↔
      input.plane = .tool ∨ anythingConfigIdentityIsAdmin config input.peer = false ∨
        Entitled ((daemon config).run is).approvals input request := by
  have hstore := standardStore_run config is
  have hcount := (counted_run config is).count
  have hid := (shortStrings_of_parse hparse).id
  rw [daemon_step_effects]
  rcases (course config _ hparse).refusalAudited hparse hstore hcount with
    ⟨code, kind, message, hrefusal, hplane, hadmin, hhandled⟩ | ⟨haudited, hcondition⟩
  · rw [hhandled]
    constructor
    · intro haudited
      exact absurd haudited (hrefusal.not_audited hid)
    · rintro (htool | hother | hentitled)
      · rw [hplane] at htool
        cases htool
      · rw [hadmin] at hother
        cases hother
      · exact absurd hentitled
          (hrefusal.not_entitled (bound_run config is) hstore hcount)
  · exact ⟨fun _ => hcondition, fun _ => haudited⟩

/-- The agent approves its own request on the tool socket. -/
def toolRuling : Input :=
  ⟨.tool, Sample.agent, (Sample.ruling Sample.agent "approval.approve" Sample.written).body,
    Sample.env Sample.written⟩

/-- There it is refused on record. -/
theorem refusalAudited_sample : ∃ request, RefusalAudited toolRuling request
    ((daemon Sample.config).step ((daemon Sample.config).run [Sample.ask Sample.written])
      toolRuling).2 := by
  obtain ⟨request, hparse⟩ := exists_ok_of_isSome
    (by decide +kernel : (anythingRpcParse toolRuling.body).toOption.isSome = true)
  exact ⟨request, (refusalAudited_iff Sample.config [Sample.ask Sample.written] toolRuling
    request hparse).mpr (.inl rfl)⟩

/-- On the admin socket it is refused without one. -/
theorem not_refusalAudited :
    ¬ ∀ config is input request, anythingRpcParse input.body = .ok request →
      RefusalAudited input request
        ((daemon config).step ((daemon config).run is) input).2 := by
  intro h
  let is := [Sample.ask Sample.written]
  let input := Sample.ruling Sample.agent "approval.approve" Sample.written
  obtain ⟨request, hparse⟩ := exists_ok_of_isSome
    (by decide +kernel : (anythingRpcParse input.body).toOption.isSome = true)
  have hfacts : ∀ request, anythingRpcParse input.body = .ok request →
      request.method.bytes = ascii "approval.approve" ∧
        ∀ requestId ∈ namedId request, anythingApprovalGrant (anythingApprovalFind
          ((daemon Sample.config).run is).approvals requestId.bytes) Sample.agent 100 =
            .error .controlPlaneDenied := by decide +kernel
  have hnamed : ∀ request, anythingRpcParse input.body = .ok request →
      (namedId request).isSome = true := by decide +kernel
  obtain ⟨hmethod, hgrant⟩ := hfacts request hparse
  obtain ⟨requestId, hid⟩ := Option.isSome_iff_exists.mp (hnamed request hparse)
  have hrefusal : Refusal Sample.config ((daemon Sample.config).run is).approvals input request
      (-32012) ApprovalError.controlPlaneDenied.kind (ascii "approval denied") :=
    .approve hmethod hid (hgrant requestId hid)
  have haudited := h Sample.config is input request hparse
  rw [daemon_step_effects] at haudited
  rcases (course Sample.config _ hparse).refusalAudited hparse
    (standardStore_run Sample.config is) (counted_run Sample.config is).count with
    ⟨code, kind, message, hother, -, -, hhandled⟩ | ⟨-, htool | hadmin | hentitled⟩
  · rw [hhandled] at haudited
    exact hother.not_audited (shortStrings_of_parse hparse).id haudited
  · cases htool
  · exact absurd hadmin (by decide)
  · exact hrefusal.not_entitled (bound_run Sample.config is)
      (standardStore_run Sample.config is) (counted_run Sample.config is).count hentitled

end AnythingTool
