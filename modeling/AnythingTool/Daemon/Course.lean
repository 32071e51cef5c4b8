import AnythingTool.Daemon.Handlers

/-!
# The courses a parsed request can take

`Course` lists the branches of the two handlers behind the parser, each with the
checks made on the way to it, its audit writes and its answer. The audit writes stand
in it as `checkedAudit`, so a branch is listed once and not once for every write that
may fail. `course` reads the list off the handlers; whatever holds of all branches is
proved by one case for each of them.

Some branches of the source cannot be reached behind their checks and have no course:
a request that the policy lets through is always `sys.info`, and the fields of a stored
request always fit the buffers they are escaped into.
-/

namespace AnythingTool

open CText

variable {config : Config} {approvals : ApprovalStore} {input : Input} {request : RpcRequest}

/-- The request that `anything_approval_add` stores for an admitted tool request. -/
def admitted (config : Config) (approvals : ApprovalStore) (input : Input)
    (request : RpcRequest) : PendingRequest :=
  newPending approvals.nextId request (anythingPolicyPreflight config request) input.peer
    config.approvalTtlSeconds input.env.now

/-- The store with it. -/
def ApprovalStore.push (approvals : ApprovalStore) (pending : PendingRequest) :
    ApprovalStore :=
  ⟨approvals.pending ++ [pending], approvals.nextId + 1⟩

/-- An admin's request of this method that names this stored request. -/
structure Addresses (config : Config) (approvals : ApprovalStore) (input : Input)
    (method : Bytes) (ref : PendingRef) : Prop where
  plane : input.plane = .admin
  admin : anythingConfigIdentityIsAdmin config input.peer = true
  names : ∃ request requestId, anythingRpcParse input.body = .ok request ∧
    request.method.bytes = method ∧
    anythingRpcExtractParamString 40 request.params.bytes (ascii "request_id") =
      some requestId ∧
    anythingApprovalFind approvals requestId.bytes = some ref

/-- The first audit event of a tool request. -/
def receivedEvent (request : RpcRequest) (caller : Identity) : AuditEvent :=
  requestEvent .requestReceived request caller [] (ascii "received") []
    (ascii "bounded request")

/-- The audit event of a rejection. -/
def approvalRejectedEvent (pending : PendingRequest) (admin : Identity) : AuditEvent :=
  pendingEvent .approvalRejected pending pending.requester (some admin) (ascii "rejected") []
    pending.summary.bytes

/-- The hash `handle_admin_execute` computes of what it found. -/
def currentHash (pending : Option PendingRef) : UInt64 :=
  match pending with
  | some pending => (pendingToRequest pending.request).requestHash
  | none => 0

/-- A tool request that is refused on record: the code, risk, error kind and summary of
the record, and the message of the answer. -/
inductive Denial (config : Config) (request : RpcRequest) :
    ℤ → Bytes → Bytes → Bytes → Bytes → Prop
  | controlPlane (h : strncmpEq request.method.bytes (ascii "approval.") 9 = true) :
      Denial config request (-32040) (ascii "denied") (ascii "control_plane_denied")
        (ascii "agent tool socket cannot access approval methods")
        (ascii "approval methods require admin socket")
  | policy (h : strncmpEq request.method.bytes (ascii "approval.") 9 = false)
      (hdeny : (anythingPolicyPreflight config request).decision = .deny) :
      Denial config request (-32020) (anythingPolicyPreflight config request).risk.bytes
        (anythingPolicyPreflight config request).reason.bytes
        (anythingPolicyPreflight config request).summary.bytes (ascii "policy denied")

/-- The request id an admin's request names. -/
def namedId (request : RpcRequest) : Option (CString 40) :=
  anythingRpcExtractParamString 40 request.params.bytes (ascii "request_id")

/-- An admin's request about a stored request, as the code finds it. -/
theorem exists_addresses {config : Config} {approvals : ApprovalStore} {input : Input}
    {method : Bytes} {P : PendingRef → Prop} (hplane : input.plane = .admin)
    (hadmin : anythingConfigIdentityIsAdmin config input.peer = true)
    (hparse : (anythingRpcParse input.body).toOption.isSome = true)
    (hnames : ∀ request, anythingRpcParse input.body = .ok request →
      request.method.bytes = method ∧
        ((namedId request).bind fun id => anythingApprovalFind approvals id.bytes).isSome = true ∧
        ∀ ref ∈ (namedId request).bind fun id => anythingApprovalFind approvals id.bytes, P ref) :
    ∃ ref, Addresses config approvals input method ref ∧ P ref := by
  obtain ⟨request, hrequest⟩ := exists_ok_of_isSome hparse
  obtain ⟨hmethod, hsome, hP⟩ := hnames request hrequest
  obtain ⟨ref, href⟩ := Option.isSome_iff_exists.mp hsome
  obtain ⟨requestId, hid, hfind⟩ := Option.bind_eq_some_iff.mp href
  exact ⟨ref, ⟨hplane, hadmin, request, requestId, hrequest, hmethod, hid, hfind⟩, hP ref href⟩

/-- An admin's request that is refused without a record: the code, kind and message of
the answer. -/
inductive Refusal (config : Config) (approvals : ApprovalStore) (input : Input)
    (request : RpcRequest) : ℤ → Bytes → Bytes → Prop
  | listTooLarge (hmethod : request.method.bytes = ascii "approval.list")
      (hlist : anythingApprovalListJson 4096 approvals = none) :
      Refusal config approvals input request (-32000) (ascii "resource_limit")
        (ascii "pending list too large")
  | invalidParams (hmethod : request.method.bytes ≠ ascii "approval.list")
      (hid : namedId request = none) :
      Refusal config approvals input request (-32602) (ascii "invalid_params")
        (ascii "request_id is required")
  | approve {requestId : CString 40} {e : ApprovalError}
      (hmethod : request.method.bytes = ascii "approval.approve")
      (hid : namedId request = some requestId)
      (h : anythingApprovalGrant (anythingApprovalFind approvals requestId.bytes) input.peer
        input.env.now = .error e) :
      Refusal config approvals input request (-32012) e.kind (ascii "approval denied")
  | reject {requestId : CString 40} {e : ApprovalError}
      (hmethod : request.method.bytes = ascii "approval.reject")
      (hid : namedId request = some requestId)
      (h : anythingApprovalReject (anythingApprovalFind approvals requestId.bytes) input.peer =
        .error e) :
      Refusal config approvals input request (-32013) e.kind
        (ascii "approval rejection failed")
  | execute {requestId : CString 40} {e : ApprovalError}
      (hmethod : request.method.bytes = ascii "approval.execute")
      (hid : namedId request = some requestId)
      (h : anythingApprovalValidateForExecute (anythingApprovalFind approvals requestId.bytes)
        (currentHash (anythingApprovalFind approvals requestId.bytes)) input.env.now =
          .error e) :
      Refusal config approvals input request (-32011) e.kind (ascii "approval cannot execute")
  | recheck {ref : PendingRef}
      (h : Addresses config approvals input (ascii "approval.execute") ref)
      (hmethod : request.method.bytes = ascii "approval.execute")
      (hrecheck : (anythingPolicyPreflight config (pendingToRequest ref.request)).decision =
          .deny ∨
        (anythingPolicyPreflight config (pendingToRequest ref.request)).requestHash ≠
          ref.request.requestHash) :
      Refusal config approvals input request (-32021) (ascii "policy_denied")
        (ascii "policy recheck failed")
  | unknownMethod {requestId : CString 40} (hid : namedId request = some requestId)
      (hmethod : request.method.bytes ∉ [ascii "approval.list", ascii "approval.execute",
        ascii "approval.approve", ascii "approval.reject"]) :
      Refusal config approvals input request (-32601) (ascii "unknown_tool")
        (ascii "unknown admin method")

/-- The fields of a stored request as they stand in the answer to it. -/
structure AnswerFields (pending : PendingRequest) (requestId : CString 128)
    (risk : CString 64) (summary : CString 512) : Prop where
  requestId : anythingJsonEscapeString 128 pending.requestId.bytes = some requestId
  risk : anythingJsonEscapeString 64 pending.risk.bytes = some risk
  summary : anythingJsonEscapeString 512 pending.summary.bytes = some summary

/-- What serving a parsed request comes to. -/
inductive Course (config : Config) (approvals : ApprovalStore) (input : Input)
    (request : RpcRequest) : Handled → Prop
  | denied {code : ℤ} {risk kind summary message : Bytes} (hplane : input.plane = .tool)
      (h : Denial config request code risk kind summary message) :
      Course config approvals input request
        (checkedAudit (input.env.audit 0) (receivedEvent request input.peer)
          request.id.bytes approvals
          (checkedAudit (input.env.audit 1)
            (requestEvent .preflightDenied request input.peer risk (ascii "deny") kind summary)
            request.id.bytes approvals
            ⟨approvals, [errorResponse request.id.bytes code kind message []]⟩))
  | full (hplane : input.plane = .tool)
      (hallowed : (anythingPolicyPreflight config request).decision ≠ .deny)
      (hfull : approvalMaxPending ≤ approvals.count) :
      Course config approvals input request
        (checkedAudit (input.env.audit 0) (receivedEvent request input.peer)
          request.id.bytes approvals
          ⟨approvals, [errorResponse request.id.bytes (-32000) (ascii "resource_limit")
            (ascii "approval store full") []]⟩)
  | stored {requestId : CString 128} {risk : CString 64} {summary : CString 512}
      (hplane : input.plane = .tool)
      (hallowed : (anythingPolicyPreflight config request).decision ≠ .deny)
      (hroom : approvals.count < approvalMaxPending)
      (hfields : AnswerFields (admitted config approvals input request) requestId risk
        summary) :
      Course config approvals input request
        (checkedAudit (input.env.audit 0) (receivedEvent request input.peer)
          request.id.bytes approvals
          (emit (.added approvals.count)
            (checkedAudit (input.env.audit 1)
              (approvalRequiredEvent (admitted config approvals input request) input.peer)
              request.id.bytes (approvals.push (admitted config approvals input request))
              ⟨approvals.push (admitted config approvals input request),
                [errorResponse request.id.bytes (-32010) (ascii "approval_required")
                  (ascii "approval required") (approvalRequiredData requestId risk summary
                    (admitted config approvals input request).expiresAt).bytes]⟩)))
  | unauthorized (hplane : input.plane = .admin)
      (hadmin : anythingConfigIdentityIsAdmin config input.peer = false) :
      Course config approvals input request
        (checkedAudit (input.env.audit 0)
          (requestEvent .preflightDenied request input.peer (ascii "denied") (ascii "deny")
            (ascii "control_plane_denied") (ascii "admin caller is not in allowlist"))
          request.id.bytes approvals
          ⟨approvals, [errorResponse request.id.bytes (-32040) (ascii "control_plane_denied")
            (ascii "admin caller is not authorized") []]⟩)
  | refused {code : ℤ} {kind message : Bytes} (hplane : input.plane = .admin)
      (hadmin : anythingConfigIdentityIsAdmin config input.peer = true)
      (h : Refusal config approvals input request code kind message) :
      Course config approvals input request
        ⟨approvals, [errorResponse request.id.bytes code kind message []]⟩
  | listed {list : CString 4096} (hplane : input.plane = .admin)
      (hadmin : anythingConfigIdentityIsAdmin config input.peer = true)
      (hmethod : request.method.bytes = ascii "approval.list")
      (hlist : anythingApprovalListJson 4096 approvals = some list) :
      Course config approvals input request
        ⟨approvals, [resultResponse request.id.bytes list.bytes]⟩
  | granted {ref : PendingRef} (hmethod : request.method.bytes = ascii "approval.approve")
      (h : Addresses config approvals input (ascii "approval.approve") ref)
      (hstatus : ref.request.status = .pending)
      (hnow : input.env.now ≤ ref.request.expiresAt)
      (hother : ref.request.requester ≠ input.peer) :
      Course config approvals input request
        (emit (.granted ref.slot input.peer)
          (checkedAudit (input.env.audit 0)
            (approvalGrantedEvent (ref.request.grantedBy input.peer) input.peer)
            request.id.bytes
            (approvals.write ⟨ref.slot, ref.request.grantedBy input.peer⟩)
            ⟨approvals.write ⟨ref.slot, ref.request.grantedBy input.peer⟩,
              [resultResponse request.id.bytes (ascii "\x7b\"approved\":true\x7d")]⟩))
  | rejected {ref : PendingRef} (hmethod : request.method.bytes = ascii "approval.reject")
      (h : Addresses config approvals input (ascii "approval.reject") ref)
      (hother : ref.request.requester ≠ input.peer) :
      Course config approvals input request
        (emit (.rejected ref.slot input.peer)
          (checkedAudit (input.env.audit 0)
            (approvalRejectedEvent (ref.request.rejectedBy input.peer) input.peer)
            request.id.bytes
            (approvals.write ⟨ref.slot, ref.request.rejectedBy input.peer⟩)
            ⟨approvals.write ⟨ref.slot, ref.request.rejectedBy input.peer⟩,
              [resultResponse request.id.bytes (ascii "\x7b\"rejected\":true\x7d")]⟩))
  | ran {ref : PendingRef} (hmethod : request.method.bytes = ascii "approval.execute")
      (h : Addresses config approvals input (ascii "approval.execute") ref)
      (hstatus : ref.request.status = .granted)
      (hnow : input.env.now ≤ ref.request.expiresAt)
      (hpolicy : (anythingPolicyPreflight config (pendingToRequest ref.request)).decision ≠
        .deny) :
      Course config approvals input request
        (checkedAudit (input.env.audit 0) (executionStartedEvent ref.request input.peer)
          request.id.bytes approvals
          (emit (.sysInfo ref.slot (anythingSysInfoJson input.env.os))
            (reportRun approvals input.env input.peer request.id.bytes ref
              (anythingSysInfoJson input.env.os))))

/-! ## The tool socket -/

theorem anythingPolicyPreflight_of_allowed
    (hallowed : (anythingPolicyPreflight config request).decision ≠ .deny) :
    anythingPolicyPreflight config request =
      { decision := .approvalRequired
        risk := .snprintf 16 (ascii "low")
        requestHash := request.requestHash
        summary := .snprintf 256 (ascii "Read Linux system information with sys.info")
        reason := .snprintf 128 (ascii "approval_required") } := by
  obtain ⟨hmethod, hcap⟩ := anythingPolicyPreflight_ne_deny.mp hallowed
  simp [anythingPolicyPreflight, hmethod, hcap]

theorem allowed_policy (hallowed : (anythingPolicyPreflight config request).decision ≠ .deny) :
    (anythingPolicyPreflight config request).risk.bytes = ascii "low" ∧
      (anythingPolicyPreflight config request).summary.bytes =
        ascii "Read Linux system information with sys.info" := by
  have hrisk : (CString.snprintf 16 (ascii "low")).bytes = ascii "low" := by decide
  have hsummary : (CString.snprintf 256 (ascii
      "Read Linux system information with sys.info")).bytes =
        ascii "Read Linux system information with sys.info" := by decide
  rw [anythingPolicyPreflight_of_allowed hallowed]
  exact ⟨hrisk, hsummary⟩

theorem digit_shortlyEscaped {k : ℕ} {c : UInt8} (h : c ∈ formatNat k) :
    ShortlyEscaped c := by
  obtain ⟨d, hd, rfl⟩ := List.mem_map.mp h
  have hle := digit_toNat_le hd
  apply Or.inl
  rw [UInt8.le_iff_toNat_le, UInt8.toNat_ofNat', Nat.mod_eq_of_lt (by omega)]
  exact le_trans (by decide) hle.1

theorem zero_notMem_requestId (k : ℕ) : (0 : UInt8) ∉ ascii "req_" ++ formatNat k := by
  intro h
  rcases List.mem_append.mp h with h | h
  · exact absurd h (by decide)
  · exact zero_notMem_formatNat k h

theorem requestId_shortlyEscaped {k : ℕ} {c : UInt8} (h : c ∈ ascii "req_" ++ formatNat k) :
    ShortlyEscaped c := by
  have hprefix : ∀ c ∈ ascii "req_", ShortlyEscaped c := by decide
  rcases List.mem_append.mp h with h | h
  · exact hprefix c h
  · exact digit_shortlyEscaped h

/-- The method of a stored request is the one that was admitted. -/
theorem admitted_method : (admitted config approvals input request).method = request.method := by
  simp only [admitted, newPending, CString.snprintf_self]

/-- The risk and the summary of whatever is stored. -/
theorem admitted_policy (approvals : ApprovalStore) (input : Input)
    (hallowed : (anythingPolicyPreflight config request).decision ≠ .deny) :
    (admitted config approvals input request).risk.bytes = ascii "low" ∧
      (admitted config approvals input request).summary.bytes =
        ascii "Read Linux system information with sys.info" := by
  simp only [admitted, newPending, CString.snprintf_self]
  exact allowed_policy hallowed

/-- The answer to a stored request always has room for its three fields. -/
theorem exists_answerFields (approvals : ApprovalStore) (input : Input)
    (hallowed : (anythingPolicyPreflight config request).decision ≠ .deny) :
    ∃ requestId risk summary, AnswerFields (admitted config approvals input request)
      requestId risk summary := by
  obtain ⟨hrisk, hsummary⟩ := admitted_policy approvals input hallowed
  obtain ⟨requestId, hid⟩ : ∃ out, anythingJsonEscapeString 128
      (admitted config approvals input request).requestId.bytes = some out := by
    apply exists_anythingJsonEscapeString
    · intro c hc
      exact requestId_shortlyEscaped
        ((List.takeWhile_prefix _).subset (List.mem_of_mem_take hc))
    · have hfits := (admitted config approvals input request).requestId.fits
      omega
  obtain ⟨risk, hrisk⟩ : ∃ out, anythingJsonEscapeString 64
      (admitted config approvals input request).risk.bytes = some out := by
    rw [hrisk]
    exact exists_anythingJsonEscapeString (by decide) (by decide)
  obtain ⟨summary, hsummary⟩ : ∃ out, anythingJsonEscapeString 512
      (admitted config approvals input request).summary.bytes = some out := by
    rw [hsummary]
    exact exists_anythingJsonEscapeString (by decide) (by decide)
  exact ⟨requestId, risk, summary, hid, hrisk, hsummary⟩

theorem course_tool (hplane : input.plane = .tool) :
    Course config approvals input request
      (checkedAudit (input.env.audit 0) (receivedEvent request input.peer) request.id.bytes
        approvals (routeToolRequest config approvals input.env input.peer request)) := by
  unfold routeToolRequest
  by_cases hcontrol : strncmpEq request.method.bytes (ascii "approval.") 9 = true
  · rw [if_pos hcontrol]
    exact .denied hplane (.controlPlane hcontrol)
  rw [if_neg hcontrol]
  by_cases hdeny : (anythingPolicyPreflight config request).decision = .deny
  · simp only [if_pos hdeny]
    exact .denied hplane (.policy (by simpa using hcontrol) hdeny)
  obtain ⟨hmethod, hcap⟩ := anythingPolicyPreflight_ne_deny.mp hdeny
  simp only [if_neg hdeny, if_neg (not_not.mpr hmethod)]
  cases hadd : anythingApprovalAdd approvals request (anythingPolicyPreflight config request)
      input.peer config.approvalTtlSeconds input.env.now with
  | none =>
      have hfull : approvalMaxPending ≤ approvals.count := by
        unfold anythingApprovalAdd at hadd
        split_ifs at hadd with hfull
        exact hfull
      exact .full hplane hdeny hfull
  | some created =>
      obtain ⟨hroom, href, hstore⟩ := anythingApprovalAdd_eq_some.mp hadd
      obtain ⟨requestId, risk, summary, hfields⟩ :=
        exists_answerFields approvals input hdeny
      have hcourse := Course.stored hplane hdeny hroom hfields
      simp only [hstore, href, answerPending, ← admitted.eq_def, hfields.requestId,
        hfields.risk, hfields.summary]
      exact hcourse

/-! ## The admin socket -/

theorem course_execute (hplane : input.plane = .admin)
    (hadmin : anythingConfigIdentityIsAdmin config input.peer = true)
    (hparse : anythingRpcParse input.body = .ok request)
    (hmethod : request.method.bytes = ascii "approval.execute") :
    Course config approvals input request
      (handleAdminExecute config approvals input.env input.peer request) := by
  have hlist : request.method.bytes ≠ ascii "approval.list" := by
    rw [hmethod]
    decide
  unfold handleAdminExecute
  cases hid : anythingRpcExtractParamString 40 request.params.bytes (ascii "request_id") with
  | none => exact .refused hplane hadmin (.invalidParams hlist hid)
  | some requestId =>
      simp only
      split
      · rename_i e hvalid
        exact .refused hplane hadmin (.execute hmethod hid hvalid)
      · rename_i ref hvalid
        obtain ⟨hfind, hstatus, hnow, -⟩ := anythingApprovalValidateForExecute_eq_ok.mp hvalid
        have haddr : Addresses config approvals input (ascii "approval.execute") ref :=
          ⟨hplane, hadmin, request, requestId, hparse, hmethod, hid, hfind⟩
        split_ifs with hrecheck
        · exact .refused hplane hadmin (.recheck haddr hmethod hrecheck)
        · exact .ran hmethod haddr hstatus hnow (not_or.mp hrecheck).1

theorem course_admin (hplane : input.plane = .admin)
    (hparse : anythingRpcParse input.body = .ok request) :
    Course config approvals input request
      (handleAdminRequest config approvals input.env input.peer input.body) := by
  unfold handleAdminRequest
  simp only [hparse]
  cases hadmin : anythingConfigIdentityIsAdmin config input.peer with
  | false => exact .unauthorized hplane hadmin
  | true =>
      simp only [Bool.not_true, Bool.false_eq_true, if_false]
      unfold routeAdminRequest
      by_cases hlist : request.method.bytes = ascii "approval.list"
      · simp only [if_pos hlist]
        split
        · rename_i hnone
          exact .refused hplane hadmin (.listTooLarge hlist hnone)
        · rename_i list hsome
          exact .listed hplane hadmin hlist hsome
      by_cases hexecute : request.method.bytes = ascii "approval.execute"
      · simp only [if_neg hlist, if_pos hexecute]
        exact course_execute hplane hadmin hparse hexecute
      simp only [if_neg hlist, if_neg hexecute]
      cases hid : anythingRpcExtractParamString 40 request.params.bytes
          (ascii "request_id") with
      | none => exact .refused hplane hadmin (.invalidParams hlist hid)
      | some requestId =>
          simp only
          by_cases happrove : request.method.bytes = ascii "approval.approve"
          · rw [if_pos happrove, handleAdminApprove]
            split
            · rename_i e hgrant
              exact .refused hplane hadmin (.approve happrove hid hgrant)
            · rename_i ref' hgrant
              obtain ⟨ref, hfind, hstatus, hnow, hother, rfl⟩ :=
                anythingApprovalGrant_eq_ok.mp hgrant
              have haddr : Addresses config approvals input (ascii "approval.approve") ref :=
                ⟨hplane, hadmin, request, requestId, hparse, happrove, hid, hfind⟩
              have hcourse := Course.granted happrove haddr hstatus hnow hother
              exact hcourse
          rw [if_neg happrove]
          by_cases hreject : request.method.bytes = ascii "approval.reject"
          · rw [if_pos hreject, handleAdminReject]
            split
            · rename_i e hrejected
              exact .refused hplane hadmin (.reject hreject hid hrejected)
            · rename_i ref' hrejected
              obtain ⟨ref, hfind, hother, rfl⟩ := anythingApprovalReject_eq_ok.mp hrejected
              have haddr : Addresses config approvals input (ascii "approval.reject") ref :=
                ⟨hplane, hadmin, request, requestId, hparse, hreject, hid, hfind⟩
              have hcourse := Course.rejected hreject haddr hother
              exact hcourse
          rw [if_neg hreject]
          exact .refused hplane hadmin
            (.unknownMethod hid (by simp [hlist, hexecute, happrove, hreject]))

/-- Serving a parsed request takes one of the courses. -/
theorem course (config : Config) (approvals : ApprovalStore)
    (hparse : anythingRpcParse input.body = .ok request) :
    Course config approvals input request (handleRequest config approvals input) := by
  unfold handleRequest
  cases hplane : input.plane with
  | tool =>
      simp only [handleToolRequest, hparse]
      exact course_tool hplane
  | admin => exact course_admin hplane hparse

end AnythingTool
