import AnythingTool.Config.Basic
import AnythingTool.Rpc.Parse
import AnythingTool.Rpc.Respond

/-!
# Policy and approvals

`anything_policy_preflight` and the approval store. A pointer to a pending
request is a `PendingRef`, the slot it points to with the request found there, or
`none` for `NULL`. An operation that writes through a pointer returns the ref with
the request it leaves behind, and `ApprovalStore.write` puts it into its slot.
`now` is what `time(NULL)` returns. The store never removes a request, so a slot
keeps its meaning.
-/

namespace AnythingTool

open CText

/-- `anything_policy_decision` -/
inductive PolicyDecision
  | deny
  | approvalRequired
  | allow
deriving DecidableEq, Repr

/-- `anything_policy_result` -/
structure PolicyResult where
  decision : PolicyDecision
  risk : CString 16
  requestHash : UInt64
  summary : CString 256
  reason : CString 128
deriving DecidableEq

/-- `anything_policy_preflight`; the caller is not looked at. -/
def anythingPolicyPreflight (config : Config) (request : RpcRequest) : PolicyResult :=
  if request.method.bytes ≠ ascii "sys.info" then
    { decision := .deny
      risk := .snprintf 16 (ascii "denied")
      requestHash := request.requestHash
      summary := .snprintf 256 (ascii "Unknown method " ++ request.method.bytes)
      reason := .snprintf 128 (ascii "unknown_tool") }
  else if !config.capabilitySysRead then
    { decision := .deny
      risk := .snprintf 16 (ascii "denied")
      requestHash := request.requestHash
      summary :=
        .snprintf 256 (ascii "sys.info denied because capabilities.sys_read is disabled")
      reason := .snprintf 128 (ascii "policy_denied") }
  else
    { decision := .approvalRequired
      risk := .snprintf 16 (ascii "low")
      requestHash := request.requestHash
      summary := .snprintf 256 (ascii "Read Linux system information with sys.info")
      reason := .snprintf 128 (ascii "approval_required") }

@[simp] theorem anythingPolicyPreflight_requestHash (config : Config)
    (request : RpcRequest) :
    (anythingPolicyPreflight config request).requestHash = request.requestHash := by
  unfold anythingPolicyPreflight
  split_ifs <;> rfl

/-- The policy lets through `sys.info` alone, and only with the capability. -/
theorem anythingPolicyPreflight_ne_deny {config : Config} {request : RpcRequest} :
    (anythingPolicyPreflight config request).decision ≠ .deny ↔
      request.method.bytes = ascii "sys.info" ∧ config.capabilitySysRead = true := by
  unfold anythingPolicyPreflight
  split_ifs with hm hc
  · simp [hm]
  · simp_all
  · simp_all

/-- `anything_approval_status` -/
inductive ApprovalStatus
  | pending
  | granted
  | rejected
  | executed
deriving DecidableEq, Repr

/-- The number an enumerator is printed as. -/
def ApprovalStatus.code : ApprovalStatus → ℤ
  | .pending => 0
  | .granted => 1
  | .rejected => 2
  | .executed => 3

/-- `anything_pending_request` -/
structure PendingRequest where
  requestId : CString 40
  requestHash : UInt64
  requester : Identity
  approver : Identity
  sessionId : CString 64
  method : CString 64
  params : CString 1024
  risk : CString 16
  summary : CString 256
  expiresAt : ℤ
  status : ApprovalStatus
deriving DecidableEq

namespace PendingRequest

/-- The writes of a successful `anything_approval_grant`. -/
def grantedBy (e : PendingRequest) (approver : Identity) : PendingRequest :=
  { e with approver := approver, status := .granted }

/-- The writes of a successful `anything_approval_reject`. -/
def rejectedBy (e : PendingRequest) (approver : Identity) : PendingRequest :=
  { e with approver := approver, status := .rejected }

/-- `pending->status = ANYTHING_APPROVAL_EXECUTED` -/
def executed (e : PendingRequest) : PendingRequest := { e with status := .executed }

end PendingRequest

/-- `anything_approval_store`: the used slots and the next id. -/
structure ApprovalStore where
  pending : List PendingRequest
  nextId : ℕ
deriving DecidableEq

/-- `count` -/
def ApprovalStore.count (store : ApprovalStore) : ℕ := store.pending.length

/-- `anything_pending_request *`: a slot and the request in it. -/
structure PendingRef where
  slot : ℕ
  request : PendingRequest
deriving DecidableEq

/-- The store after a write through a pointer. -/
def ApprovalStore.write (store : ApprovalStore) (ref : PendingRef) : ApprovalStore :=
  { store with pending := store.pending.set ref.slot ref.request }

/-- `ANYTHING_APPROVAL_MAX_PENDING` -/
def approvalMaxPending : ℕ := 64

/-- `anything_approval_store_init` -/
def anythingApprovalStoreInit : ApprovalStore := ⟨[], 1⟩

/-- The request `anything_approval_add` writes into a fresh slot. -/
def newPending (nextId : ℕ) (request : RpcRequest) (policy : PolicyResult)
    (requester : Identity) (ttlSeconds now : ℤ) : PendingRequest where
  requestId := .snprintf 40 (ascii "req_" ++ formatNat nextId)
  requestHash := policy.requestHash
  requester := requester
  approver := ⟨0, 0, 0⟩
  sessionId := .snprintf 64 request.sessionId.bytes
  method := .snprintf 64 request.method.bytes
  params := .snprintf 1024 request.params.bytes
  risk := .snprintf 16 policy.risk.bytes
  summary := .snprintf 256 policy.summary.bytes
  expiresAt := now + ttlSeconds
  status := .pending

/-- `anything_approval_add`: the store with the new request, and where it is. -/
def anythingApprovalAdd (store : ApprovalStore) (request : RpcRequest)
    (policy : PolicyResult) (requester : Identity) (ttlSeconds now : ℤ) :
    Option (ApprovalStore × PendingRef) :=
  if store.count ≥ approvalMaxPending then none
  else
    let created := newPending store.nextId request policy requester ttlSeconds now
    some (⟨store.pending ++ [created], store.nextId + 1⟩, ⟨store.count, created⟩)

/-- `anything_approval_find`: the first slot with this id. -/
def anythingApprovalFind (store : ApprovalStore) (requestId : Bytes) : Option PendingRef :=
  match store.pending.findFinIdx? fun pending => pending.requestId.bytes = requestId with
  | none => none
  | some slot => some ⟨slot, store.pending[slot]⟩

/-- The error kinds of the approval operations. -/
inductive ApprovalError
  | approvalNotFound
  | approvalNotPending
  | approvalExpired
  | controlPlaneDenied
  | approvalRejected
  | approvalRequired
  | requestChanged
deriving DecidableEq, Repr

/-- The text `copy_error` writes. -/
def ApprovalError.kind : ApprovalError → Bytes
  | .approvalNotFound => ascii "approval_not_found"
  | .approvalNotPending => ascii "approval_not_pending"
  | .approvalExpired => ascii "approval_expired"
  | .controlPlaneDenied => ascii "control_plane_denied"
  | .approvalRejected => ascii "approval_rejected"
  | .approvalRequired => ascii "approval_required"
  | .requestChanged => ascii "request_changed"

/-- `anything_approval_grant` -/
def anythingApprovalGrant (pending : Option PendingRef) (approver : Identity) (now : ℤ) :
    Except ApprovalError PendingRef :=
  match pending with
  | none => .error .approvalNotFound
  | some ⟨slot, pending⟩ =>
      if pending.status ≠ .pending then .error .approvalNotPending
      else if now > pending.expiresAt then .error .approvalExpired
      else if anythingIdentitySame pending.requester approver then .error .controlPlaneDenied
      else .ok ⟨slot, pending.grantedBy approver⟩

/-- `anything_approval_reject` -/
def anythingApprovalReject (pending : Option PendingRef) (approver : Identity) :
    Except ApprovalError PendingRef :=
  match pending with
  | none => .error .approvalNotFound
  | some ⟨slot, pending⟩ =>
      if anythingIdentitySame pending.requester approver then .error .controlPlaneDenied
      else .ok ⟨slot, pending.rejectedBy approver⟩

/-- `anything_approval_validate_for_execute`: the request that may be executed. -/
def anythingApprovalValidateForExecute (pending : Option PendingRef)
    (currentHash : UInt64) (now : ℤ) : Except ApprovalError PendingRef :=
  match pending with
  | none => .error .approvalNotFound
  | some ⟨slot, pending⟩ =>
      if pending.status ≠ .granted then
        .error (if pending.status = .rejected then .approvalRejected else .approvalRequired)
      else if now > pending.expiresAt then .error .approvalExpired
      else if pending.requestHash ≠ currentHash then .error .requestChanged
      else .ok ⟨slot, pending⟩

/-- The text of one entry of the list. -/
def listEntryText (first : Bool) (p : PendingRequest) (requestId method : CString 128)
    (risk : CString 64) (summary : CString 512) : Bytes :=
  (if first then [] else ascii ",") ++ ascii "\x7b\"request_id\":\"" ++ requestId.bytes ++
    ascii "\",\"method\":\"" ++ method.bytes ++ ascii "\",\"risk\":\"" ++ risk.bytes ++
    ascii "\",\"status\":" ++ formatInt p.status.code ++ ascii ",\"summary\":\"" ++
    summary.bytes ++ ascii "\"\x7d"

/-- The loop of `anything_approval_list_json`. -/
def listLoop {n : ℕ} (out : CString n) (first : Bool) :
    List PendingRequest → Option (CString n)
  | [] => some out
  | p :: ps =>
      match anythingJsonEscapeString 128 p.requestId.bytes,
          anythingJsonEscapeString 128 p.method.bytes,
          anythingJsonEscapeString 64 p.risk.bytes,
          anythingJsonEscapeString 512 p.summary.bytes with
      | some requestId, some method, some risk, some summary =>
          match out.snprintfAt (listEntryText first p requestId method risk summary) with
          | none => none
          | some out' => listLoop out' false ps
      | _, _, _, _ => none

/-- `anything_approval_list_json` into a `char[n]`. -/
def anythingApprovalListJson (n : ℕ) [HasRoom n] (store : ApprovalStore) :
    Option (CString n) := do
  let out ← (CString.empty : CString n).snprintfAt (ascii "\x7b\"pending\":[")
  let out ← listLoop out true store.pending
  out.snprintfAt (ascii "]\x7d")

/-! ## What the operations do -/

theorem anythingApprovalAdd_eq_some {store store' : ApprovalStore} {request : RpcRequest}
    {policy : PolicyResult} {requester : Identity} {ttlSeconds now : ℤ} {ref : PendingRef} :
    anythingApprovalAdd store request policy requester ttlSeconds now =
        some (store', ref) ↔
      store.count < approvalMaxPending ∧
        ref = ⟨store.count, newPending store.nextId request policy requester ttlSeconds now⟩ ∧
        store' = ⟨store.pending ++ [ref.request], store.nextId + 1⟩ := by
  unfold anythingApprovalAdd
  by_cases hfull : store.count ≥ approvalMaxPending
  · rw [if_pos hfull]
    simp only [reduceCtorEq, false_iff]
    intro h
    omega
  · rw [if_neg hfull, Option.some.injEq, Prod.mk.injEq]
    constructor
    · intro h
      rw [← h.1, ← h.2]
      exact ⟨not_le.mp hfull, rfl, rfl⟩
    · intro h
      rw [h.2.2, h.2.1]
      exact ⟨rfl, rfl⟩

theorem anythingApprovalFind_eq_some {store : ApprovalStore} {requestId : Bytes}
    {ref : PendingRef} (h : anythingApprovalFind store requestId = some ref) :
    store.pending[ref.slot]? = some ref.request ∧
      ref.request.requestId.bytes = requestId := by
  unfold anythingApprovalFind at h
  split at h
  · cases h
  · rename_i slot hslot
    obtain rfl := Option.some.inj h
    have hfound := (List.findFinIdx?_eq_some_iff.mp hslot).1
    exact ⟨List.getElem?_eq_getElem slot.isLt, by simpa using hfound⟩

theorem anythingApprovalFind_eq_none {store : ApprovalStore} {requestId : Bytes}
    (h : anythingApprovalFind store requestId = none) :
    ∀ e ∈ store.pending, e.requestId.bytes ≠ requestId := by
  unfold anythingApprovalFind at h
  split at h
  · rename_i hnone
    intro e he
    simpa using List.findFinIdx?_eq_none_iff.mp hnone e he
  · cases h

theorem anythingApprovalGrant_eq_ok {pending : Option PendingRef} {approver : Identity}
    {now : ℤ} {ref' : PendingRef} :
    anythingApprovalGrant pending approver now = .ok ref' ↔
      ∃ ref, pending = some ref ∧ ref.request.status = .pending ∧
        now ≤ ref.request.expiresAt ∧ ref.request.requester ≠ approver ∧
        ref' = ⟨ref.slot, ref.request.grantedBy approver⟩ := by
  cases pending with
  | none => simp [anythingApprovalGrant]
  | some ref =>
      unfold anythingApprovalGrant
      simp only [anythingIdentitySame_iff]
      split_ifs with hs hn hr
      · simp [hs]
      · simp [hn]
      · simp [hr]
      · simp_all [eq_comm]

theorem anythingApprovalReject_eq_ok {pending : Option PendingRef} {approver : Identity}
    {ref' : PendingRef} :
    anythingApprovalReject pending approver = .ok ref' ↔
      ∃ ref, pending = some ref ∧ ref.request.requester ≠ approver ∧
        ref' = ⟨ref.slot, ref.request.rejectedBy approver⟩ := by
  cases pending with
  | none => simp [anythingApprovalReject]
  | some ref =>
      unfold anythingApprovalReject
      simp only [anythingIdentitySame_iff]
      split_ifs with hr
      · simp [hr]
      · simp_all [eq_comm]

theorem anythingApprovalValidateForExecute_eq_ok {pending : Option PendingRef}
    {currentHash : UInt64} {now : ℤ} {ref' : PendingRef} :
    anythingApprovalValidateForExecute pending currentHash now = .ok ref' ↔
      pending = some ref' ∧ ref'.request.status = .granted ∧
        now ≤ ref'.request.expiresAt ∧ ref'.request.requestHash = currentHash := by
  cases pending with
  | none => simp [anythingApprovalValidateForExecute]
  | some ref =>
      unfold anythingApprovalValidateForExecute
      simp only [Option.some.injEq]
      constructor
      · intro h
        split_ifs at h with hs hn hh
        obtain rfl := Except.ok.inj h
        exact ⟨rfl, not_not.mp hs, not_lt.mp hn, not_not.mp hh⟩
      · intro h
        obtain ⟨rfl, hs, hn, hh⟩ := h
        rw [if_neg (not_not.mpr hs), if_neg (not_lt.mpr hn), if_neg (not_not.mpr hh)]

end AnythingTool
