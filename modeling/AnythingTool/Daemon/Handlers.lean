import AnythingTool.Daemon.Audit
import AnythingTool.Library.Machine

/-!
# The two request handlers

`handle_tool_request` and `handle_admin_request` on one request body. What the
system answers while the request is served is an `Env`: the clock, how each audit
write of the request ends in the order the handler makes them, and what the
system information tool reads. A handler leaves the store behind together with
the list of its effects in the order they happen.

Three effects record a write to the store that is not otherwise visible:
`added`, `granted` and `rejected` stand where `anything_approval_add`,
`anything_approval_grant` and `anything_approval_reject` return `0`. `sysInfo`
stands where `anything_sys_info_json` is called for the request in a slot. Every
effect names the slot it is about.

A step of the daemon serves one request on one of its two sockets.
-/

namespace AnythingTool

open CText

/-- What the system answers during one request. -/
structure Env where
  now : ℤ
  audit : ℕ → AuditOutcome
  os : OsReading

/-- One call of `anything_audit_write_event`: whether it returned `0` and what it
appended to the log file. -/
structure AuditWrite where
  event : AuditEvent
  ok : Bool
  appended : Bytes
deriving DecidableEq

/-- What a handler does, apart from moving the store. -/
inductive Effect
  | audit (write : AuditWrite)
  | added (slot : ℕ)
  | granted (slot : ℕ) (approver : Identity)
  | rejected (slot : ℕ) (approver : Identity)
  | sysInfo (slot : ℕ) (result : Except (CString 128) (CString 2048))
  | reply (response : Option (CString 4096))
deriving DecidableEq

/-- What a handler leaves behind. -/
structure Handled where
  approvals : ApprovalStore
  effects : List Effect
deriving DecidableEq

/-- An effect before everything else a handler still does. -/
def emit (effect : Effect) (rest : Handled) : Handled :=
  ⟨rest.approvals, effect :: rest.effects⟩

/-- `anything_transport_write_response` of the buffer a builder filled. -/
def writeResponse (built : Option (ℕ × CString 4096)) : Effect :=
  .reply (built.map Prod.snd)

/-- `anything_rpc_error` and the write of the response. -/
def errorResponse (id : Bytes) (code : ℤ) (kind message data : Bytes) : Effect :=
  writeResponse (anythingRpcError 4096 (some id) code kind message data)

/-- `anything_rpc_result` and the write of the response. -/
def resultResponse (id jsonResult : Bytes) : Effect :=
  writeResponse (anythingRpcResult 4096 id jsonResult)

/-- `send_invalid` -/
def sendInvalid (id kind message : Bytes) : Effect :=
  errorResponse id (-32600) kind message []

/-- The audit write that ends in this way. -/
def auditWrite (outcome : AuditOutcome) (event : AuditEvent) : AuditWrite :=
  let (ok, appended) := anythingAuditWriteEvent outcome event
  ⟨event, ok, appended⟩

/-- `checked_audit`: after a failed write the caller returns at once, and leaves the
store as it is then. -/
def checkedAudit (outcome : AuditOutcome) (event : AuditEvent) (rpcId : Bytes)
    (approvals : ApprovalStore) (next : Handled) : Handled :=
  let write := auditWrite outcome event
  emit (.audit write) <|
    if write.ok then next
    else
      ⟨approvals, [errorResponse rpcId (-32050) (ascii "audit_failed")
        (ascii "audit write failed") []]⟩

/-- An audit event about a request that has no id yet. -/
def requestEvent (event : AuditEventKind) (request : RpcRequest) (caller : Identity)
    (risk decision errorKind paramsSummary : Bytes) : AuditEvent :=
  { event := event
    requestId := []
    sessionId := request.sessionId.bytes
    caller := caller
    approver := none
    method := request.method.bytes
    risk := risk
    decision := decision
    errorKind := errorKind
    paramsSummary := paramsSummary
    durationMs := 0 }

/-- An audit event about a stored request. -/
def pendingEvent (event : AuditEventKind) (pending : PendingRequest) (caller : Identity)
    (approver : Option Identity) (decision errorKind paramsSummary : Bytes) : AuditEvent :=
  { event := event
    requestId := pending.requestId.bytes
    sessionId := pending.sessionId.bytes
    caller := caller
    approver := approver
    method := pending.method.bytes
    risk := pending.risk.bytes
    decision := decision
    errorKind := errorKind
    paramsSummary := paramsSummary
    durationMs := 0 }

/-- The event written once a tool request is stored. -/
def approvalRequiredEvent (pending : PendingRequest) (caller : Identity) : AuditEvent :=
  pendingEvent .approvalRequired pending caller none (ascii "approval_required") []
    pending.summary.bytes

/-- The event written once an admin has granted a request. -/
def approvalGrantedEvent (pending : PendingRequest) (admin : Identity) : AuditEvent :=
  pendingEvent .approvalGranted pending pending.requester (some admin) (ascii "granted") []
    pending.summary.bytes

/-- The event written before the tool runs. -/
def executionStartedEvent (pending : PendingRequest) (admin : Identity) : AuditEvent :=
  pendingEvent .executionStarted pending pending.requester (some admin) (ascii "started") []
    pending.summary.bytes

/-- The event written once the tool has run. -/
def executionFinishedEvent (pending : PendingRequest) (admin : Identity) : AuditEvent :=
  pendingEvent .executionFinished pending pending.requester (some admin) (ascii "finished") []
    pending.summary.bytes

/-- The extra fields of the answer to a stored request. -/
def approvalRequiredData (requestId : CString 128) (risk : CString 64)
    (summary : CString 512) (expiresAt : ℤ) : CString 768 :=
  .snprintf 768 (ascii ",\"request_id\":\"" ++ requestId.bytes ++ ascii "\",\"risk\":\"" ++
    risk.bytes ++ ascii "\",\"summary\":\"" ++ summary.bytes ++ ascii "\",\"expires_at\":" ++
    formatInt expiresAt)

/-- The end of `handle_tool_request`, once the request is stored. -/
def answerPending (env : Env) (caller : Identity) (request : RpcRequest)
    (approvals : ApprovalStore) (pending : PendingRequest) : Handled :=
  let id := request.id.bytes
  match anythingJsonEscapeString 128 pending.requestId.bytes,
      anythingJsonEscapeString 64 pending.risk.bytes,
      anythingJsonEscapeString 512 pending.summary.bytes with
  | some requestId, some risk, some summary =>
      let data := approvalRequiredData requestId risk summary pending.expiresAt
      checkedAudit (env.audit 1) (approvalRequiredEvent pending caller) id approvals
        ⟨approvals, [errorResponse id (-32010) (ascii "approval_required")
          (ascii "approval required") data.bytes]⟩
  | _, _, _ =>
      ⟨approvals, [errorResponse id (-32000) (ascii "resource_limit")
        (ascii "approval response too large") []]⟩

/-- `handle_tool_request` after its first audit write. -/
def routeToolRequest (config : Config) (approvals : ApprovalStore) (env : Env)
    (caller : Identity) (request : RpcRequest) : Handled :=
  let id := request.id.bytes
  if strncmpEq request.method.bytes (ascii "approval.") 9 then
    checkedAudit (env.audit 1)
      (requestEvent .preflightDenied request caller (ascii "denied") (ascii "deny")
        (ascii "control_plane_denied")
        (ascii "agent tool socket cannot access approval methods"))
      id approvals
      ⟨approvals, [errorResponse id (-32040) (ascii "control_plane_denied")
        (ascii "approval methods require admin socket") []]⟩
  else
    let policy := anythingPolicyPreflight config request
    if policy.decision = .deny then
      checkedAudit (env.audit 1)
        (requestEvent .preflightDenied request caller policy.risk.bytes (ascii "deny")
          policy.reason.bytes policy.summary.bytes)
        id approvals
        ⟨approvals, [errorResponse id (-32020) policy.reason.bytes (ascii "policy denied") []]⟩
    else if request.method.bytes ≠ ascii "sys.info" then
      ⟨approvals, [errorResponse id (-32601) (ascii "unknown_tool") (ascii "unknown method") []]⟩
    else
      match anythingApprovalAdd approvals request policy caller config.approvalTtlSeconds
          env.now with
      | none =>
          ⟨approvals, [errorResponse id (-32000) (ascii "resource_limit")
            (ascii "approval store full") []]⟩
      | some (approvals, pending) =>
          emit (.added pending.slot)
            (answerPending env caller request approvals pending.request)

/-- `handle_tool_request` -/
def handleToolRequest (config : Config) (approvals : ApprovalStore) (env : Env)
    (caller : Identity) (body : Bytes) : Handled :=
  match anythingRpcParse body with
  | .error e => ⟨approvals, [sendInvalid (ascii "null") (ascii "invalid_request") e.message]⟩
  | .ok request =>
      checkedAudit (env.audit 0)
        (requestEvent .requestReceived request caller [] (ascii "received") []
          (ascii "bounded request"))
        request.id.bytes approvals
        (routeToolRequest config approvals env caller request)

/-- `pending_to_request` -/
def pendingToRequest (pending : PendingRequest) : RpcRequest :=
  let method : CString 64 := .snprintf 64 pending.method.bytes
  let params : CString 1024 := .snprintf 1024 pending.params.bytes
  let sessionId : CString 64 := .snprintf 64 pending.sessionId.bytes
  { id := .snprintf 64 pending.requestId.bytes
    method := method
    sessionId := sessionId
    params := params
    requestHash := anythingRpcHashRequest method.bytes params.bytes sessionId.bytes }

/-- The end of `handle_admin_execute`, once the tool has run. -/
def reportRun (approvals : ApprovalStore) (env : Env) (admin : Identity) (id : Bytes)
    (pending : PendingRef) (result : Except (CString 128) (CString 2048)) : Handled :=
  let e := pending.request
  match result with
  | .error sysError =>
      checkedAudit (env.audit 1)
        (pendingEvent .executionFailed e e.requester (some admin) (ascii "failed")
          (ascii "execution_failed") sysError.bytes)
        id approvals
        ⟨approvals, [errorResponse id (-32030) (ascii "execution_failed") sysError.bytes []]⟩
  | .ok result =>
      let approvals := approvals.write ⟨pending.slot, e.executed⟩
      checkedAudit (env.audit 1) (executionFinishedEvent e admin) id approvals
        ⟨approvals, [resultResponse id result.bytes]⟩

/-- The part of `handle_admin_execute` that runs the tool. -/
def executePending (approvals : ApprovalStore) (env : Env) (admin : Identity) (id : Bytes)
    (pending : PendingRef) : Handled :=
  let result := anythingSysInfoJson env.os
  checkedAudit (env.audit 0) (executionStartedEvent pending.request admin) id approvals <|
    emit (.sysInfo pending.slot result) (reportRun approvals env admin id pending result)

/-- `handle_admin_execute` -/
def handleAdminExecute (config : Config) (approvals : ApprovalStore) (env : Env)
    (admin : Identity) (request : RpcRequest) : Handled :=
  let id := request.id.bytes
  match anythingRpcExtractParamString 40 request.params.bytes (ascii "request_id") with
  | none =>
      ⟨approvals, [errorResponse id (-32602) (ascii "invalid_params")
        (ascii "request_id is required") []]⟩
  | some requestId =>
      let pending := anythingApprovalFind approvals requestId.bytes
      let currentHash :=
        match pending with
        | some pending => (pendingToRequest pending.request).requestHash
        | none => 0
      match anythingApprovalValidateForExecute pending currentHash env.now with
      | .error e =>
          ⟨approvals, [errorResponse id (-32011) e.kind (ascii "approval cannot execute") []]⟩
      | .ok pending =>
          let recheck := anythingPolicyPreflight config (pendingToRequest pending.request)
          if recheck.decision = .deny ∨ recheck.requestHash ≠ pending.request.requestHash then
            ⟨approvals, [errorResponse id (-32021) (ascii "policy_denied")
              (ascii "policy recheck failed") []]⟩
          else executePending approvals env admin id pending

/-- The `approval.approve` branch of `handle_admin_request`. -/
def handleAdminApprove (approvals : ApprovalStore) (env : Env) (admin : Identity)
    (id : Bytes) (pending : Option PendingRef) : Handled :=
  match anythingApprovalGrant pending admin env.now with
  | .error e => ⟨approvals, [errorResponse id (-32012) e.kind (ascii "approval denied") []]⟩
  | .ok pending =>
      let approvals := approvals.write pending
      emit (.granted pending.slot admin) <|
        checkedAudit (env.audit 0) (approvalGrantedEvent pending.request admin) id approvals
          ⟨approvals, [resultResponse id (ascii "\x7b\"approved\":true\x7d")]⟩

/-- The `approval.reject` branch of `handle_admin_request`. -/
def handleAdminReject (approvals : ApprovalStore) (env : Env) (admin : Identity)
    (id : Bytes) (pending : Option PendingRef) : Handled :=
  match anythingApprovalReject pending admin with
  | .error e =>
      ⟨approvals, [errorResponse id (-32013) e.kind (ascii "approval rejection failed") []]⟩
  | .ok pending =>
      let approvals := approvals.write pending
      let e := pending.request
      emit (.rejected pending.slot admin) <|
        checkedAudit (env.audit 0)
          (pendingEvent .approvalRejected e e.requester (some admin) (ascii "rejected") []
            e.summary.bytes)
          id approvals
          ⟨approvals, [resultResponse id (ascii "\x7b\"rejected\":true\x7d")]⟩

/-- `handle_admin_request` for a peer that is an admin. -/
def routeAdminRequest (config : Config) (approvals : ApprovalStore) (env : Env)
    (admin : Identity) (request : RpcRequest) : Handled :=
  let id := request.id.bytes
  if request.method.bytes = ascii "approval.list" then
    match anythingApprovalListJson 4096 approvals with
    | none =>
        ⟨approvals, [errorResponse id (-32000) (ascii "resource_limit")
          (ascii "pending list too large") []]⟩
    | some result => ⟨approvals, [resultResponse id result.bytes]⟩
  else if request.method.bytes = ascii "approval.execute" then
    handleAdminExecute config approvals env admin request
  else
    match anythingRpcExtractParamString 40 request.params.bytes (ascii "request_id") with
    | none =>
        ⟨approvals, [errorResponse id (-32602) (ascii "invalid_params")
          (ascii "request_id is required") []]⟩
    | some requestId =>
        let pending := anythingApprovalFind approvals requestId.bytes
        if request.method.bytes = ascii "approval.approve" then
          handleAdminApprove approvals env admin id pending
        else if request.method.bytes = ascii "approval.reject" then
          handleAdminReject approvals env admin id pending
        else
          ⟨approvals, [errorResponse id (-32601) (ascii "unknown_tool")
            (ascii "unknown admin method") []]⟩

/-- `handle_admin_request` -/
def handleAdminRequest (config : Config) (approvals : ApprovalStore) (env : Env)
    (admin : Identity) (body : Bytes) : Handled :=
  match anythingRpcParse body with
  | .error e => ⟨approvals, [sendInvalid (ascii "null") (ascii "invalid_request") e.message]⟩
  | .ok request =>
      if !anythingConfigIdentityIsAdmin config admin then
        checkedAudit (env.audit 0)
          (requestEvent .preflightDenied request admin (ascii "denied") (ascii "deny")
            (ascii "control_plane_denied") (ascii "admin caller is not in allowlist"))
          request.id.bytes approvals
          ⟨approvals, [errorResponse request.id.bytes (-32040) (ascii "control_plane_denied")
            (ascii "admin caller is not authorized") []]⟩
      else routeAdminRequest config approvals env admin request

/-! ## The daemon -/

/-- `anything_socket_plane` -/
inductive SocketPlane
  | tool
  | admin
deriving DecidableEq, Repr

/-- One request: the socket it came from, its peer, its body, and what the system
answers while it is served. -/
structure Input where
  plane : SocketPlane
  peer : Identity
  body : Bytes
  env : Env

/-- `daemon_state`, and the audit writes made so far. -/
structure DaemonState where
  config : Config
  approvals : ApprovalStore
  auditLog : List AuditWrite
deriving DecidableEq

/-- The audit writes among some effects, in order. -/
def auditWrites (effects : List Effect) : List AuditWrite :=
  effects.filterMap fun effect =>
    match effect with
    | .audit write => some write
    | _ => none

/-- The dispatch at the end of `accept_one`. -/
def handleRequest (config : Config) (approvals : ApprovalStore) (input : Input) : Handled :=
  match input.plane with
  | .tool => handleToolRequest config approvals input.env input.peer input.body
  | .admin => handleAdminRequest config approvals input.env input.peer input.body

/-- The state after a request. -/
def DaemonState.after (state : DaemonState) (handled : Handled) : DaemonState :=
  ⟨state.config, handled.approvals, state.auditLog ++ auditWrites handled.effects⟩

/-- The daemon under a configuration, from an empty store. -/
def daemon (config : Config) : Transition.Machine DaemonState Input (List Effect) where
  init := ⟨config, anythingApprovalStoreInit, []⟩
  step state input :=
    let handled := handleRequest state.config state.approvals input
    (state.after handled, handled.effects)

/-! ## A small installation

The configuration, the peers and the requests of the concrete runs below. -/

namespace Sample

def config : Config :=
  { anythingConfigInit with capabilitySysRead := true, adminAllowedUids := [1000] }

/-- An audit write in which every system call succeeds. -/
def written : AuditOutcome :=
  ⟨true, .snprintf 32 (ascii "2026-07-14T00:00:00Z"), true, true, true, true⟩

/-- An audit write whose log file cannot be opened. -/
def notOpened : AuditOutcome := { written with opened := false }

def os : OsReading :=
  { uname := some ⟨.snprintf 65 (ascii "host"), .snprintf 65 (ascii "6.1"),
      .snprintf 65 (ascii "x86_64")⟩
    procUptime := some (ascii "12.5 3.0\n")
    osRelease := some (ascii "NAME=Linux\n") }

def env (outcome : AuditOutcome) : Env := ⟨100, fun _ => outcome, os⟩

def agent : Identity := ⟨1000, 1000, 7⟩

def operator : Identity := ⟨1000, 1000, 8⟩

def body (method params : String) : Bytes :=
  ascii "\x7b\"jsonrpc\":\"2.0\",\"id\":\"1\",\"method\":\"" ++ ascii method ++
    ascii "\",\"params\":" ++ ascii params ++ ascii "\x7d\n"

/-- The agent asks for the system information. -/
def ask (outcome : AuditOutcome) : Input :=
  ⟨.tool, agent, body "sys.info" "\x7b\x7d", env outcome⟩

/-- An admin's request about the first stored request. -/
def ruling (peer : Identity) (method : String) (outcome : AuditOutcome) : Input :=
  ⟨.admin, peer, body method "\x7b\"request_id\":\"req_1\"\x7d", env outcome⟩

end Sample

end AnythingTool
