import AnythingTool.Daemon.Approval

/-!
# The audit log and the system information tool

The two effects of the daemon on the system around it. What the system answers
is data: an `AuditOutcome` says how the system calls of one
`anything_audit_write_event` ended, an `OsReading` what `uname` and the two files
of `anything_sys_info_json` gave. An audit write reports whether it returned `0`
and what it appended to the log file, which after a failure in the middle is a
part of a line.
-/

namespace AnythingTool

open CText

/-- `k_audit_contract_events` -/
inductive AuditEventKind
  | requestReceived
  | preflightDenied
  | approvalRequired
  | approvalGranted
  | approvalRejected
  | executionStarted
  | executionFinished
  | executionFailed
deriving DecidableEq, Repr

def AuditEventKind.text : AuditEventKind → Bytes
  | .requestReceived => ascii "request_received"
  | .preflightDenied => ascii "preflight_denied"
  | .approvalRequired => ascii "approval_required"
  | .approvalGranted => ascii "approval_granted"
  | .approvalRejected => ascii "approval_rejected"
  | .executionStarted => ascii "execution_started"
  | .executionFinished => ascii "execution_finished"
  | .executionFailed => ascii "execution_failed"

/-- The arguments of one `anything_audit_write_event`. -/
structure AuditEvent where
  event : AuditEventKind
  requestId : Bytes
  sessionId : Bytes
  caller : Identity
  approver : Option Identity
  method : Bytes
  risk : Bytes
  decision : Bytes
  errorKind : Bytes
  paramsSummary : Bytes
  durationMs : ℤ
deriving DecidableEq

/-- How the system calls of one audit write end: opening the log as a regular
file, the formatted time, the three `dprintf` calls and `close`. -/
structure AuditOutcome where
  opened : Bool
  timestamp : CString 32
  headWritten : Bool
  approverWritten : Bool
  tailWritten : Bool
  closed : Bool

/-- The escaped fields of an event. -/
structure EscapedEvent where
  event : CString 64
  requestId : CString 128
  sessionId : CString 128
  method : CString 128
  risk : CString 64
  decision : CString 64
  errorKind : CString 128
  paramsSummary : CString 512

def escapeEvent (e : AuditEvent) : Option EscapedEvent := do
  let event ← anythingJsonEscapeString 64 e.event.text
  let requestId ← anythingJsonEscapeString 128 e.requestId
  let sessionId ← anythingJsonEscapeString 128 e.sessionId
  let method ← anythingJsonEscapeString 128 e.method
  let risk ← anythingJsonEscapeString 64 e.risk
  let decision ← anythingJsonEscapeString 64 e.decision
  let errorKind ← anythingJsonEscapeString 128 e.errorKind
  let paramsSummary ← anythingJsonEscapeString 512 e.paramsSummary
  return ⟨event, requestId, sessionId, method, risk, decision, errorKind, paramsSummary⟩

/-- An identity as a JSON object. -/
def identityText (identity : Identity) : Bytes :=
  ascii "\x7b\"uid\":" ++ formatInt identity.uid.toNat ++ ascii ",\"gid\":" ++
    formatInt identity.gid.toNat ++ ascii ",\"pid\":" ++ formatInt identity.pid.toInt ++
    ascii "\x7d"

/-- The first `dprintf` of an event. -/
def headText (timestamp : CString 32) (f : EscapedEvent) (caller : Identity) : Bytes :=
  ascii "\x7b\"timestamp\":\"" ++ timestamp.bytes ++ ascii "\",\"event\":\"" ++
    f.event.bytes ++ ascii "\",\"request_id\":\"" ++ f.requestId.bytes ++
    ascii "\",\"session_id\":\"" ++ f.sessionId.bytes ++ ascii "\",\"caller\":" ++
    identityText caller ++ ascii ","

/-- The second one, made only when there is an approver. -/
def approverText (approver : Identity) : Bytes :=
  ascii "\"approver\":" ++ identityText approver ++ ascii ","

/-- The last one. -/
def tailText (f : EscapedEvent) (durationMs : ℤ) : Bytes :=
  ascii "\"method\":\"" ++ f.method.bytes ++ ascii "\",\"risk\":\"" ++ f.risk.bytes ++
    ascii "\",\"decision\":\"" ++ f.decision.bytes ++ ascii "\",\"error_kind\":\"" ++
    f.errorKind.bytes ++ ascii "\",\"duration_ms\":" ++ formatInt durationMs ++
    ascii ",\"params_summary\":\"" ++ f.paramsSummary.bytes ++ ascii "\"\x7d\n"

/-- `failed = failed || dprintf(...) < 0`: a write is not tried after a failed one,
and appends nothing when it fails itself. -/
def tryWrite (failed written : Bool) (text : Bytes) : Bool × Bytes :=
  if failed || !written then (true, []) else (false, text)

/-- `anything_audit_write_event`: whether it returned `0`, and what it appended. -/
def anythingAuditWriteEvent (o : AuditOutcome) (e : AuditEvent) : Bool × Bytes :=
  if !o.opened then (false, [])
  else
    match escapeEvent e with
    | none => (false, [])
    | some f =>
        let head := tryWrite false o.headWritten (headText o.timestamp f e.caller)
        let approver :=
          match e.approver with
          | none => (head.1, [])
          | some approver => tryWrite head.1 o.approverWritten (approverText approver)
        let tail := tryWrite approver.1 o.tailWritten (tailText f e.durationMs)
        (!(tail.1 || !o.closed), head.2 ++ approver.2 ++ tail.2)

/-! ## The system information tool -/

/-- `struct utsname`, as far as the tool reads it. -/
structure Utsname where
  nodename : CString 65
  release : CString 65
  machine : CString 65

/-- What the system gives the tool: `uname`, and the two files it opens. -/
structure OsReading where
  uname : Option Utsname
  procUptime : Option Bytes
  osRelease : Option Bytes

/-- `strip_newline` -/
def stripNewline (text : Bytes) : Bytes :=
  (text.reverse.dropWhile fun c => c = newline ∨ c = 0x0D).reverse

/-- `read_first_line` into a `char[n]`. -/
def readFirstLine (n : ℕ) [HasRoom n] (file : Option Bytes) : CString n :=
  match file with
  | none => .snprintf n (ascii "unknown")
  | some content =>
      match fgets n content with
      | none => .snprintf n (stripNewline (ascii "unknown"))
      | some (line, _) => .snprintf n (stripNewline (cstr line))

/-- The formatted result of the tool. -/
def sysInfoText (hostname kernel osRelease uptime arch : Bytes) : Bytes :=
  ascii "\x7b\"version\":\"v0.1.1\",\"hostname\":\"" ++ hostname ++
    ascii "\",\"kernel_version\":\"" ++ kernel ++ ascii "\",\"os_release\":\"" ++ osRelease ++
    ascii "\",\"uptime\":\"" ++ uptime ++ ascii "\",\"architecture\":\"" ++ arch ++
    ascii "\"\x7d"

/-- `anything_sys_info_json` into a `char[2048]`, with its error text. -/
def anythingSysInfoJson (os : OsReading) : Except (CString 128) (CString 2048) :=
  match os.uname with
  | none => .error (.snprintf 128 (ascii "uname failed"))
  | some uts =>
      match anythingJsonEscapeString 256 uts.nodename.bytes,
          anythingJsonEscapeString 256 uts.release.bytes,
          anythingJsonEscapeString 512 (readFirstLine 256 os.osRelease).bytes,
          anythingJsonEscapeString 128 (readFirstLine 64 os.procUptime).bytes,
          anythingJsonEscapeString 128 uts.machine.bytes with
      | some hostname, some kernel, some osRelease, some uptime, some arch =>
          let text := sysInfoText hostname.bytes kernel.bytes osRelease.bytes uptime.bytes
            arch.bytes
          if text.length ≥ 2048 then
            .error (.snprintf 128 (ascii "sys.info output exceeded buffer"))
          else .ok (.snprintf 2048 text)
      | _, _, _, _, _ => .error (.snprintf 128 (ascii "sys.info JSON escaping failed"))

end AnythingTool
