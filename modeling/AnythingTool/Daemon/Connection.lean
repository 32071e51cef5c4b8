import AnythingTool.Daemon.Replies
import AnythingTool.Library.CheckedHandles
import AnythingTool.Rpc.Sending
import AnythingTool.Rpc.Transport

/-!
# One connection

`accept_one` with the descriptors and the buffer it takes, on what the system answers while
the connection is served. `arrival` says how far a connection gets before its request is
handled, and `served` what it leaves behind. The code does just that and gives back all it
took (`acceptOne_run`): it never uses a descriptor that is not open, never closes one twice
and never sends a response that no builder has filled.

When the peer has closed the connection the response kills the process, whose descriptors
are then closed by the system.
-/

namespace AnythingTool

open CText JsonText CheckedHandles

/-- A descriptor, or a block of memory. -/
inductive Handle
  | fd (n : ℕ)
  | block (n : ℕ)
deriving DecidableEq

/-- How the system gives out descriptors and memory. -/
structure Allocators where
  fds : Allocator Handle
  blocks : Allocator Handle

/-- What the system answers while one connection is accepted and served: the identity of the
peer and the receive timeout, or the text of the error, the memory, the calls of `read` and
the time after them, what the handler asks, which audit logs are open but no regular files,
and the calls of `write`. -/
structure Connection where
  accepted : Bool
  peer : Except Bytes Identity
  timeout : Except Bytes Unit
  allocated : Bool
  reads : List ReadCall
  elapsedMs : ℤ
  env : Env
  irregular : ℕ → Bool
  writes : List WriteResult

/-! ## The code -/

section Code

variable (os : Allocators)

/-- The descriptor of `anything_audit_write_event`, which every way out of it closes. -/
def auditCalls (outcome : AuditOutcome) (irregular : Bool) (event : AuditEvent) :
    Sys Handle Unit := do
  if !outcome.opened then
    -- a file that cannot be opened, or one that `fstat` finds to be no regular file
    if irregular then do
      let fd ← acquire os.fds
      use fd
      release fd
    else pure ()
  else do
    let fd ← acquire os.fds
    use fd
    match escapeEvent event with
    | none => release fd
    | some _ => do
        use fd
        release fd

/-- `fopen`, `fgets` and `fclose` in `read_first_line`. -/
def readFirstLineCalls (file : Option Bytes) : Sys Handle Unit :=
  match file with
  | none => pure ()
  | some _ => do
      let fd ← acquire os.fds
      use fd
      release fd

/-- The descriptors of `anything_sys_info_json`. -/
def sysInfoCalls (reading : OsReading) : Sys Handle Unit :=
  match reading.uname with
  | none => pure ()
  | some _ => do
      readFirstLineCalls os reading.procUptime
      readFirstLineCalls os reading.osRelease

/-- `anything_transport_write_response` of the response buffer. -/
def respond (fd : Handle) (response : Option (CString 4096)) (writes : List WriteResult) :
    Sys Handle Sent := do
  let response ← filled response
  use fd
  let sent := anythingTransportWriteResponse response.bytes writes
  if sent.ending = .killed then abandon
  pure sent

/-- The calls a handler makes for its effects. The response is the last of them. -/
def perform (fd : Handle) (c : Connection) : ℕ → List Effect → Sys Handle Sent
  | _, [] => pure ⟨[], .complete⟩
  | k, .audit write :: effects => do
      auditCalls os (c.env.audit k) (c.irregular k) write.event
      perform fd c (k + 1) effects
  | k, .sysInfo _ _ :: effects => do
      sysInfoCalls os c.env.os
      perform fd c k effects
  | _, .reply response :: _ => respond fd response c.writes
  | k, .added _ :: effects => perform fd c k effects
  | k, .granted _ _ :: effects => perform fd c k effects
  | k, .rejected _ _ :: effects => perform fd c k effects

/-- What the process frees and closes behind a response, unless it was killed there. -/
def hangUp (sent : Sent) (handles : List Handle) : Sys Handle Unit :=
  if sent.ending = .killed then pure () else handles.forM release

/-- What serving a connection leaves behind. -/
structure Served where
  approvals : ApprovalStore
  effects : List Effect
  sent : Sent

/-- A text written into `char error[256]`. -/
def errorText (text : Bytes) : Bytes := (CString.snprintf 256 text).bytes

/-- The effect of `send_invalid` in `accept_one`. -/
def refusal (kind message : Bytes) : Effect := sendInvalid (ascii "null") kind message

/-- `send_invalid`, and the way out behind it. -/
def refuse (fd : Handle) (handles : List Handle) (approvals : ApprovalStore) (c : Connection)
    (kind message : Bytes) : Sys Handle Served := do
  let sent ← perform os fd c 0 [refusal kind message]
  hangUp sent handles
  pure ⟨approvals, [refusal kind message], sent⟩

/-- `accept_one` -/
def acceptOne (config : Config) (approvals : ApprovalStore) (listenFd : Handle)
    (plane : SocketPlane) (c : Connection) : Sys Handle Served := do
  use listenFd
  if !c.accepted then pure ⟨approvals, [], ⟨[], .complete⟩⟩
  else do
    let fd ← acquire os.fds
    use fd
    match c.peer with
    | .error errno =>
        refuse os fd [fd] approvals c (ascii "control_plane_denied")
          (errorText (ascii "SO_PEERCRED failed: " ++ errno))
    | .ok peer => do
        use fd
        match c.timeout with
        | .error errno =>
            refuse os fd [fd] approvals c (ascii "resource_limit")
              (errorText (ascii "SO_RCVTIMEO failed: " ++ errno))
        | .ok () =>
            if !c.allocated then
              refuse os fd [fd] approvals c (ascii "resource_limit") (ascii "allocation failed")
            else do
              let buffer ← acquire os.blocks
              use fd
              match anythingTransportReadRequest config.maxRequestBytes config.readTimeoutMs
                  c.reads c.elapsedMs with
              | .error e =>
                  refuse os fd [buffer, fd] approvals c (ascii "resource_limit")
                    (errorText e.message)
              | .ok body => do
                  let handled := handleRequest config approvals ⟨plane, peer, body, c.env⟩
                  let sent ← perform os fd c 0 handled.effects
                  hangUp sent [buffer, fd]
                  pure ⟨handled.approvals, handled.effects, sent⟩

end Code

/-! ## What it comes to -/

/-- How far a connection gets: it is not accepted, it is refused, or its request is read. -/
inductive Arrival
  | lost
  | refused (kind message : Bytes)
  | request (input : Input)

def arrival (config : Config) (plane : SocketPlane) (c : Connection) : Arrival :=
  if !c.accepted then .lost
  else
    match c.peer with
    | .error errno =>
        .refused (ascii "control_plane_denied")
          (errorText (ascii "SO_PEERCRED failed: " ++ errno))
    | .ok peer =>
        match c.timeout with
        | .error errno =>
            .refused (ascii "resource_limit")
              (errorText (ascii "SO_RCVTIMEO failed: " ++ errno))
        | .ok () =>
            if !c.allocated then .refused (ascii "resource_limit") (ascii "allocation failed")
            else
              match anythingTransportReadRequest config.maxRequestBytes config.readTimeoutMs
                  c.reads c.elapsedMs with
              | .error e => .refused (ascii "resource_limit") (errorText e.message)
              | .ok body => .request ⟨plane, peer, body, c.env⟩

/-- The response among some effects. -/
def responseOf : List Effect → Option (CString 4096)
  | [] => none
  | .reply response :: _ => response
  | _ :: effects => responseOf effects

/-- What is sent of it. -/
def sentOf (effects : List Effect) (writes : List WriteResult) : Sent :=
  match responseOf effects with
  | none => ⟨[], .complete⟩
  | some response => anythingTransportWriteResponse response.bytes writes

def served (config : Config) (approvals : ApprovalStore) (plane : SocketPlane)
    (c : Connection) : Served :=
  match arrival config plane c with
  | .lost => ⟨approvals, [], ⟨[], .complete⟩⟩
  | .refused kind message =>
      ⟨approvals, [refusal kind message], sentOf [refusal kind message] c.writes⟩
  | .request input =>
      let handled := handleRequest config approvals input
      ⟨handled.approvals, handled.effects, sentOf handled.effects c.writes⟩

theorem served_sent {config : Config} {approvals : ApprovalStore} {plane : SocketPlane}
    {c : Connection} (haccepted : c.accepted = true) :
    (served config approvals plane c).sent =
      sentOf (served config approvals plane c).effects c.writes := by
  rw [served]
  cases harrival : arrival config plane c with
  | lost =>
      rw [arrival, haccepted] at harrival
      simp only [Bool.not_true, Bool.false_eq_true, if_false] at harrival
      split at harrival
      · cases harrival
      · split at harrival
        · cases harrival
        · split_ifs at harrival
          split at harrival
          · cases harrival
          · cases harrival
  | refused kind message => rfl
  | request input => rfl

/-! ## Every request is answered once, at the end -/

/-- One response is written, last of all, and some builder has filled it. -/
def Replied (effects : List Effect) : Prop :=
  ∃ before buf, effects = before ++ [.reply (some buf)] ∧ ∀ r, .reply r ∉ before

theorem anythingRpcError_filled {id kind message : Bytes} (h : ErrorFits id kind message)
    (code : ℤ) (data : Bytes) :
    ∃ length buf, anythingRpcError 4096 (some id) code kind message data = some (length, buf) := by
  obtain ⟨escapedId, hid⟩ := (exists_anythingJsonEscapeString_iff h.id.1).mpr h.id.2
  obtain ⟨escapedKind, hkind⟩ := (exists_anythingJsonEscapeString_iff h.kind.1).mpr h.kind.2
  obtain ⟨escapedMessage, hmessage⟩ :=
    (exists_anythingJsonEscapeString_iff h.message.1).mpr h.message.2
  rw [anythingRpcError, Option.getD_some, hid, hkind, hmessage]
  exact ⟨_, _, rfl⟩

namespace Replied

theorem error {id kind message : Bytes} (h : ErrorFits id kind message) (code : ℤ)
    (data : Bytes) : Replied [errorResponse id code kind message data] := by
  obtain ⟨length, buf, hbuilt⟩ := anythingRpcError_filled h code data
  refine ⟨[], buf, ?_, by simp⟩
  rw [errorResponse, hbuilt]
  rfl

theorem result {id : CString 64} (hid : ShortText id.bytes) (json : Bytes) :
    Replied [resultResponse id.bytes json] := by
  refine ⟨[], (printLine 4096 (resultLine id.bytes json)).2, ?_, by simp⟩
  rw [resultResponse, anythingRpcResult_eq id.noNul (length_escaped_lt hid)]
  rfl

theorem fixedError {id : CString 64} (hid : ShortText id.bytes) {code : ℤ}
    {kind message : Bytes} (h : FixedError code kind message) (data : Bytes) :
    Replied [errorResponse id.bytes code kind message data] :=
  .error ⟨⟨id.noNul, length_escaped_lt hid⟩, h.kind, h.message⟩ code data

theorem emit {effect : Effect} {handled : Handled} (hquiet : ∀ r, effect ≠ .reply r)
    (h : Replied handled.effects) : Replied (emit effect handled).effects := by
  obtain ⟨before, buf, heffects, hbefore⟩ := h
  refine ⟨effect :: before, buf, ?_, ?_⟩
  · change effect :: handled.effects = _
    rw [heffects]
    rfl
  · intro r hmem
    rcases List.mem_cons.mp hmem with heq | hmem
    · exact hquiet r heq.symm
    · exact hbefore r hmem

theorem checked {id : CString 64} (hid : ShortText id.bytes) {outcome : AuditOutcome}
    {event : AuditEvent} {store : ApprovalStore} {next : Handled} (h : Replied next.effects) :
    Replied (checkedAudit outcome event id.bytes store next).effects := by
  unfold checkedAudit
  apply Replied.emit (by simp)
  by_cases hok : (auditWrite outcome event).ok = true
  · rw [if_pos hok]
    exact h
  · rw [if_neg hok]
    exact .fixedError hid ⟨by decide, by decide, by decide⟩ []

end Replied

section Answers

variable {config : Config} {approvals : ApprovalStore} {input : Input} {request : RpcRequest}

theorem reportRun_replied (hid : ShortText request.id.bytes) (env : Env) (admin : Identity)
    (ref : PendingRef) :
    Replied (reportRun approvals env admin request.id.bytes ref
      (anythingSysInfoJson env.os)).effects := by
  cases hrun : anythingSysInfoJson env.os with
  | error sysError =>
      have hmessage : ∀ text ∈ sysErrors, (0 : UInt8) ∉ text ∧ (escaped text).length < 256 := by
        decide
      have hsys := (anythingSysInfoJson_spec env.os).2 sysError hrun
      exact .checked hid (.fixedError hid ⟨by decide, by decide, hmessage _ hsys⟩ [])
  | ok result => exact .checked hid (.result hid result.bytes)

theorem Course.replied {handled : Handled} (h : Course config approvals input request handled)
    (hparse : anythingRpcParse input.body = .ok request) : Replied handled.effects := by
  have hid := (shortStrings_of_parse hparse).id
  cases h with
  | denied hplane hdenial =>
      exact .checked hid (.checked hid (.fixedError hid hdenial.fixed []))
  | full hplane hallowed hfull =>
      exact .checked hid (.fixedError hid ⟨by decide, by decide, by decide⟩ [])
  | stored hplane hallowed hspace hfields =>
      exact .checked hid (.emit (by simp) (.checked hid
        (.fixedError hid ⟨by decide, by decide, by decide⟩ _)))
  | unauthorized hplane hadmin =>
      exact .checked hid (.fixedError hid ⟨by decide, by decide, by decide⟩ [])
  | refused hplane hadmin hrefusal => exact .fixedError hid hrefusal.fixed []
  | listed hplane hadmin hmethod hlist => exact .result hid _
  | granted hmethod haddr hstatus hnow hother =>
      exact .emit (by simp) (.checked hid (.result hid _))
  | rejected hmethod haddr hother => exact .emit (by simp) (.checked hid (.result hid _))
  | ran hmethod haddr hstatus hnow hpolicy =>
      exact .checked hid (.emit (by simp) (reportRun_replied hid input.env input.peer _))

theorem RpcParseError.fits (e : RpcParseError) :
    (0 : UInt8) ∉ e.message ∧ (escaped e.message).length < 256 := by
  cases e
  all_goals decide

/-- Whatever a request is, and whatever the store holds, it is answered once. -/
theorem handleRequest_replied (config : Config) (approvals : ApprovalStore) (input : Input) :
    Replied (handleRequest config approvals input).effects := by
  cases hparse : anythingRpcParse input.body with
  | error e =>
      rw [handleRequest_invalid hparse]
      exact .error ⟨by decide, by decide, e.fits⟩ _ _
  | ok request => exact (course config approvals hparse).replied hparse

end Answers

/-! ## The code does what is served -/

/-- The error texts of the system have nothing in them that is escaped. -/
structure PlainErrors (c : Connection) : Prop where
  peer : ∀ errno, c.peer = .error errno → ∀ b ∈ errno, Unescaped b
  timeout : ∀ errno, c.timeout = .error errno → ∀ b ∈ errno, Unescaped b
  reads : ∀ call ∈ c.reads, ∀ errno, call.result = .failed errno → ∀ b ∈ errno, Unescaped b

/-- The handles that are left behind a response. -/
def afterSent (sent : Sent) (held : Finset Handle) : Finset Handle :=
  if sent.ending = .killed then ∅ else held

section Run

variable {os : Allocators} {held : Finset Handle} {fd : Handle} {c : Connection}

theorem auditCalls_run (os : Allocators) (outcome : AuditOutcome) (irregular : Bool)
    (event : AuditEvent) : auditCalls os outcome irregular event held = .ok ((), held) := by
  have hfresh := os.fds.fresh held
  have hself := Finset.mem_insert_self (os.fds.pick held) held
  unfold auditCalls
  split_ifs
  · rw [acquire_bind, use_bind hself, release_run hfresh]
  · rfl
  · rw [acquire_bind, use_bind hself]
    cases escapeEvent event with
    | none => exact release_run hfresh
    | some f => exact (use_bind hself _).trans (release_run hfresh)

theorem readFirstLineCalls_run (os : Allocators) (file : Option Bytes) :
    readFirstLineCalls os file held = .ok ((), held) := by
  cases file with
  | none => rfl
  | some content =>
      rw [readFirstLineCalls, acquire_bind,
        use_bind (Finset.mem_insert_self (os.fds.pick held) held),
        release_run (os.fds.fresh held)]

theorem sysInfoCalls_run (os : Allocators) (reading : OsReading) :
    sysInfoCalls os reading held = .ok ((), held) := by
  unfold sysInfoCalls
  cases reading.uname with
  | none => rfl
  | some uts =>
      exact (bind_run (readFirstLineCalls_run os _)).trans (readFirstLineCalls_run os _)

theorem respond_run (hfd : fd ∈ held) (buf : CString 4096) (writes : List WriteResult) :
    respond fd (some buf) writes held =
      .ok (anythingTransportWriteResponse buf.bytes writes,
        afterSent (anythingTransportWriteResponse buf.bytes writes) held) := by
  rw [respond, filled_bind, use_bind hfd, afterSent]
  split_ifs
  · rfl
  · rfl

theorem responseOf_append {before : List Effect} {r : Option (CString 4096)}
    (h : ∀ r, .reply r ∉ before) (after : List Effect) :
    responseOf (before ++ .reply r :: after) = r := by
  induction before with
  | nil => rfl
  | cons effect before ih =>
      have hbefore : ∀ r, .reply r ∉ before := fun r hr => h r (List.mem_cons_of_mem _ hr)
      cases effect with
      | reply r' => exact absurd List.mem_cons_self (h r')
      | _ => exact ih hbefore

theorem perform_run {effects : List Effect} (h : Replied effects) (hfd : fd ∈ held) :
    perform os fd c 0 effects held =
      .ok (sentOf effects c.writes, afterSent (sentOf effects c.writes) held) := by
  obtain ⟨before, buf, rfl, hbefore⟩ := h
  rw [sentOf, responseOf_append hbefore]
  generalize 0 = k
  induction before generalizing k with
  | nil => exact respond_run hfd buf c.writes
  | cons effect before ih =>
      have hrest := ih fun r hr => hbefore r (List.mem_cons_of_mem _ hr)
      cases effect with
      | audit write => exact (bind_run (auditCalls_run os _ _ _)).trans (hrest (k + 1))
      | sysInfo slot result => exact (bind_run (sysInfoCalls_run os _)).trans (hrest k)
      | reply r => exact absurd List.mem_cons_self (hbefore r)
      | added slot => exact hrest k
      | granted slot approver => exact hrest k
      | rejected slot approver => exact hrest k

/-- The way out gives back the connection. -/
theorem hangUp_run (sent : Sent) (hfd : fd ∉ held) :
    hangUp sent [fd] (afterSent sent (insert fd held)) = .ok ((), afterSent sent held) := by
  unfold hangUp afterSent
  split_ifs
  · rfl
  · exact release_bind hfd fun _ => pure ()

/-- The way out gives back the buffer and the connection. -/
theorem hangUp_run_buffer {buffer : Handle} (sent : Sent) (hfd : fd ∉ held)
    (hbuffer : buffer ∉ insert fd held) :
    hangUp sent [buffer, fd] (afterSent sent (insert buffer (insert fd held))) =
      .ok ((), afterSent sent held) := by
  unfold hangUp afterSent
  split_ifs
  · rfl
  · exact (release_bind hbuffer fun _ => [fd].forM release).trans
      (release_bind hfd fun _ => pure ())

theorem refuse_run {held' : Finset Handle} {handles : List Handle} {approvals : ApprovalStore}
    {kind message : Bytes} (h : Replied [refusal kind message]) (hfd : fd ∈ held')
    (hout : ∀ sent, hangUp sent handles (afterSent sent held') = .ok ((), afterSent sent held)) :
    refuse os fd handles approvals c kind message held' =
      .ok (⟨approvals, [refusal kind message], sentOf [refusal kind message] c.writes⟩,
        afterSent (sentOf [refusal kind message] c.writes) held) := by
  rw [refuse, bind_run (perform_run h hfd), bind_run (hout _), pure_run]

theorem plain_append {s t : Bytes} (hs : ∀ b ∈ s, Unescaped b) (ht : ∀ b ∈ t, Unescaped b) :
    ∀ b ∈ s ++ t, Unescaped b := fun b hb =>
  (List.mem_append.mp hb).elim (hs b) (ht b)

/-- A refusal with a plain text is filled. -/
theorem refusal_replied {kind text : Bytes}
    (hkind : (0 : UInt8) ∉ kind ∧ (escaped kind).length < 128)
    (htext : ∀ b ∈ text, Unescaped b) : Replied [refusal kind (errorText text)] := by
  have hplain : ∀ b ∈ errorText text, Unescaped b := fun b hb =>
    htext b ((List.takeWhile_prefix _).subset (List.mem_of_mem_take hb))
  have hlen : (escaped (errorText text)).length < 256 := by
    rw [escaped_of_unescaped hplain]
    exact CString.fits _
  exact .error ⟨by decide, hkind, CString.noNul _, hlen⟩ _ _

theorem plainMessage_of_read {maxBytes : ℕ} {deadlineMs elapsedMs : ℤ} {calls : List ReadCall}
    {e : ReadError} (hcalls : ∀ call ∈ calls, ∀ errno, call.result = .failed errno →
      ∀ b ∈ errno, Unescaped b)
    (h : anythingTransportReadRequest maxBytes deadlineMs calls elapsedMs = .error e) :
    ∀ b ∈ e.message, Unescaped b := by
  have hloop : ∀ (buffer : Bytes) e, readLoop maxBytes deadlineMs buffer calls = .error e →
      ∀ b ∈ e.message, Unescaped b := by
    clear h
    induction calls with
    | nil =>
        intro buffer e h
        cases h
    | cons call calls ih =>
        intro buffer e h
        have hrest := ih fun call' hmem => hcalls call' (List.mem_cons_of_mem _ hmem)
        rw [readLoop] at h
        split_ifs at h
        · obtain rfl := Except.error.inj h
          decide
        · split at h
          · exact hrest _ _ h
          · rename_i errno hresult
            obtain rfl := Except.error.inj h
            exact plain_append (by decide) (hcalls call List.mem_cons_self errno hresult)
          · simp only at h
            split_ifs at h
            exact hrest _ _ h
  rw [anythingTransportReadRequest] at h
  cases hread : readLoop maxBytes deadlineMs [] calls with
  | error e' =>
      rw [hread] at h
      obtain rfl := Except.error.inj h
      exact hloop _ _ hread
  | ok buffer =>
      rw [hread] at h
      simp only [bind, Except.bind] at h
      split_ifs at h
      · obtain rfl := Except.error.inj h
        decide
      · obtain rfl := Except.error.inj h
        decide

/-- A connection that is accepted is answered once. -/
theorem served_replied (config : Config) (approvals : ApprovalStore) (plane : SocketPlane)
    (haccepted : c.accepted = true) (hplain : PlainErrors c) :
    Replied (served config approvals plane c).effects := by
  rw [served, arrival, haccepted]
  simp only [Bool.not_true, Bool.false_eq_true, if_false]
  cases hpeer : c.peer with
  | error errno =>
      exact refusal_replied (by decide) (plain_append (by decide) (hplain.peer errno hpeer))
  | ok peer =>
      cases htimeout : c.timeout with
      | error errno =>
          exact refusal_replied (by decide)
            (plain_append (by decide) (hplain.timeout errno htimeout))
      | ok =>
          cases c.allocated with
          | false => exact .error ⟨by decide, by decide, by decide⟩ _ _
          | true =>
              simp only [Bool.not_true, Bool.false_eq_true, if_false]
              cases hread : anythingTransportReadRequest config.maxRequestBytes
                  config.readTimeoutMs c.reads c.elapsedMs with
              | error e =>
                  exact refusal_replied (by decide) (plainMessage_of_read hplain.reads hread)
              | ok body => exact handleRequest_replied _ _ _

/-- Serving a connection does what `served` says and leaves the handles as they were, or none
at all when it kills the process. -/
theorem acceptOne_run {config : Config} {approvals : ApprovalStore} {listenFd : Handle}
    {plane : SocketPlane} (hlisten : listenFd ∈ held) (hplain : PlainErrors c) :
    acceptOne os config approvals listenFd plane c held =
      .ok (served config approvals plane c,
        afterSent (served config approvals plane c).sent held) := by
  have hfresh := os.fds.fresh held
  have hself := Finset.mem_insert_self (os.fds.pick held) held
  have hbuffer := os.blocks.fresh (insert (os.fds.pick held) held)
  have hreplied := fun haccepted => served_replied config approvals plane haccepted hplain
  rw [acceptOne, use_bind hlisten]
  rw [served, arrival] at hreplied ⊢
  cases haccepted : c.accepted with
  | false => rfl
  | true =>
      specialize hreplied haccepted
      simp only [haccepted, Bool.not_true, Bool.false_eq_true, if_false] at hreplied ⊢
      rw [acquire_bind, use_bind hself]
      cases hpeer : c.peer with
      | error errno =>
          simp only [hpeer] at hreplied
          exact refuse_run hreplied hself fun sent => hangUp_run sent hfresh
      | ok peer =>
          simp only [hpeer] at hreplied ⊢
          rw [use_bind hself]
          cases htimeout : c.timeout with
          | error errno =>
              simp only [htimeout] at hreplied
              exact refuse_run hreplied hself fun sent => hangUp_run sent hfresh
          | ok =>
              cases hallocated : c.allocated with
              | false =>
                  simp only [htimeout, hallocated, Bool.not_false, if_true] at hreplied
                  exact refuse_run hreplied hself fun sent => hangUp_run sent hfresh
              | true =>
                  simp only [htimeout, hallocated, Bool.not_true, Bool.false_eq_true, if_false]
                    at hreplied ⊢
                  rw [acquire_bind, use_bind (Finset.mem_insert_of_mem hself)]
                  cases hread : anythingTransportReadRequest config.maxRequestBytes
                      config.readTimeoutMs c.reads c.elapsedMs with
                  | error e =>
                      simp only [hread] at hreplied
                      exact refuse_run hreplied (Finset.mem_insert_of_mem hself)
                        fun sent => hangUp_run_buffer sent hfresh hbuffer
                  | ok body =>
                      simp only
                      rw [bind_run (perform_run (handleRequest_replied _ _ _)
                        (Finset.mem_insert_of_mem hself)),
                        bind_run (hangUp_run_buffer _ hfresh hbuffer), pure_run]

end Run

end AnythingTool
