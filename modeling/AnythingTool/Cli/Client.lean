import AnythingTool.Cli.Request
import AnythingTool.Daemon.Main

/-!
# The command line client

`main` of the client on what the system answers. It connects, writes one request, ends its
side of the connection and prints what a single call of `read` returns. The path it connects
to is cut to the size of a socket address, where the daemon refuses a path that does not fit
(`anythingTransportListen`).

The response of `anything_transport_write_response` is not looked at, so the client goes on
to read when its request was written in part. `clientRun` says what a run leaves behind, and
`clientMain_run` that it gives back the socket whichever way it ends.
-/

namespace AnythingTool

open CText CheckedHandles

/-- What the system answers while the client runs; `errno` is the text of a failed
`socket` or `connect`, and `response` what `read` returns, or the text of its error. -/
structure ClientCalls where
  socket : Bool
  connected : Bool
  errno : Bytes
  writes : List WriteResult
  response : Except Bytes Bytes

/-- What a run of the client leaves behind: how it has ended, the path it was to connect to,
also when `connect_socket` has failed, what was written to the socket, and the two
streams. -/
structure ClientReport where
  exit : Exit
  address : Option Bytes
  sent : Bytes
  stdout : Bytes
  stderr : Bytes

/-- `usage` -/
def clientUsage : Bytes :=
  ascii "anythingctl v0.1.0\nUsage:\n" ++
    ascii "  anythingctl --socket PATH raw JSON\n" ++
    ascii "  anythingctl --socket PATH sys-info SESSION\n" ++
    ascii "  anythingctl --admin-socket PATH pending\n" ++
    ascii "  anythingctl --admin-socket PATH approve REQUEST_ID\n" ++
    ascii "  anythingctl --admin-socket PATH reject REQUEST_ID\n" ++
    ascii "  anythingctl --admin-socket PATH execute REQUEST_ID\n"

def ClientReport.usage : ClientReport := ⟨.status 2, none, [], [], clientUsage⟩

/-- The request `main` builds from a command and the arguments behind it; `raw` without an
argument has none. -/
def clientRequest (command : Bytes) (args : List Bytes) : Option (CString 2048) :=
  if command = ascii "raw" then
    match args with
    | [] => none
    | json :: _ => some (.snprintf 2048 (json ++ ascii "\n"))
  else some (makeRequest command (args.headD []))

/-- `sun_path` in `connect_socket`. -/
def connectAddress (path : Bytes) : Bytes := (CString.snprintf 108 path).bytes

/-! ## The code -/

section Code

variable (os : Allocators)

/-- `connect_socket` -/
def connectSocket (calls : ClientCalls) : Sys Handle (Option Handle) := do
  if !calls.socket then pure none
  else do
    let fd ← acquire os.fds
    use fd
    if !calls.connected then do
      release fd
      pure none
    else pure (some fd)

/-- `main` behind `connect_socket`. -/
def clientTalk (fd : Handle) (address : Bytes) (request : CString 2048) (calls : ClientCalls) :
    Sys Handle ClientReport := do
  use fd
  let sent := anythingTransportWriteResponse request.bytes calls.writes
  if sent.ending = .killed then do
    abandon
    pure ⟨.killed, some address, sent.bytes, [], []⟩
  else do
    -- `shutdown`
    use fd
    use fd
    match calls.response with
    | .error errno => do
        release fd
        pure ⟨.status 1, some address, sent.bytes, [],
          ascii "read failed: " ++ errno ++ ascii "\n"⟩
    | .ok response => do
        -- `read` returns at most what it is asked for
        let text := cstr (response.take (4096 - 1))
        release fd
        pure ⟨.status 0, some address, sent.bytes, text, []⟩

/-- `main` of the client on the arguments behind the name of the program. -/
def clientMain (argv : List Bytes) (calls : ClientCalls) : Sys Handle ClientReport :=
  match argv with
  | option :: path :: command :: args =>
      if option ≠ ascii "--socket" ∧ option ≠ ascii "--admin-socket" then pure .usage
      else
        match clientRequest command args with
        | none => pure .usage
        | some request =>
            if request.bytes = [] then pure .usage
            else do
              match ← connectSocket os calls with
              | none =>
                  pure ⟨.status 1, some (connectAddress path), [], [],
                    ascii "connect failed: " ++ calls.errno ++ ascii "\n"⟩
              | some fd => clientTalk fd (connectAddress path) request calls
  | _ => pure .usage

end Code

/-! ## What it comes to -/

def clientAnswer (address : Bytes) (request : CString 2048) (calls : ClientCalls) :
    ClientReport :=
  if calls.socket ∧ calls.connected then
    let sent := anythingTransportWriteResponse request.bytes calls.writes
    if sent.ending = .killed then ⟨.killed, some address, sent.bytes, [], []⟩
    else
      match calls.response with
      | .error errno => ⟨.status 1, some address, sent.bytes, [],
          ascii "read failed: " ++ errno ++ ascii "\n"⟩
      | .ok response => ⟨.status 0, some address, sent.bytes,
          cstr (response.take (4096 - 1)), []⟩
  else ⟨.status 1, some address, [], [], ascii "connect failed: " ++ calls.errno ++ ascii "\n"⟩

def clientRun (argv : List Bytes) (calls : ClientCalls) : ClientReport :=
  match argv with
  | option :: path :: command :: args =>
      if option ≠ ascii "--socket" ∧ option ≠ ascii "--admin-socket" then .usage
      else
        match clientRequest command args with
        | none => .usage
        | some request =>
            if request.bytes = [] then .usage
            else clientAnswer (connectAddress path) request calls
  | _ => .usage

/-- The handles that are left behind a run of the client. -/
def ClientReport.left (report : ClientReport) (held : Finset Handle) : Finset Handle :=
  if report.exit = .killed then ∅ else held

section Run

variable {os : Allocators} {held : Finset Handle} {fd : Handle}

theorem clientTalk_run (hfd : fd ∉ held) (address : Bytes) (request : CString 2048)
    {calls : ClientCalls} (hconnected : calls.socket ∧ calls.connected) :
    clientTalk fd address request calls (insert fd held) =
      .ok (clientAnswer address request calls,
        (clientAnswer address request calls).left held) := by
  have hself := Finset.mem_insert_self fd held
  rw [clientTalk, use_bind hself, clientAnswer, if_pos hconnected]
  by_cases hkilled : (anythingTransportWriteResponse request.bytes calls.writes).ending = .killed
  · simp only [hkilled, if_true]
    rfl
  · simp only [hkilled, if_false]
    rw [use_bind hself, use_bind hself]
    cases calls.response with
    | error errno => exact release_bind hfd _
    | ok response => exact release_bind hfd _

theorem connectSocket_bind {β : Type} (calls : ClientCalls) (f : Option Handle → Sys Handle β) :
    (connectSocket os calls >>= f) held =
      if calls.socket ∧ calls.connected then
        f (some (os.fds.pick held)) (insert (os.fds.pick held) held)
      else f none held := by
  have hself := Finset.mem_insert_self (os.fds.pick held) held
  have hfresh := os.fds.fresh held
  obtain ⟨socket, connected, errno, writes, response⟩ := calls
  cases socket with
  | false => rfl
  | true =>
      have hconnect : connectSocket os ⟨true, connected, errno, writes, response⟩ held =
          (if !connected then do
            release (os.fds.pick held)
            pure none
          else pure (some (os.fds.pick held))) (insert (os.fds.pick held) held) :=
        (acquire_bind _).trans (use_bind hself _)
      cases connected with
      | true => exact bind_run hconnect
      | false => exact bind_run (hconnect.trans (release_bind hfresh _))

/-- A run of the client does what `clientRun` says, and has no handle left that it did not
begin with. -/
theorem clientMain_run (os : Allocators) (argv : List Bytes) (calls : ClientCalls)
    (held : Finset Handle) :
    clientMain os argv calls held =
      .ok (clientRun argv calls, (clientRun argv calls).left held) := by
  match argv with
  | [] => rfl
  | [_] => rfl
  | [_, _] => rfl
  | option :: path :: command :: args =>
      rw [clientMain, clientRun]
      by_cases hoption : option ≠ ascii "--socket" ∧ option ≠ ascii "--admin-socket"
      · simp only [if_pos hoption]
        rfl
      simp only [if_neg hoption]
      cases clientRequest command args with
      | none => rfl
      | some request =>
          by_cases hempty : request.bytes = []
          · simp only [if_pos hempty]
            rfl
          simp only [if_neg hempty]
          rw [connectSocket_bind]
          split_ifs with hconnected
          · exact clientTalk_run (os.fds.fresh held) _ _ hconnected
          · rw [clientAnswer, if_neg hconnected]
            rfl

end Run

end AnythingTool
