import AnythingTool.Config.Startup
import AnythingTool.Daemon.Server
import Mathlib.Data.Finset.Card
import Mathlib.Data.Nat.Find

/-!
# The daemon process

`main` from its arguments to its end: the configuration is loaded, the audit log is tried,
the two sockets are made, rounds are served until a signal stops the loop, and the sockets
are removed. `report` is what a run comes to without its descriptors, and `main_run` says
that the code does just that, uses no descriptor that is not open and closes each once. The
one descriptor it leaves open is the tool socket, when the admin socket cannot be made.
-/

namespace AnythingTool

open CText Files CheckedHandles Transition

/-! ## The arguments -/

/-- What `main` takes from its arguments. -/
structure Options where
  configPath : Bytes
  allowDevInsecureAdmin : Bool
deriving DecidableEq

def insecureFlag : Bytes := ascii "--dev-insecure-admin"

/-- The loop over `argv`, behind the name of the program. The last path wins. -/
def parseArgs (argv : List Bytes) : Options :=
  argv.foldl
    (fun options arg =>
      if arg = insecureFlag then { options with allowDevInsecureAdmin := true }
      else { options with configPath := arg })
    ⟨ascii "config/anythingd.example.toml", false⟩

/-- Only the flag switches the allowlist off. -/
theorem parseArgs_allow (argv : List Bytes) :
    (parseArgs argv).allowDevInsecureAdmin = true ↔ insecureFlag ∈ argv := by
  have hfold : ∀ options : Options, (argv.foldl
      (fun options arg =>
        if arg = insecureFlag then { options with allowDevInsecureAdmin := true }
        else { options with configPath := arg }) options).allowDevInsecureAdmin = true ↔
      options.allowDevInsecureAdmin = true ∨ insecureFlag ∈ argv := by
    induction argv with
    | nil => simp
    | cons arg argv ih =>
        intro options
        rw [List.foldl_cons, ih, List.mem_cons]
        by_cases harg : arg = insecureFlag
        · simp [harg]
        · rw [if_neg harg]
          simp [Ne.symm harg]
  rw [parseArgs, hfold]
  simp

/-! ## The start -/

/-- What the system answers to the calls of `anything_transport_listen`: the texts of the
errors, and what `unlink` and `bind` are allowed. -/
structure ListenCalls where
  socket : Except Bytes Unit
  unlink : FileSystem.UnlinkCall
  mayBind : Bool
  bindErrno : Bytes
  listen : Except Bytes Unit

/-- `bind` to the path, where it is allowed. -/
def ListenCalls.bind (calls : ListenCalls) (fs : FileSystem) (path : Bytes) :
    Option FileSystem :=
  if calls.mayBind then fs.bindSocket path else none

/-- What the system answers while the daemon starts and stops: the contents of the files
that can be read, the files at the start, and the files when the loop has ended. -/
structure Launch where
  content : Bytes → Option Bytes
  files : FileSystem
  tool : ListenCalls
  admin : ListenCalls
  stopped : FileSystem
  toolCleanup : FileSystem.UnlinkCall
  adminCleanup : FileSystem.UnlinkCall

section Code

variable (os : Allocators)

/-- `anything_config_load_with_options`; every way out of it closes the file. -/
def configLoadCalls (file : Option Bytes) (allow : Bool) :
    Sys Handle (Except ConfigError Config) :=
  match file with
  | none => pure (anythingConfigLoadWithOptions none allow)
  | some content => do
      let fd ← acquire os.fds
      use fd
      release fd
      pure (anythingConfigLoadWithOptions (some content) allow)

/-- `open_audit_fd`, and `close` of what it returns. -/
def openAuditCalls (fs : FileSystem) (path : Bytes) :
    Sys Handle (Except AuditError FileSystem) :=
  match fs.openAppend path with
  | .loop => pure (openAuditFd fs path)
  | .failed => pure (openAuditFd fs path)
  | .opened _ _ => do
      let fd ← acquire os.fds
      use fd
      release fd
      pure (openAuditFd fs path)

/-- `anything_audit_validate_startup` -/
def auditStartupCalls (fs : FileSystem) (config : Config) :
    Sys Handle (Except StartupFault FileSystem) :=
  if config.auditLogPath.bytes = [] then pure (.error (.refused .pathRequired))
  else
    match auditInWritable fs config with
    | none => pure (.error .overrun)
    | some true => pure (.error (.refused .insideWritable))
    | some false =>
        match beforeLastSlash config.auditLogPath.bytes with
        | none => pure (.error (.refused .noParent))
        | some [] => pure (.error (.refused .noParent))
        | some parent =>
            if fs.isDirectory parent then do
              let opened ← openAuditCalls os fs config.auditLogPath.bytes
              pure (opened.mapError .refused)
            else pure (.error (.refused .parentUnavailable))

/-- `anything_transport_listen`, with the files behind it. What `chmod` returns is not
looked at. -/
def anythingTransportListen (fs : FileSystem) (path : Bytes) (calls : ListenCalls) :
    Sys Handle (Except Bytes Handle × FileSystem) :=
  match calls.socket with
  | .error errno => pure (.error (errorText (ascii "socket failed: " ++ errno)), fs)
  | .ok () => do
      let fd ← acquire os.fds
      let fs := fs.unlink path calls.unlink
      if path.length ≥ 108 then do
        release fd
        pure (.error (errorText (ascii "socket path too long")), fs)
      else do
        use fd
        match calls.bind fs path with
        | none => do
            release fd
            pure (.error (errorText (ascii "bind failed: " ++ calls.bindErrno)), fs)
        | some fs => do
            use fd
            match calls.listen with
            | .error errno => do
                release fd
                pure (.error (errorText (ascii "listen failed: " ++ errno)), fs)
            | .ok () => pure (.ok fd, fs)

/-- How the process ends. A run that has written behind a buffer is taken to end there. -/
inductive Exit
  | status (code : ℕ)
  | killed
deriving DecidableEq

/-- What a run of the process leaves behind: how it has ended, the connections in order, the
files, and the lines on the standard error. -/
structure Report where
  exit : Exit
  exchanges : List Exchange
  files : FileSystem
  messages : List Bytes

/-- The way out of `main` before the loop. -/
def giveUp (messages : List Bytes) (files : FileSystem) (what message : Bytes) : Report :=
  ⟨.status 2, [], files, messages ++ [ascii "anythingd " ++ what ++ ascii " error: " ++
    message ++ ascii "\n"]⟩

def warning (options : Options) : List Bytes :=
  if options.allowDevInsecureAdmin then
    [ascii "WARNING: --dev-insecure-admin disables admin allowlist enforcement for development only\n"]
  else []

def listening (config : Config) : Bytes :=
  ascii "anythingd v0.1.2 listening tool=" ++ config.toolSocketPath.bytes ++ ascii " admin=" ++
    config.adminSocketPath.bytes ++ ascii "\n"

/-- `main` -/
def main (argv : List Bytes) (launch : Launch) (polls : List Poll) : Sys Handle Report := do
  let options := parseArgs argv
  let messages := warning options
  match ← configLoadCalls os (launch.content options.configPath)
      options.allowDevInsecureAdmin with
  | .error e => pure (giveUp messages launch.files (ascii "config") (errorText e.message))
  | .ok config =>
      match ← auditStartupCalls os launch.files config with
      | .error .overrun => do
          abandon
          pure ⟨.killed, [], launch.files, messages⟩
      | .error (.refused e) =>
          pure (giveUp messages launch.files (ascii "audit") (errorText e.message))
      | .ok files => do
          let (tool, files) ← anythingTransportListen os files config.toolSocketPath.bytes
            launch.tool
          match tool with
          | .error message => pure (giveUp messages files (ascii "tool socket") message)
          | .ok toolFd => do
              let (admin, files) ← anythingTransportListen os files
                config.adminSocketPath.bytes launch.admin
              match admin with
              | .error message =>
                  pure (giveUp messages
                    (files.unlink config.toolSocketPath.bytes launch.toolCleanup)
                    (ascii "admin socket") message)
              | .ok adminFd => do
                  let (process, exchanges) ← serve os toolFd adminFd
                    ⟨⟨config, anythingApprovalStoreInit, []⟩, true⟩ polls
                  let messages := messages ++ [listening config]
                  if !process.alive then
                    pure ⟨.killed, exchanges, launch.stopped, messages⟩
                  else do
                    release toolFd
                    release adminFd
                    let files := launch.stopped.unlink config.toolSocketPath.bytes
                      launch.toolCleanup
                    pure ⟨.status 0, exchanges,
                      files.unlink config.adminSocketPath.bytes launch.adminCleanup, messages⟩

end Code

/-! ## What it comes to -/

/-- What `anything_transport_listen` comes to. -/
def listenOutcome (fs : FileSystem) (path : Bytes) (calls : ListenCalls) :
    Except Bytes Unit × FileSystem :=
  match calls.socket with
  | .error errno => (.error (errorText (ascii "socket failed: " ++ errno)), fs)
  | .ok () =>
      let fs := fs.unlink path calls.unlink
      if path.length ≥ 108 then (.error (errorText (ascii "socket path too long")), fs)
      else
        match calls.bind fs path with
        | none => (.error (errorText (ascii "bind failed: " ++ calls.bindErrno)), fs)
        | some fs =>
            match calls.listen with
            | .error errno => (.error (errorText (ascii "listen failed: " ++ errno)), fs)
            | .ok () => (.ok (), fs)

/-- How far the process gets before its loop: it dies, it gives up, it gives up with the tool
socket open, or it serves. -/
inductive Start
  | overrun
  | refused (what message : Bytes) (files : FileSystem)
  | halfOpen (message : Bytes) (files : FileSystem)
  | serving (config : Config) (files : FileSystem)

def start (options : Options) (launch : Launch) : Start :=
  match anythingConfigLoadWithOptions (launch.content options.configPath)
      options.allowDevInsecureAdmin with
  | .error e => .refused (ascii "config") (errorText e.message) launch.files
  | .ok config =>
      match anythingAuditValidateStartup launch.files config with
      | .error .overrun => .overrun
      | .error (.refused e) => .refused (ascii "audit") (errorText e.message) launch.files
      | .ok files =>
          match listenOutcome files config.toolSocketPath.bytes launch.tool with
          | (.error message, files) => .refused (ascii "tool socket") message files
          | (.ok (), files) =>
              match listenOutcome files config.adminSocketPath.bytes launch.admin with
              | (.error message, files) =>
                  .halfOpen message (files.unlink config.toolSocketPath.bytes launch.toolCleanup)
              | (.ok (), files) => .serving config files

/-- What a run of the process comes to. -/
def report (argv : List Bytes) (launch : Launch) (polls : List Poll) : Report :=
  let messages := warning (parseArgs argv)
  match start (parseArgs argv) launch with
  | .overrun => ⟨.killed, [], launch.files, messages⟩
  | .refused what message files => giveUp messages files what message
  | .halfOpen message files => giveUp messages files (ascii "admin socket") message
  | .serving config _ =>
      let messages := messages ++ [listening config]
      if ((server config).run polls).alive then
        let files := launch.stopped.unlink config.toolSocketPath.bytes launch.toolCleanup
        ⟨.status 0, exchanges config polls,
          files.unlink config.adminSocketPath.bytes launch.adminCleanup, messages⟩
      else ⟨.killed, exchanges config polls, launch.stopped, messages⟩

/-- What is open when the process ends. -/
def openAfter (os : Allocators) (held : Finset Handle) (start : Start) (polls : List Poll) :
    Finset Handle :=
  match start with
  | .overrun => ∅
  | .refused _ _ _ => held
  | .halfOpen _ _ => insert (os.fds.pick held) held
  | .serving config _ => ((server config).run polls).holds held

section Run

variable {os : Allocators} {held : Finset Handle}

theorem configLoadCalls_run (os : Allocators) (file : Option Bytes) (allow : Bool) :
    configLoadCalls os file allow held = .ok (anythingConfigLoadWithOptions file allow, held) := by
  cases file with
  | none => rfl
  | some content =>
      rw [configLoadCalls, acquire_bind,
        use_bind (Finset.mem_insert_self (os.fds.pick held) held),
        release_bind (os.fds.fresh held), pure_run]

theorem openAuditCalls_run (os : Allocators) (fs : FileSystem) (path : Bytes) :
    openAuditCalls os fs path held = .ok (openAuditFd fs path, held) := by
  unfold openAuditCalls
  cases fs.openAppend path with
  | loop => rfl
  | failed => rfl
  | opened kind fs' =>
      simp only
      rw [acquire_bind, use_bind (Finset.mem_insert_self (os.fds.pick held) held),
        release_bind (os.fds.fresh held), pure_run]

theorem auditStartupCalls_run (os : Allocators) (fs : FileSystem) (config : Config) :
    auditStartupCalls os fs config held = .ok (anythingAuditValidateStartup fs config, held) := by
  unfold auditStartupCalls anythingAuditValidateStartup
  split_ifs with hpath
  · rfl
  rcases auditInWritable fs config with _ | _ | _
  · rfl
  · rcases beforeLastSlash config.auditLogPath.bytes with _ | _ | ⟨c, parent⟩
    · rfl
    · rfl
    · simp only
      split_ifs
      · rw [bind_run (openAuditCalls_run os fs _), pure_run]
      · rfl
  · rfl

/-- A socket that is made stays open, and one that is not is closed. -/
theorem listen_run (os : Allocators) (held : Finset Handle) (fs : FileSystem) (path : Bytes) (calls : ListenCalls) :
    anythingTransportListen os fs path calls held =
      match listenOutcome fs path calls with
      | (.error message, files) => .ok ((.error message, files), held)
      | (.ok (), files) =>
          .ok ((.ok (os.fds.pick held), files), insert (os.fds.pick held) held) := by
  have hfresh := os.fds.fresh held
  have hself := Finset.mem_insert_self (os.fds.pick held) held
  unfold anythingTransportListen listenOutcome
  cases calls.socket with
  | error errno => rfl
  | ok =>
      simp only
      rw [acquire_bind]
      split_ifs with hlong
      · rw [release_bind hfresh, pure_run]
      · rw [use_bind hself]
        cases calls.bind (fs.unlink path calls.unlink) path with
        | none =>
            simp only
            rw [release_bind hfresh, pure_run]
        | some bound =>
            simp only
            rw [use_bind hself]
            cases calls.listen with
            | error errno =>
                simp only
                rw [release_bind hfresh, pure_run]
            | ok => rfl

/-- The handle that was taken first may be given back first. -/
theorem release_under {β : Type} {a b : Handle} (ha : a ∉ held) (hb : b ∉ insert a held)
    (f : Unit → Sys Handle β) :
    (release a >>= f) (insert b (insert a held)) = f () (insert b held) := by
  have hne : a ≠ b := fun h => hb (h ▸ Finset.mem_insert_self a held)
  have hnot : a ∉ insert b held := by
    rw [Finset.mem_insert, not_or]
    exact ⟨hne, ha⟩
  rw [Finset.insert_comm, release_bind hnot]

/-- The process does what `report` says and never misuses a handle. -/
theorem main_run (os : Allocators) (argv : List Bytes) (launch : Launch) (polls : List Poll)
    (held : Finset Handle) :
    main os argv launch polls held =
      .ok (report argv launch polls,
        openAfter os held (start (parseArgs argv) launch) polls) := by
  unfold main report start
  simp only
  rw [bind_run (configLoadCalls_run os _ _)]
  cases anythingConfigLoadWithOptions (launch.content (parseArgs argv).configPath)
      (parseArgs argv).allowDevInsecureAdmin with
  | error e => rfl
  | ok config =>
      simp only
      rw [bind_run (auditStartupCalls_run os _ _)]
      cases anythingAuditValidateStartup launch.files config with
      | error e => cases e <;> rfl
      | ok files =>
          simp only
          have htool := listen_run os held files config.toolSocketPath.bytes launch.tool
          generalize listenOutcome files config.toolSocketPath.bytes launch.tool = outcome at *
          obtain ⟨message | ok, files⟩ := outcome
          · rw [bind_run htool]
            rfl
          rw [bind_run htool]
          simp only
          have hadmin := listen_run os (insert (os.fds.pick held) held) files
            config.adminSocketPath.bytes launch.admin
          generalize listenOutcome files config.adminSocketPath.bytes launch.admin = outcome at *
          obtain ⟨message | ok, files⟩ := outcome
          · rw [bind_run hadmin]
            rfl
          rw [bind_run hadmin]
          simp only
          have hfresh := os.fds.fresh held
          have hadminFresh := os.fds.fresh (insert (os.fds.pick held) held)
          generalize os.fds.pick held = toolFd at *
          generalize os.fds.pick (insert toolFd held) = adminFd at *
          have hserve : serve os toolFd adminFd ⟨⟨config, anythingApprovalStoreInit, []⟩, true⟩ polls
              (insert adminFd (insert toolFd held)) =
              .ok (((server config).run polls, exchanges config polls),
                ((server config).run polls).holds (insert adminFd (insert toolFd held))) :=
            serve_run (Finset.mem_insert_of_mem (Finset.mem_insert_self toolFd held))
              (Finset.mem_insert_self adminFd _) (server config).init polls
          rw [bind_run hserve]
          cases halive : ((server config).run polls).alive with
          | false => simp [openAfter, Process.holds, halive]
          | true =>
              simp only [openAfter, Process.holds, halive, Bool.not_true, Bool.false_eq_true,
                if_false, if_true]
              rw [release_under hfresh hadminFresh,
                release_bind (fun h => hadminFresh (Finset.mem_insert_of_mem h)), pure_run]

end Run

/-! ## What is known of every run -/

/-- A process that has served connections had loaded a configuration. -/
theorem report_exchanges (argv : List Bytes) (launch : Launch) (polls : List Poll) :
    (report argv launch polls).exchanges = [] ∨
      ∃ config, anythingConfigLoadWithOptions (launch.content (parseArgs argv).configPath)
          (parseArgs argv).allowDevInsecureAdmin = .ok config ∧
        (report argv launch polls).exchanges = exchanges config polls := by
  cases hstart : start (parseArgs argv) launch with
  | overrun =>
      rw [report, hstart]
      exact .inl rfl
  | refused what message files =>
      rw [report, hstart]
      exact .inl rfl
  | halfOpen message files =>
      rw [report, hstart]
      exact .inl rfl
  | serving config files =>
      refine .inr ⟨config, ?_, ?_⟩
      · unfold start at hstart
        split at hstart
        · cases hstart
        · rename_i config' hload
          split at hstart
          · cases hstart
          · cases hstart
          · split at hstart
            · cases hstart
            · split at hstart
              · cases hstart
              · obtain ⟨rfl, -⟩ := Start.serving.inj hstart
                exact hload
      · rw [report, hstart]
        simp only
        split_ifs
        · rfl
        · rfl

/-- What the process does for the requests it reads is what the daemon does for them in the
order in which they were read: each connection is served from the store that the requests
before it have left, and none behind one that has killed the process. -/
theorem main_refines (os : Allocators) (argv : List Bytes) (launch : Launch)
    (polls : List Poll) (held : Finset Handle) :
    ∃ r left, main os argv launch polls held = .ok (r, left) ∧
      (r.exchanges = [] ∨ ∃ config,
        anythingConfigLoadWithOptions (launch.content (parseArgs argv).configPath)
          (parseArgs argv).allowDevInsecureAdmin = .ok config ∧
        effectsIn config r.exchanges =
          ((daemon config).history (requestsIn config r.exchanges)).map Record.output ∧
        ∀ pre x post, r.exchanges = pre ++ x :: post →
          x.served = served config ((daemon config).run (requestsIn config pre)).approvals x.plane
              x.connection ∧
            (x.served.sent.ending = .killed → post = [])) := by
  refine ⟨_, _, main_run os argv launch polls held, ?_⟩
  rcases report_exchanges argv launch polls with hnone | ⟨config, hload, hexchanges⟩
  · exact .inl hnone
  refine .inr ⟨config, hload, ?_, ?_⟩
  · rw [hexchanges]
    exact effectsIn_exchanges polls
  · intro pre x post hsplit
    rw [hexchanges] at hsplit
    have hserves := exchanges_serves config polls
    rw [hsplit] at hserves
    obtain ⟨middle, hpre, -, hserved, hpost⟩ := hserves.split
    refine ⟨?_, ?_⟩
    · rw [hserved, hpre.daemon.1]
      rfl
    · intro hkilled
      apply hpost.eq_nil
      simp only [Process.after, hkilled, ne_eq, not_true_eq_false, decide_false]

/-- A connection that is answered once, at the end of all that is done for it: what is sent is
a beginning of the answer, and all of it unless a call of `write` fails. -/
structure AnsweredOnce (x : Exchange) : Prop where
  replied : Replied x.served.effects
  sent : ∀ response, responseOf x.served.effects = some response →
    x.served.sent.bytes <+: response.bytes ∧
      (x.served.sent.ending = .complete ↔ x.served.sent.bytes = response.bytes) ∧
      ((∀ call ∈ x.connection.writes, call.Succeeds) → x.served.sent.bytes = response.bytes)

theorem answeredOnce_of_exchanges {config : Config} {polls : List Poll} {x : Exchange}
    (hx : x ∈ exchanges config polls) (haccepted : x.connection.accepted = true) :
    AnsweredOnce x := by
  obtain ⟨pre, post, hsplit⟩ := List.append_of_mem hx
  have hserves := exchanges_serves config polls
  rw [hsplit] at hserves
  obtain ⟨middle, -, hplain, hserved, -⟩ := hserves.split
  refine ⟨?_, ?_⟩
  · rw [hserved]
    exact served_replied _ _ _ haccepted hplain
  · intro response hresponse
    have hsent : x.served.sent =
        anythingTransportWriteResponse response.bytes x.connection.writes := by
      rw [hserved, served_sent haccepted, ← hserved, sentOf, hresponse]
    rw [hsent]
    refine ⟨writeResponse_isPrefix _ _, writeResponse_complete_iff _ _, ?_⟩
    intro hsucceeds
    rw [writeResponse_of_succeeds _ _ hsucceeds]

/-- Every connection that the process accepts is answered once. -/
theorem main_answers (os : Allocators) (argv : List Bytes) (launch : Launch)
    (polls : List Poll) (held : Finset Handle) :
    ∃ r left, main os argv launch polls held = .ok (r, left) ∧
      ∀ x ∈ r.exchanges, x.connection.accepted = true → AnsweredOnce x := by
  refine ⟨_, _, main_run os argv launch polls held, ?_⟩
  intro x hx haccepted
  rcases report_exchanges argv launch polls with hnone | ⟨config, -, hexchanges⟩
  · rw [hnone] at hx
    cases hx
  rw [hexchanges] at hx
  exact answeredOnce_of_exchanges hx haccepted

/-! ## A small process -/

namespace Sample

/-- A configuration file with one admin. -/
def configFile : Bytes :=
  ascii "audit_log = \"/var/log/a.jsonl\"\nsys_read = true\nallowed_uids = [1000]\n"

/-- Every path leads to what it spells. -/
def files : FileSystem where
  lookup path := some (.snprintf 4096 path)
  reached path := .snprintf 4096 path
  kind loc := if loc = ascii "/var/log" then some .directory else none
  endsInLink _ := false
  mayOpen _ := true

def unlinkCall : FileSystem.UnlinkCall := ⟨true, files⟩

def listenCalls : ListenCalls := ⟨.ok (), unlinkCall, true, [], .ok ()⟩

/-- A start at which no call fails. -/
def launch : Launch where
  content path := if path = ascii "config/anythingd.example.toml" then some configFile else none
  files := files
  tool := listenCalls
  admin := listenCalls
  stopped := files
  toolCleanup := unlinkCall
  adminCleanup := unlinkCall

/-- A connection on which a request arrives in one piece. -/
def connection (input : Input) : Connection where
  accepted := true
  peer := .ok input.peer
  timeout := .ok ()
  allocated := true
  reads := [⟨0, .bytes input.body⟩]
  elapsedMs := 0
  env := input.env
  irregular _ := false
  writes := []

theorem plainErrors_connection (input : Input) : PlainErrors (connection input) := by
  refine ⟨?_, ?_, ?_⟩
  · intro errno h
    cases h
  · intro errno h
    cases h
  · intro call hcall errno h
    rw [List.mem_singleton.mp hcall] at h
    cases h

/-- A round in which one request arrives. -/
def poll (input : Input) : Poll :=
  let ready := some ⟨connection input, plainErrors_connection input⟩
  match input.plane with
  | .tool => ⟨ready, none⟩
  | .admin => ⟨none, ready⟩

theorem exists_fresh {handle : ℕ → Handle} (hinjective : Function.Injective handle)
    (held : Finset Handle) : ∃ n, handle n ∉ held := by
  have hcard : held.card < ((Finset.range (held.card + 1)).image handle).card := by
    rw [Finset.card_image_of_injective _ hinjective, Finset.card_range]
    exact Nat.lt_succ_self _
  obtain ⟨h, hmem, hfresh⟩ := Finset.exists_mem_notMem_of_card_lt_card hcard
  obtain ⟨n, -, rfl⟩ := Finset.mem_image.mp hmem
  exact ⟨n, hfresh⟩

/-- The lowest number that is free is given out. -/
def lowest {handle : ℕ → Handle} (hinjective : Function.Injective handle) : Allocator Handle where
  pick held := handle (Nat.find (exists_fresh hinjective held))
  fresh held := Nat.find_spec (exists_fresh hinjective held)

def allocators : Allocators where
  fds := lowest fun _ _ => Handle.fd.inj
  blocks := lowest fun _ _ => Handle.block.inj

/-- The agent asks, and an admin approves and executes. -/
def polls : List Poll :=
  [poll (ask written), poll (ruling operator "approval.approve" written),
    poll (ruling operator "approval.execute" written)]

end Sample

end AnythingTool
