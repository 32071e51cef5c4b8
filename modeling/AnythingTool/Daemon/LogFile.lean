import AnythingTool.Daemon.Main

/-!
# The audit log behind the start

The start opens the audit log first and makes the two sockets afterwards, and what stands in
the way of a socket is removed. A socket whose path leads to the place of the log takes its
place, so the process serves with a log that no write can open; every other start leaves the
log as it was opened (`main_log`). Behind such a start no request is stored and nothing is
run, for every handler writes a record first.
-/

namespace AnythingTool

open CText Files CheckedHandles Transition

/-! ## What the start does to the files -/

section Start

variable {fs fs' : FileSystem} {path : Bytes} {loc : CString 4096}

/-- A regular file that can be opened for appending. -/
structure LogStands (fs : FileSystem) (path : Bytes) (loc : CString 4096) : Prop where
  noLink : fs.endsInLink path = false
  lookup : fs.lookup path = some loc
  mayOpen : fs.mayOpen loc.bytes = true
  regular : fs.kind loc.bytes = some .regular

theorem openAuditFd_of_logStands (h : LogStands fs path loc) : openAuditFd fs path = .ok fs := by
  simp [openAuditFd, FileSystem.openAppend, h.noLink, h.lookup, h.mayOpen, h.regular]

theorem openAuditFd_eq_ok (h : openAuditFd fs path = .ok fs') :
    ∃ kind, kind = .regular ∧ fs.openAppend path = .opened kind fs' := by
  unfold openAuditFd at h
  split at h
  · cases h
  · cases h
  · rename_i kind fs'' hopen
    split_ifs at h with hregular
    exact ⟨kind, hregular, Except.ok.inj h ▸ hopen⟩

/-- What is opened is a regular file, or one is made. -/
theorem logStands_of_openAuditFd (h : openAuditFd fs path = .ok fs') :
    fs.SamePaths fs' ∧ ∃ loc, LogStands fs' path loc := by
  obtain ⟨kind, rfl, hopen⟩ := openAuditFd_eq_ok h
  obtain ⟨loc, hlink, hlookup, hmay, ⟨-, -, rfl⟩ | ⟨hkind, rfl⟩⟩ :=
    FileSystem.openAppend_eq_opened hopen
  · exact ⟨⟨rfl, rfl, rfl⟩, loc, hlink, hlookup, hmay, FileSystem.create_kind_self fs loc.bytes⟩
  · exact ⟨⟨rfl, rfl, rfl⟩, loc, hlink, hlookup, hmay, hkind⟩

/-- A socket cannot be opened as the log. -/
theorem openAuditFd_ne_ok (hlookup : fs.lookup path = some loc)
    (hsocket : fs.kind loc.bytes = some .socket) : openAuditFd fs path ≠ .ok fs' := by
  intro h
  obtain ⟨kind, rfl, hopen⟩ := openAuditFd_eq_ok h
  obtain ⟨loc', -, hlookup', -, hkind⟩ := FileSystem.openAppend_eq_opened hopen
  obtain rfl := Option.some.inj (hlookup.symm.trans hlookup')
  rw [hsocket] at hkind
  rcases hkind with ⟨hnone, -⟩ | ⟨hregular, -⟩
  · cases hnone
  · cases hregular

/-- A socket the process listens at is at the place of its path; all other places are as
they were. -/
theorem listenOutcome_spec {calls : ListenCalls} (hlink : fs.endsInLink path = false)
    (h : listenOutcome fs path calls = (.ok (), fs')) :
    ∃ real, fs.lookup path = some real ∧ fs.SamePaths fs' ∧
      fs'.kind real.bytes = some .socket ∧ ∀ l, l ≠ real.bytes → fs'.kind l = fs.kind l := by
  unfold listenOutcome at h
  obtain ⟨hsame, hkept⟩ := @FileSystem.unlink_spec _ _ calls.unlink hlink
  split at h
  · cases h
  · simp only at h
    split_ifs at h with hlong
    · cases h
    split at h
    · cases h
    · rename_i fs₁ hbind
      split at h
      · cases h
      · obtain rfl : fs₁ = fs' := (Prod.mk.inj h).2
        unfold ListenCalls.bind at hbind
        split_ifs at hbind
        obtain ⟨real, hreal, rfl⟩ := FileSystem.bindSocket_eq_some hbind
        rw [hsame.lookup] at hreal
        refine ⟨real, hreal, hsame.trans ⟨rfl, rfl, rfl⟩, FileSystem.put_kind_self, ?_⟩
        intro l hl
        rw [FileSystem.put_kind_other hl]
        apply hkept
        intro real' hreal' heq
        rw [hreal] at hreal'
        exact hl (heq.symm.trans (congrArg CString.bytes (Option.some.inj hreal').symm))

end Start

/-- A socket has its path lead to the place of the log. -/
def ShadowsLog (fs : FileSystem) (config : Config) : Prop :=
  fs.lookup config.toolSocketPath.bytes = fs.lookup config.auditLogPath.bytes ∨
    fs.lookup config.adminSocketPath.bytes = fs.lookup config.auditLogPath.bytes

/-- The log can be opened. -/
def LogOpens (fs : FileSystem) (config : Config) : Prop :=
  ∃ fs', openAuditFd fs config.auditLogPath.bytes = .ok fs'

section Serving

variable {options : Options} {launch : Launch} {config : Config} {files : FileSystem}

theorem start_eq_serving (h : start options launch = .serving config files) :
    ∃ opened bound, anythingAuditValidateStartup launch.files config = .ok opened ∧
      listenOutcome opened config.toolSocketPath.bytes launch.tool = (.ok (), bound) ∧
      listenOutcome bound config.adminSocketPath.bytes launch.admin = (.ok (), files) := by
  unfold start at h
  split at h
  · cases h
  · rename_i config' hload
    split at h
    · cases h
    · cases h
    · rename_i opened hstartup
      split at h
      · cases h
      · rename_i bound htool
        split at h
        · cases h
        · rename_i files' hadmin
          obtain ⟨rfl, rfl⟩ := Start.serving.inj h
          exact ⟨opened, bound, hstartup, htool, hadmin⟩

/-- Behind the start the log can be opened exactly when no socket has taken its place. -/
theorem logOpens_iff (h : start options launch = .serving config files)
    (htool : launch.files.endsInLink config.toolSocketPath.bytes = false)
    (hadmin : launch.files.endsInLink config.adminSocketPath.bytes = false) :
    LogOpens files config ↔ ¬ ShadowsLog launch.files config := by
  obtain ⟨opened, bound, hstartup, hlisten, hlisten'⟩ := start_eq_serving h
  obtain ⟨hopened, loc, hlog⟩ := logStands_of_openAuditFd ((startup_eq_ok hstartup).2)
  rw [← hopened.endsInLink] at htool hadmin
  obtain ⟨toolLoc, htoolLoc, hbound, htoolKind, hkept⟩ := listenOutcome_spec htool hlisten
  rw [← hbound.endsInLink] at hadmin
  obtain ⟨adminLoc, hadminLoc, hfiles, hadminKind, hkept'⟩ := listenOutcome_spec hadmin hlisten'
  rw [hbound.lookup] at hadminLoc
  have hsame := hbound.trans hfiles
  have hlookup : files.lookup config.auditLogPath.bytes = some loc := by
    rw [hsame.lookup, hlog.lookup]
  have hshadows : ShadowsLog launch.files config ↔ toolLoc = loc ∨ adminLoc = loc := by
    rw [ShadowsLog, ← hopened.lookup, htoolLoc, hadminLoc, hlog.lookup]
    simp
  rw [hshadows]
  constructor
  · rintro ⟨fs', hopens⟩ hshadow
    refine openAuditFd_ne_ok hlookup ?_ hopens
    by_cases hlast : loc = adminLoc
    · rw [hlast]
      exact hadminKind
    · have htaken : toolLoc = loc := hshadow.resolve_right (Ne.symm hlast)
      have hne : loc.bytes ≠ adminLoc.bytes := fun heq => hlast (CString.ext heq)
      rw [hkept' _ hne, ← htaken]
      exact htoolKind
  · intro hclear
    obtain ⟨hnotTool, hnotAdmin⟩ := not_or.mp hclear
    refine ⟨files, openAuditFd_of_logStands ⟨?_, hlookup, ?_, ?_⟩⟩
    · rw [hsame.endsInLink, hlog.noLink]
    · rw [hsame.mayOpen, hlog.mayOpen]
    · have hne : loc.bytes ≠ toolLoc.bytes := fun heq => hnotTool (CString.ext heq).symm
      have hne' : loc.bytes ≠ adminLoc.bytes := fun heq => hnotAdmin (CString.ext heq).symm
      rw [hkept' _ hne', hkept _ hne, hlog.regular]

end Serving

/-! ## Runs without a log -/

/-- No audit write finds the log. -/
def LogShut (input : Input) : Prop := ∀ k, (input.env.audit k).opened = false

section LogShut

variable {config : Config} {input : Input}

/-- Without a log an empty store stays empty. -/
theorem logShut_step (h : LogShut input) :
    (handleRequest config anythingApprovalStoreInit input).approvals =
        anythingApprovalStoreInit ∧
      ∀ x ∈ (handleRequest config anythingApprovalStoreInit input).effects, x.Quiet := by
  have hmove := handlerMove config anythingApprovalStoreInit input
  generalize handleRequest config anythingApprovalStoreInit input = handled at hmove
  have hempty : ∀ {method : Bytes} {ref : PendingRef},
      ¬ Addresses config anythingApprovalStoreInit input method ref := by
    intro method ref haddr
    have hstored := haddr.stored
    simp [anythingApprovalStoreInit] at hstored
  cases hmove with
  | quiet hquiet => exact ⟨rfl, hquiet⟩
  | added hadmits =>
      have hreceived := hadmits.received
      simp [auditWrite, anythingAuditWriteEvent, h 0] at hreceived
  | granted haddr => exact absurd haddr hempty
  | rejected haddr => exact absurd haddr hempty
  | ran haddr => exact absurd haddr hempty

theorem logShut_run {is : List Input} (h : ∀ input ∈ is, LogShut input) :
    ((daemon config).run is).approvals = anythingApprovalStoreInit := by
  induction is using List.reverseRecOn with
  | nil => rfl
  | append_singleton is input ih =>
      rw [Machine.run_append_singleton, daemon_step_approvals,
        ih fun input' hinput' => h input' (List.mem_append_left _ hinput')]
      exact (logShut_step (h input (by simp))).1

theorem arrival_env {plane : SocketPlane} {c : Connection}
    (h : arrival config plane c = .request input) : input.env = c.env := by
  unfold arrival at h
  split at h
  · cases h
  split at h
  · cases h
  split at h
  · cases h
  split at h
  · cases h
  split at h
  · cases h
  · obtain rfl := Arrival.request.inj h
    rfl

/-- Connections that find no log are served from an empty store, and leave it empty. -/
theorem logShut_exchanges {polls : List Poll}
    (h : ∀ x ∈ exchanges config polls, ∀ k, (x.connection.env.audit k).opened = false)
    {x : Exchange} (hx : x ∈ exchanges config polls) :
    x.served.approvals = anythingApprovalStoreInit ∧ ∀ effect ∈ x.served.effects, effect.Quiet := by
  obtain ⟨pre, post, hsplit⟩ := List.append_of_mem hx
  have hserves := exchanges_serves config polls
  rw [hsplit] at hserves h
  obtain ⟨middle, hpre, -, hserved, -⟩ := hserves.split
  have hrequests : ∀ input ∈ requestsIn config pre, LogShut input := by
    intro input hinput k
    obtain ⟨y, hy, hrequest⟩ := List.mem_filterMap.mp hinput
    rw [arrival_env (request_eq_some.mp hrequest)]
    exact h y (List.mem_append_left _ hy) k
  have hstore : middle.daemon.approvals = anythingApprovalStoreInit := by
    rw [hpre.daemon.1]
    exact logShut_run hrequests
  rw [hserved, hstore, served]
  cases harrival : arrival config x.plane x.connection with
  | lost => exact ⟨rfl, by simp⟩
  | refused kind message =>
      refine ⟨rfl, ?_⟩
      intro effect heffect
      rw [List.mem_singleton.mp heffect]
      trivial
  | request input =>
      refine logShut_step fun k => ?_
      rw [arrival_env harrival]
      exact h x (by simp) k

end LogShut

/-- A process that serves has its log to write to, unless a socket has taken its place. Then
it answers every connection it accepts without storing, granting or running anything. -/
theorem main_log (os : Allocators) (argv : List Bytes) (launch : Launch) (polls : List Poll)
    (held : Finset Handle) (config : Config) (files : FileSystem)
    (hstart : start (parseArgs argv) launch = .serving config files)
    (htool : launch.files.endsInLink config.toolSocketPath.bytes = false)
    (hadmin : launch.files.endsInLink config.adminSocketPath.bytes = false)
    (hfound : ∀ x ∈ exchanges config polls, ∀ k,
      (x.connection.env.audit k).opened = true → LogOpens files config) :
    (LogOpens files config ↔ ¬ ShadowsLog launch.files config) ∧
      ∃ r left, main os argv launch polls held = .ok (r, left) ∧
        r.exchanges = exchanges config polls ∧
        (ShadowsLog launch.files config → ∀ x ∈ r.exchanges,
          (x.connection.accepted = true → AnsweredOnce x) ∧
            x.served.approvals = anythingApprovalStoreInit ∧
            ∀ effect ∈ x.served.effects, effect.Quiet) := by
  have hopens := logOpens_iff hstart htool hadmin
  have hexchanges : (report argv launch polls).exchanges = exchanges config polls := by
    rw [report, hstart]
    simp only
    split_ifs
    · rfl
    · rfl
  refine ⟨hopens, _, _, main_run os argv launch polls held, hexchanges, ?_⟩
  intro hshadow x hx
  rw [hexchanges] at hx
  refine ⟨answeredOnce_of_exchanges hx, logShut_exchanges ?_ hx⟩
  intro y hy k
  rw [← Bool.not_eq_true]
  intro hopened
  exact hopens.mp (hfound y hy k hopened) hshadow

namespace Sample

/-- A configuration whose admin socket is at the place of the log. -/
def shadowedFile : Bytes :=
  configFile ++ ascii "admin_socket_path = \"/var/log/a.jsonl\"\n"

def shadowed : Launch :=
  { launch with
    content := fun path =>
      if path = ascii "config/anythingd.example.toml" then some shadowedFile else none }

theorem exists_start_shadowed : ∃ config files,
    start (parseArgs []) shadowed = .serving config files ∧ ShadowsLog shadowed.files config := by
  have hserving : (match start (parseArgs []) shadowed with
    | .serving config _ => decide (config.adminSocketPath = config.auditLogPath)
    | _ => false) = true := by decide +kernel
  cases hstart : start (parseArgs []) shadowed with
  | overrun =>
      rw [hstart] at hserving
      cases hserving
  | refused what message files =>
      rw [hstart] at hserving
      cases hserving
  | halfOpen message files =>
      rw [hstart] at hserving
      cases hserving
  | serving config files =>
      rw [hstart] at hserving
      refine ⟨config, files, rfl, .inr ?_⟩
      rw [of_decide_eq_true hserving]

end Sample

/-- A process that has made its socket in place of its log answers, and stores nothing. -/
theorem main_log_sample : ∃ r left,
    main Sample.allocators [] Sample.shadowed [Sample.poll (Sample.ask Sample.notOpened)] ∅ =
        .ok (r, left) ∧
      r.exchanges.length = 1 ∧
      ∀ x ∈ r.exchanges, x.served.approvals = anythingApprovalStoreInit := by
  obtain ⟨config, files, hstart, hshadow⟩ := Sample.exists_start_shadowed
  have hone : exchanges config [Sample.poll (Sample.ask Sample.notOpened)] =
      [⟨.tool, Sample.connection (Sample.ask Sample.notOpened),
        served config anythingApprovalStoreInit .tool
          (Sample.connection (Sample.ask Sample.notOpened))⟩] := rfl
  obtain ⟨-, r, left, hmain, hexchanges, hquiet⟩ := main_log Sample.allocators []
    Sample.shadowed [Sample.poll (Sample.ask Sample.notOpened)] ∅ config files hstart rfl rfl
    (by
      intro x hx k hopened
      rw [hone] at hx
      rw [List.mem_singleton.mp hx] at hopened
      cases hopened)
  refine ⟨r, left, hmain, ?_, fun x hx => (hquiet hshadow x hx).2.1⟩
  rw [hexchanges, hone]
  rfl

end AnythingTool
