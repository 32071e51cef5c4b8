import AnythingTool.Daemon.Decisions
import AnythingTool.Daemon.Main
import AnythingTool.Library.DualControl

/-!
# The daemon as dual control

A stored request is a ticket of its requester, with the admins as those who decide. Every
request to the daemon is then at most one event of the workflow, which the rules permit
(`workflowRefinement`), and so is all that a process does from its start to its end
(`process_legal`). The rules keep a ticket from being run on the word of one person; what
counts as a person is the whole of the peer credentials, so the same user in another process
is somebody else.
-/

namespace AnythingTool

open CText Transition DualControl CheckedHandles

/-! ## Requests as tickets -/

/-- The admins decide, and the store has room for so many tickets. -/
def rulesOf (config : Config) : Rules Identity :=
  ⟨fun peer => anythingConfigIdentityIsAdmin config peer = true, approvalMaxPending⟩

def statusOf (e : PendingRequest) : Status Identity :=
  match e.status with
  | .pending => .waiting
  | .granted => .approved e.approver
  | .rejected => .declined e.approver
  | .executed => .done

def ticketOf (e : PendingRequest) : Ticket Identity ℤ := ⟨e.requester, e.expiresAt, statusOf e⟩

def ticketsOf (approvals : ApprovalStore) : List (Ticket Identity ℤ) :=
  approvals.pending.map ticketOf

/-- The event that an effect of a request is. -/
def eventOf (config : Config) (input : Input) : Effect → Option (Event Identity ℤ)
  | .added _ => some (.file input.peer (input.env.now + config.approvalTtlSeconds))
  | .granted slot approver => some (.approve slot approver input.env.now)
  | .rejected slot approver => some (.decline slot approver)
  | .sysInfo slot result => some (.run slot input.peer input.env.now result.isOk)
  | .audit _ => none
  | .reply _ => none

def eventsOf (config : Config) (input : Input) (effects : List Effect) :
    List (Event Identity ℤ) :=
  effects.filterMap (eventOf config input)

/-- The verdicts of the rules on the events among some effects. -/
def verdictsOf (effects : List Effect) : List Bool :=
  effects.filterMap fun effect =>
    match effect with
    | .audit _ => none
    | .reply _ => none
    | _ => some true

section Move

variable {config : Config} {approvals : ApprovalStore} {input : Input}

theorem ticketsOf_getElem? {slot : ℕ} {e : PendingRequest}
    (h : approvals.pending[slot]? = some e) :
    (ticketsOf approvals)[slot]? = some (ticketOf e) := by
  rw [ticketsOf, List.getElem?_map, h]
  rfl

/-- A write that changes the status of a request marks its ticket. -/
theorem ticketsOf_write {slot : ℕ} {e e' : PendingRequest} {status : Status Identity}
    (h : approvals.pending[slot]? = some e)
    (he : ticketOf e' = { ticketOf e with status := status }) :
    ticketsOf (approvals.write ⟨slot, e'⟩) = mark (ticketsOf approvals) slot status := by
  rw [mark_eq_set (ticketsOf_getElem? h), ← he, ticketsOf, ApprovalStore.write, List.map_set]
  rfl

/-- Nothing of note happens, or one event that the rules permit. -/
inductive Happens (config : Config) (approvals : ApprovalStore) (input : Input)
    (after : ApprovalStore) (effects : List Effect) : Prop
  | nothing (hevents : eventsOf config input effects = []) (hverdicts : verdictsOf effects = [])
      (htickets : ticketsOf after = ticketsOf approvals)
  | event (e : Event Identity ℤ) (hevents : eventsOf config input effects = [e])
      (hverdicts : verdictsOf effects = [true])
      (hpermitted : Permitted (rulesOf config) (ticketsOf approvals) e)
      (htickets : ticketsOf after = happen (ticketsOf approvals) e)

theorem HandlerMove.happens {handled : Handled}
    (h : HandlerMove config approvals input handled) :
    Happens config approvals input handled.approvals handled.effects := by
  cases h with
  | quiet hquiet =>
      refine .nothing ?_ ?_ rfl
      · rw [eventsOf, List.filterMap_eq_nil_iff]
        intro effect heffect
        have hq := hquiet effect heffect
        cases effect with
        | audit w => rfl
        | reply r => rfl
        | _ => cases hq
      · rw [verdictsOf, List.filterMap_eq_nil_iff]
        intro effect heffect
        have hq := hquiet effect heffect
        cases effect with
        | audit w => rfl
        | reply r => rfl
        | _ => cases hq
  | added hadmits =>
      refine .event _ rfl rfl ?_ ?_
      · exact (List.length_map _).trans_lt hadmits.room
      · exact List.map_append
  | granted haddr hstatus hnow hother =>
      refine .event _ rfl rfl ?_ ?_
      · refine ⟨_, ticketsOf_getElem? haddr.stored, ?_, haddr.admin, hother.symm, hnow⟩
        rw [ticketOf, statusOf, hstatus]
      · exact ticketsOf_write haddr.stored rfl
  | rejected haddr hother =>
      refine .event _ rfl rfl ?_ ?_
      · exact ⟨_, ticketsOf_getElem? haddr.stored, haddr.admin, hother.symm⟩
      · exact ticketsOf_write haddr.stored rfl
  | @ran ref w r haddr hstatus hnow hpolicy hstarted =>
      refine .event _ rfl rfl ?_ ?_
      · refine ⟨_, ticketsOf_getElem? haddr.stored, ⟨ref.request.approver, ?_⟩, haddr.admin, hnow⟩
        rw [ticketOf, statusOf, hstatus]
      · cases anythingSysInfoJson input.env.os with
        | error e => rfl
        | ok text => exact ticketsOf_write haddr.stored rfl

end Move

/-! ## Refinement -/

theorem eq_true_of_mem_verdictsOf {effects : List Effect} {verdict : Bool}
    (h : verdict ∈ verdictsOf effects) : verdict = true := by
  rw [verdictsOf, List.mem_filterMap] at h
  obtain ⟨effect, -, heffect⟩ := h
  cases effect with
  | audit w => cases heffect
  | reply r => cases heffect
  | _ => exact (Option.some.inj heffect).symm

/-- Every request is at most one event of the workflow. -/
theorem daemon_happens {config : Config} {state : DaemonState} (hconfig : state.config = config)
    (input : Input) :
    Happens config state.approvals input ((daemon config).step state input).1.approvals
      ((daemon config).step state input).2 := by
  have hmove := daemon_move config state input
  rw [hconfig] at hmove
  exact hmove.happens

/-- The daemon refines the workflow under the rules of its configuration. -/
def workflowRefinement (config : Config) :
    Transition.Refinement (daemon config) (workflow (T := ℤ) (rulesOf config)) where
  Inv state := state.config = config
  abs state := ticketsOf state.approvals
  feed state input := eventsOf config input ((daemon config).step state input).2
  reports := verdictsOf
  inv_init := rfl
  inv_step _ _ hconfig := hconfig
  abs_init := rfl
  abs_step state input hconfig := by
    cases daemon_happens hconfig input with
    | nothing hevents hverdicts htickets =>
        rw [hevents, htickets, Machine.runFrom_nil]
    | event e hevents hverdicts hpermitted htickets =>
        rw [hevents, htickets, Machine.runFrom_cons, Machine.runFrom_nil,
          step_of_permitted hpermitted]
  outputs_step state input hconfig := by
    cases daemon_happens hconfig input with
    | nothing hevents hverdicts htickets =>
        rw [hevents, hverdicts, Machine.historyFrom_nil, List.map_nil]
    | event e hevents hverdicts hpermitted htickets =>
        rw [hevents, hverdicts, Machine.historyFrom_cons, Machine.historyFrom_nil,
          List.map_cons, List.map_nil, Machine.record, step_of_permitted hpermitted]

/-! ## Processes -/

/-- The events of a connection. -/
def Exchange.events (config : Config) (x : Exchange) : List (Event Identity ℤ) :=
  match x.request config with
  | none => []
  | some input => eventsOf config input x.served.effects

def eventsIn (config : Config) (exchanges : List Exchange) : List (Event Identity ℤ) :=
  exchanges.flatMap (Exchange.events config)

section Processes

variable {config : Config}

/-- The events of connections in a row are those of their requests. -/
theorem Serves.events {process last : Process} {xs : List Exchange}
    (h : Serves config process xs last) :
    (workflowRefinement config).inputsFrom process.daemon (requestsIn config xs) =
      eventsIn config xs := by
  induction h with
  | done process => rfl
  | @next process last x xs halive hconfig hplain hserved hrest ih =>
      obtain ⟨hstate, hout⟩ := after_served hconfig hserved
      rw [eventsIn, List.flatMap_cons, ← eventsIn, ← ih]
      cases hrequest : x.request config with
      | none =>
          have hskip : requestsIn config [x] = [] := by
            simp only [requestsIn, List.filterMap_cons, hrequest, List.filterMap_nil]
          have hrest : requestsIn config (x :: xs) = requestsIn config xs := by
            simp only [requestsIn, List.filterMap_cons, hrequest]
          rw [hskip] at hstate
          rw [hrest, hstate, Exchange.events, hrequest]
          rfl
      | some input =>
          have hone : requestsIn config [x] = [input] := by
            simp only [requestsIn, List.filterMap_cons, hrequest, List.filterMap_nil]
          have hcons : requestsIn config (x :: xs) = input :: requestsIn config xs := by
            simp only [requestsIn, List.filterMap_cons, hrequest]
          rw [hone] at hstate hout
          simp only [effectsIn, List.filterMap_cons, hrequest, Option.map_some,
            List.filterMap_nil] at hout
          obtain ⟨heffects, -⟩ := List.cons.inj hout
          rw [hcons, Refinement.inputsFrom_cons, hstate, Exchange.events, hrequest]
          simp only [heffects]
          rfl

theorem inputs_eq_eventsIn (config : Config) (polls : List Poll) :
    ((serverRefinement config).trans (workflowRefinement config)).inputs polls =
      eventsIn config (exchanges config polls) := by
  have hfrom : ∀ process : Process, process.daemon.config = config →
      ((serverRefinement config).trans (workflowRefinement config)).inputsFrom process polls =
        eventsIn config (exchangesFrom config process polls) := by
    induction polls with
    | nil => exact fun process _ => rfl
    | cons poll polls ih =>
        intro process hconfig
        have hround := (exchangeRound_serves hconfig poll).events
        have hrest := ih (exchangeRound process poll).1
          ((exchangeRound_config poll).trans hconfig)
        exact (congrArg₂ (· ++ ·) hround hrest).trans List.flatMap_append.symm
  exact hfrom _ rfl

/-- Whatever a server does is legal, and its store is what the events come to. -/
theorem server_legal (config : Config) (polls : List Poll) :
    Legal (rulesOf config) (eventsIn config (exchanges config polls)) ∧
      (workflow (rulesOf config)).run (eventsIn config (exchanges config polls)) =
        ticketsOf ((server config).run polls).daemon.approvals := by
  have hevents := inputs_eq_eventsIn config polls
  refine ⟨?_, ?_⟩
  · rw [Legal, ← hevents, ← Refinement.outputs_run]
    intro verdict hverdict
    obtain ⟨r, -, hr⟩ := List.mem_flatMap.mp hverdict
    obtain ⟨effects, -, heffects⟩ := List.mem_flatMap.mp hr
    exact eq_true_of_mem_verdictsOf heffects
  · rw [← hevents, ← Refinement.abs_run]
    rfl

end Processes

/-! ## What a process does -/

/-- All that a process does from its start to its end is legal under the rules of the
configuration it has loaded, and its store is what the events come to. -/
theorem main_legal (os : Allocators) (argv : List Bytes) (launch : Launch)
    (polls : List Poll) (held : Finset Handle) :
    ∃ r left, main os argv launch polls held = .ok (r, left) ∧
      (r.exchanges = [] ∨ ∃ config,
        anythingConfigLoadWithOptions (launch.content (parseArgs argv).configPath)
          (parseArgs argv).allowDevInsecureAdmin = .ok config ∧
        Legal (rulesOf config) (eventsIn config r.exchanges) ∧
        (workflow (rulesOf config)).run (eventsIn config r.exchanges) =
          ticketsOf ((daemon config).run (requestsIn config r.exchanges)).approvals) := by
  refine ⟨_, _, main_run os argv launch polls held, ?_⟩
  rcases report_exchanges argv launch polls with hnone | ⟨config, hload, hexchanges⟩
  · exact .inl hnone
  obtain ⟨hlegal, hrun⟩ := server_legal config polls
  rw [(exchanges_serves config polls).daemon.1] at hrun
  rw [hexchanges]
  exact .inr ⟨config, hload, hlegal, hrun⟩

/-- The peer is on the allowlist of the configuration. -/
def Allowlisted (config : Config) (peer : Identity) : Prop :=
  (peer.uid.toNat : ℤ) ∈ config.adminAllowedUids ∨ (peer.gid.toNat : ℤ) ∈ config.adminAllowedGids

/-- The tool is run for an allowlisted peer and a request that was filed before, and then
granted by another allowlisted peer, in time and not taken back; it was not run before. -/
def AuthorizedRuns (config : Config) (events : List (Event Identity ℤ)) : Prop :=
  ∀ past n p t success rest, events = past ++ .run n p t success :: rest →
    Allowlisted config p ∧ (∀ q s, .run n q s true ∉ past) ∧
      ∃ before owner deadline between a time after,
        past = before ++ .file owner deadline :: (between ++ .approve n a time :: after) ∧
          filings before = n ∧ Allowlisted config a ∧ a ≠ owner ∧ time ≤ deadline ∧
          t ≤ deadline ∧ ∀ q, .decline n q ∉ after

/-- Without the flag the allowlist holds for every run of the tool, whatever is in the
configuration file. -/
theorem main_authorized (os : Allocators) (argv : List Bytes) (launch : Launch)
    (polls : List Poll) (held : Finset Handle) (hflag : insecureFlag ∉ argv) :
    ∃ r left, main os argv launch polls held = .ok (r, left) ∧
      (r.exchanges = [] ∨ ∃ config,
        anythingConfigLoad (launch.content (parseArgs argv).configPath) = .ok config ∧
        AuthorizedRuns config (eventsIn config r.exchanges)) := by
  refine ⟨_, _, main_run os argv launch polls held, ?_⟩
  have hallow : (parseArgs argv).allowDevInsecureAdmin = false := by
    rw [← Bool.not_eq_true, parseArgs_allow]
    exact hflag
  rcases report_exchanges argv launch polls with hnone | ⟨config, hload, hexchanges⟩
  · exact .inl hnone
  rw [hallow] at hload
  refine .inr ⟨config, hload, ?_⟩
  have hrequired : config.requireAdminAllowlist = true := by
    rcases (validConfig_of_load hload).secure with hsecure | hinsecure
    · exact hsecure
    · cases hinsecure
  have hlisted : ∀ peer, (rulesOf config).decides peer → Allowlisted config peer := by
    intro peer hpeer
    exact (anythingConfigIdentityIsAdmin_iff hrequired).mp hpeer
  intro past n p t success rest hevents
  have hlegal := (server_legal config polls).1
  rw [← hexchanges, hevents] at hlegal
  obtain ⟨k, a, happroved, hdecides, htime, honce⟩ := hlegal.run_story
  obtain ⟨before, between, time, after, hpast, hn, ha, hother, hgranted, hafter⟩ := happroved
  exact ⟨hlisted p hdecides, honce, before, k.owner, k.deadline, between, a, time, after, hpast,
    hn, hlisted a ha, hother, hgranted, htime, hafter⟩

/-- The run of a small process in which the tool is run once. -/
theorem main_authorized_sample :
    ∃ config r left, main Sample.allocators [] Sample.launch Sample.polls ∅ = .ok (r, left) ∧
      AuthorizedRuns config (eventsIn config r.exchanges) ∧
      .run 0 Sample.operator 100 true ∈ eventsIn config r.exchanges := by
  obtain ⟨r, left, hmain, hruns⟩ :=
    main_authorized Sample.allocators [] Sample.launch Sample.polls ∅ (by decide)
  have hrun := main_run Sample.allocators [] Sample.launch Sample.polls ∅
  rw [hmain] at hrun
  obtain ⟨rfl, -⟩ := Prod.mk.inj (Except.ok.inj hrun)
  have hsome : (report [] Sample.launch Sample.polls).exchanges.length = 3 := by decide +kernel
  have hevent : ∀ config ∈ (anythingConfigLoad (some Sample.configFile)).toOption,
      .run 0 Sample.operator 100 true ∈
        eventsIn config (report [] Sample.launch Sample.polls).exchanges := by decide +kernel
  rcases hruns with hnone | ⟨config, hload, hauthorized⟩
  · rw [hnone] at hsome
    cases hsome
  · refine ⟨config, _, left, hmain, hauthorized, hevent config ?_⟩
    have hfile : anythingConfigLoad (some Sample.configFile) = .ok config := hload
    rw [hfile]
    rfl

end AnythingTool
