import AnythingTool.Daemon.Connection
import AnythingTool.Library.Refinement

/-!
# The server loop

`main` behind its start: a round polls the two sockets and accepts at most one connection on
each, the tool socket first. A round of the server stands for the requests that were read in
it (`serverRefinement`), so whatever holds of all runs of the daemon holds of the server, and
connections that were lost or refused have left no trace in the store and the audit log.
-/

namespace AnythingTool

open CText CheckedHandles Transition

/-- What `poll` finds ready in one round. An error text of the system is plain. -/
structure Poll where
  tool : Option { c : Connection // PlainErrors c }
  admin : Option { c : Connection // PlainErrors c }

/-- The process between two rounds. -/
structure Process where
  daemon : DaemonState
  alive : Bool

/-- A connection that was accepted or lost, and what serving it has left behind. -/
structure Exchange where
  plane : SocketPlane
  connection : Connection
  served : Served

/-- The process behind a connection. -/
def Process.after (process : Process) (served : Served) : Process :=
  ⟨process.daemon.after ⟨served.approvals, served.effects⟩,
    decide (served.sent.ending ≠ .killed)⟩

section Rounds

variable (os : Allocators) (toolFd adminFd : Handle)

/-- `accept_one`, when the socket is ready. -/
def acceptReady (plane : SocketPlane) (listenFd : Handle) (process : Process)
    (ready : Option { c : Connection // PlainErrors c }) :
    Sys Handle (Process × List Exchange) :=
  match ready with
  | none => pure (process, [])
  | some c =>
      if !process.alive then pure (process, [])
      else do
        let served ← acceptOne os process.daemon.config process.daemon.approvals listenFd plane
          c.1
        pure (process.after served, [⟨plane, c.1, served⟩])

/-- A round of the loop of `main`. -/
def pollRound (process : Process) (poll : Poll) : Sys Handle (Process × List Exchange) :=
  if !process.alive then pure (process, [])
  else do
    use toolFd
    use adminFd
    let (process, tool) ← acceptReady os .tool toolFd process poll.tool
    let (process, admin) ← acceptReady os .admin adminFd process poll.admin
    pure (process, tool ++ admin)

/-- The loop of `main`; a signal stops it behind the last poll. -/
def serve : Process → List Poll → Sys Handle (Process × List Exchange)
  | process, [] => pure (process, [])
  | process, poll :: polls => do
      let (process, exchanges) ← pollRound os toolFd adminFd process poll
      let (process, rest) ← serve process polls
      pure (process, exchanges ++ rest)

end Rounds

/-! ## Rounds without handles -/

/-- What `acceptReady` comes to. -/
def exchangeReady (plane : SocketPlane) (process : Process)
    (ready : Option { c : Connection // PlainErrors c }) : Process × List Exchange :=
  match ready with
  | none => (process, [])
  | some c =>
      if !process.alive then (process, [])
      else
        let served := served process.daemon.config process.daemon.approvals plane c.1
        (process.after served, [⟨plane, c.1, served⟩])

/-- What a round comes to. -/
def exchangeRound (process : Process) (poll : Poll) : Process × List Exchange :=
  let tool := exchangeReady .tool process poll.tool
  let admin := exchangeReady .admin tool.1 poll.admin
  (admin.1, tool.2 ++ admin.2)

/-- A process that was killed holds nothing. -/
def Process.holds (process : Process) (held : Finset Handle) : Finset Handle :=
  if process.alive then held else ∅

section Run

variable {os : Allocators} {toolFd adminFd : Handle} {held : Finset Handle}

theorem acceptReady_run (os : Allocators) {listenFd : Handle} (hlisten : listenFd ∈ held) (plane : SocketPlane)
    (process : Process) (ready : Option { c : Connection // PlainErrors c }) :
    acceptReady os plane listenFd process ready (process.holds held) =
      .ok (exchangeReady plane process ready,
        (exchangeReady plane process ready).1.holds held) := by
  cases ready with
  | none => rfl
  | some c =>
      cases halive : process.alive with
      | false => simp only [acceptReady, exchangeReady, halive, Bool.not_false, if_true, pure_run]
      | true =>
          have hholds : process.holds held = held := if_pos halive
          simp only [acceptReady, exchangeReady, halive, Bool.not_true, Bool.false_eq_true,
            if_false, hholds]
          rw [bind_run (acceptOne_run hlisten c.2), pure_run]
          simp only [Process.holds, Process.after, afterSent, decide_eq_true_eq, ite_not]

theorem pollRound_run (htool : toolFd ∈ held) (hadmin : adminFd ∈ held) (process : Process)
    (poll : Poll) :
    pollRound os toolFd adminFd process poll (process.holds held) =
      .ok (exchangeRound process poll, (exchangeRound process poll).1.holds held) := by
  cases halive : process.alive with
  | false =>
      have hready : ∀ plane ready, exchangeReady plane process ready = (process, []) := by
        intro plane ready
        cases ready with
        | none => rfl
        | some c => simp only [exchangeReady, halive, Bool.not_false, if_true]
      simp only [pollRound, halive, Bool.not_false, if_true, pure_run, exchangeRound, hready,
        List.append_nil]
  | true =>
      have hholds : process.holds held = held := if_pos halive
      have hfirst := acceptReady_run os htool .tool process poll.tool
      rw [hholds] at hfirst
      rw [pollRound]
      simp only [halive, Bool.not_true, Bool.false_eq_true, if_false]
      rw [hholds, use_bind htool, use_bind hadmin, bind_run hfirst,
        bind_run (acceptReady_run os hadmin .admin _ poll.admin), pure_run]
      rfl

end Run

/-! ## The requests of a round -/

/-- The request that was read from a connection. -/
def Exchange.request (config : Config) (x : Exchange) : Option Input :=
  match arrival config x.plane x.connection with
  | .request input => some input
  | _ => none

/-- The requests among some connections, in order. -/
def requestsIn (config : Config) (exchanges : List Exchange) : List Input :=
  exchanges.filterMap (Exchange.request config)

/-- What was done for them. -/
def effectsIn (config : Config) (exchanges : List Exchange) : List (List Effect) :=
  exchanges.filterMap fun x => (x.request config).map fun _ => x.served.effects

section Refinement

variable {config : Config} {process : Process}

theorem requestsIn_append (xs ys : List Exchange) :
    requestsIn config (xs ++ ys) = requestsIn config xs ++ requestsIn config ys :=
  List.filterMap_append

theorem effectsIn_append (xs ys : List Exchange) :
    effectsIn config (xs ++ ys) = effectsIn config xs ++ effectsIn config ys :=
  List.filterMap_append

theorem served_of_request {approvals : ApprovalStore} {plane : SocketPlane} {c : Connection}
    {input : Input} (h : arrival config plane c = .request input) :
    served config approvals plane c =
      ⟨(handleRequest config approvals input).approvals,
        (handleRequest config approvals input).effects,
        sentOf (handleRequest config approvals input).effects c.writes⟩ := by
  rw [served, h]

/-- A connection whose request is not read leaves the store and the log alone. -/
theorem served_of_no_request (approvals : ApprovalStore) {plane : SocketPlane} {c : Connection}
    (h : ∀ input, arrival config plane c ≠ .request input) :
    (served config approvals plane c).approvals = approvals ∧
      auditWrites (served config approvals plane c).effects = [] := by
  rw [served]
  cases harrival : arrival config plane c with
  | lost => exact ⟨rfl, rfl⟩
  | refused kind message => exact ⟨rfl, rfl⟩
  | request input => exact absurd harrival (h input)

theorem request_eq_some {x : Exchange} {input : Input} :
    x.request config = some input ↔ arrival config x.plane x.connection = .request input := by
  rw [Exchange.request]
  cases arrival config x.plane x.connection with
  | lost => simp
  | refused kind message => simp
  | request input' => simp

theorem request_eq_none {x : Exchange} :
    x.request config = none ↔ ∀ input, arrival config x.plane x.connection ≠ .request input := by
  simp only [← Option.not_isSome_iff_eq_none, Option.isSome_iff_exists, not_exists,
    request_eq_some, Ne]

/-- A connection is a step of the daemon when its request was read, and no step otherwise. -/
theorem after_served (hconfig : process.daemon.config = config) {x : Exchange}
    (hserved : x.served = served config process.daemon.approvals x.plane x.connection) :
    (process.after x.served).daemon =
        (daemon config).runFrom process.daemon (requestsIn config [x]) ∧
      effectsIn config [x] =
        ((daemon config).historyFrom process.daemon (requestsIn config [x])).map
          Record.output := by
  obtain ⟨⟨config', approvals, log⟩, alive⟩ := process
  obtain rfl : config = config' := hconfig.symm
  cases hrequest : x.request config with
  | none =>
      obtain ⟨happrovals, hlog⟩ :=
        served_of_no_request approvals (request_eq_none.mp hrequest)
      rw [← hserved] at happrovals hlog
      simp only [requestsIn, effectsIn, List.filterMap_cons, hrequest, Option.map_none,
        List.filterMap_nil, Process.after, DaemonState.after, happrovals, hlog, List.append_nil]
      exact ⟨rfl, rfl⟩
  | some input =>
      rw [served_of_request (request_eq_some.mp hrequest)] at hserved
      simp only [requestsIn, effectsIn, List.filterMap_cons, hrequest, Option.map_some,
        List.filterMap_nil, hserved]
      exact ⟨rfl, rfl⟩

/-- Some connections one after another, each served from what the one before has left, and
none behind one that has killed the process. -/
inductive Serves (config : Config) : Process → List Exchange → Process → Prop
  | done (process : Process) : Serves config process [] process
  | next {process last : Process} {x : Exchange} {xs : List Exchange}
      (halive : process.alive = true) (hconfig : process.daemon.config = config)
      (hplain : PlainErrors x.connection)
      (hserved : x.served = served config process.daemon.approvals x.plane x.connection)
      (hrest : Serves config (process.after x.served) xs last) :
      Serves config process (x :: xs) last

namespace Serves

variable {middle last : Process} {xs ys : List Exchange}

theorem append (h : Serves config process xs middle) (h' : Serves config middle ys last) :
    Serves config process (xs ++ ys) last := by
  induction h with
  | done process => exact h'
  | next halive hconfig hplain hserved hrest ih =>
      exact .next halive hconfig hplain hserved (ih h')

/-- What comes before a connection, and what it is served from. -/
theorem split {pre post : List Exchange} {x : Exchange}
    (h : Serves config process (pre ++ x :: post) last) :
    ∃ middle : Process, Serves config process pre middle ∧ PlainErrors x.connection ∧
      x.served = served config middle.daemon.approvals x.plane x.connection ∧
      Serves config (middle.after x.served) post last := by
  induction pre generalizing process with
  | nil =>
      cases h with
      | next halive hconfig hplain hserved hrest =>
          exact ⟨process, .done process, hplain, hserved, hrest⟩
  | cons y pre ih =>
      cases h with
      | next halive hconfig hplain hserved hrest =>
          obtain ⟨middle, hpre, hx⟩ := ih hrest
          exact ⟨middle, .next halive hconfig hplain hserved hpre, hx⟩

/-- Nothing is served by a process that was killed. -/
theorem eq_nil (h : Serves config process xs last) (hkilled : process.alive = false) :
    xs = [] := by
  cases h with
  | done => rfl
  | next halive hconfig hplain hserved hrest =>
      rw [hkilled] at halive
      cases halive

/-- Connections in a row are the requests that are read from them. -/
theorem daemon (h : Serves config process xs last) :
    last.daemon = (AnythingTool.daemon config).runFrom process.daemon (requestsIn config xs) ∧
      effectsIn config xs = ((AnythingTool.daemon config).historyFrom process.daemon
        (requestsIn config xs)).map Record.output := by
  induction h with
  | done process => exact ⟨rfl, rfl⟩
  | @next process last x xs halive hconfig hplain hserved hrest ih =>
      obtain ⟨hstate, hout⟩ := after_served hconfig hserved
      have hsplit : x :: xs = [x] ++ xs := rfl
      rw [hsplit, requestsIn_append, effectsIn_append, Machine.runFrom_append,
        Machine.historyFrom_append, List.map_append, ← hstate, ← hout]
      exact ⟨ih.1, by rw [ih.2]⟩

end Serves

theorem exchangeReady_serves (hconfig : process.daemon.config = config) (plane : SocketPlane)
    (ready : Option { c : Connection // PlainErrors c }) :
    Serves config process (exchangeReady plane process ready).2
      (exchangeReady plane process ready).1 := by
  cases ready with
  | none => exact .done process
  | some c =>
      cases halive : process.alive with
      | false =>
          simp only [exchangeReady, halive, Bool.not_false, if_true]
          exact .done process
      | true =>
          simp only [exchangeReady, halive, Bool.not_true, Bool.false_eq_true, if_false, hconfig]
          exact .next halive hconfig c.2 rfl (.done _)

theorem exchangeReady_config (plane : SocketPlane)
    (ready : Option { c : Connection // PlainErrors c }) :
    (exchangeReady plane process ready).1.daemon.config = process.daemon.config := by
  cases ready with
  | none => rfl
  | some c =>
      cases halive : process.alive with
      | false => simp only [exchangeReady, halive, Bool.not_false, if_true]
      | true =>
          simp only [exchangeReady, halive, Bool.not_true, Bool.false_eq_true, if_false]
          rfl

theorem exchangeRound_serves (hconfig : process.daemon.config = config) (poll : Poll) :
    Serves config process (exchangeRound process poll).2 (exchangeRound process poll).1 :=
  (exchangeReady_serves hconfig .tool poll.tool).append
    (exchangeReady_serves ((exchangeReady_config .tool poll.tool).trans hconfig) .admin poll.admin)

theorem exchangeRound_config (poll : Poll) :
    (exchangeRound process poll).1.daemon.config = process.daemon.config :=
  (exchangeReady_config .admin poll.admin).trans (exchangeReady_config .tool poll.tool)

end Refinement

/-! ## Runs -/

/-- The server behind the start of `main`. -/
def server (config : Config) : Machine Process Poll (List Exchange) where
  init := ⟨(daemon config).init, true⟩
  step := exchangeRound

/-- The server refines the daemon: a round stands for the requests that are read in it. -/
def serverRefinement (config : Config) : Transition.Refinement (server config) (daemon config) where
  Inv process := process.daemon.config = config
  abs := Process.daemon
  feed process poll := requestsIn config (exchangeRound process poll).2
  reports := effectsIn config
  inv_init := rfl
  inv_step _ poll hconfig := (exchangeRound_config poll).trans hconfig
  abs_init := rfl
  abs_step _ poll hconfig := (exchangeRound_serves hconfig poll).daemon.1
  outputs_step _ poll hconfig := (exchangeRound_serves hconfig poll).daemon.2

/-- The connections of a run from some process. -/
def exchangesFrom (config : Config) (process : Process) (polls : List Poll) : List Exchange :=
  ((server config).historyFrom process polls).flatMap Record.output

/-- The connections of a whole run, in order. -/
def exchanges (config : Config) (polls : List Poll) : List Exchange :=
  exchangesFrom config (server config).init polls

section Runs

variable {os : Allocators} {toolFd adminFd : Handle} {held : Finset Handle} {config : Config}

/-- The loop does what the server does. -/
theorem serve_run (htool : toolFd ∈ held) (hadmin : adminFd ∈ held) (process : Process)
    (polls : List Poll) :
    serve os toolFd adminFd process polls (process.holds held) =
      .ok (((server config).runFrom process polls, exchangesFrom config process polls),
        ((server config).runFrom process polls).holds held) := by
  induction polls generalizing process with
  | nil => rfl
  | cons poll polls ih =>
      rw [serve, bind_run (pollRound_run htool hadmin process poll)]
      simp only
      rw [bind_run (ih (exchangeRound process poll).1), pure_run]
      rfl

theorem inputs_eq_requestsIn (polls : List Poll) :
    (serverRefinement config).inputs polls = requestsIn config (exchanges config polls) := by
  have hfrom : ∀ process, (serverRefinement config).inputsFrom process polls =
      requestsIn config (exchangesFrom config process polls) := by
    induction polls with
    | nil => exact fun process => rfl
    | cons poll polls ih =>
        intro process
        rw [Refinement.inputsFrom_cons, ih]
        exact (requestsIn_append _ _).symm
  exact hfrom _

/-- What was done for the requests that were read is what the daemon does for them. -/
theorem effectsIn_exchanges (polls : List Poll) :
    effectsIn config (exchanges config polls) =
      ((daemon config).history (requestsIn config (exchanges config polls))).map
        Record.output := by
  rw [← inputs_eq_requestsIn, ← (serverRefinement config).outputs_run polls]
  exact List.filterMap_flatMap

/-- The connections of a run are served one after another. -/
theorem exchanges_serves (config : Config) (polls : List Poll) :
    Serves config (server config).init (exchanges config polls)
      ((server config).run polls) := by
  have hfrom : ∀ process : Process, process.daemon.config = config →
      Serves config process (exchangesFrom config process polls)
        ((server config).runFrom process polls) := by
    induction polls with
    | nil => exact fun process _ => .done process
    | cons poll polls ih =>
        intro process hconfig
        exact (exchangeRound_serves hconfig poll).append
          (ih _ ((exchangeRound_config poll).trans hconfig))
  exact hfrom _ rfl

end Runs

end AnythingTool
