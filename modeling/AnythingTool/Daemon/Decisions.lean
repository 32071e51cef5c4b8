import AnythingTool.Daemon.Moves

/-!
# Decisions about a stored request

Who may grant a request, and what happens to a decision afterwards. A grant needs
an admin whose peer credentials are not the requester's: the user may be the same
when the process is another one. `anything_approval_reject` does not look at the
status of the request, so an executed request can be rejected later and a rejected
one again by another admin; `RejectsOpen` excludes these two calls, and it is exactly
what makes decisions final.
-/

namespace AnythingTool

open CText Transition

/-! ## Who grants -/

/-- The request in the slot becomes `GRANTED` in this step. -/
structure BecomesGranted (state state' : DaemonState) (slot : ℕ) (e : PendingRequest) :
    Prop where
  after : state'.approvals.pending[slot]? = some e
  granted : e.status = .granted
  before : ∀ e₀, state.approvals.pending[slot]? = some e₀ → e₀.status ≠ .granted

theorem SlotMove.of_becomesGranted {config : Config} {approvals : ApprovalStore}
    {input : Input} {effects : List Effect} {slot : ℕ} {o : Option PendingRequest}
    {e : PendingRequest} (h : SlotMove config approvals input effects slot o (some e))
    (hgranted : e.status = .granted) (hbefore : ∀ e₀, o = some e₀ → e₀.status ≠ .granted) :
    ∃ e₀, o = some e₀ ∧ e = e₀.grantedBy input.peer ∧
      Addresses config approvals input (ascii "approval.approve") ⟨slot, e₀⟩ ∧
      e₀.requester ≠ input.peer := by
  cases h with
  | kept hrun hreject => exact absurd hgranted (hbefore e rfl)
  | created hadmits hslot hrun hadded haudit => cases hgranted
  | @granted e₀ haddr hstatus hnow hother hrun hmem haudit =>
      exact ⟨e₀, rfl, rfl, haddr, hother⟩
  | rejected haddr hother => cases hgranted
  | executed hstatus => cases hgranted

/-- With the allowlist required, an admin is a peer that the allowlist names. -/
theorem anythingConfigIdentityIsAdmin_iff {config : Config} {peer : Identity}
    (hrequired : config.requireAdminAllowlist = true) :
    anythingConfigIdentityIsAdmin config peer = true ↔
      (peer.uid.toNat : ℤ) ∈ config.adminAllowedUids ∨
        (peer.gid.toNat : ℤ) ∈ config.adminAllowedGids := by
  simp [anythingConfigIdentityIsAdmin, hrequired]

/-- A request becomes granted only through an `approval.approve` of an allowlisted
peer whose credentials differ from the requester's. -/
theorem becomesGranted_separate (config : Config)
    (hrequired : config.requireAdminAllowlist = true) (past : List Input) (input : Input)
    (slot : ℕ) (e : PendingRequest)
    (h : BecomesGranted ((daemon config).run past)
      ((daemon config).step ((daemon config).run past) input).1 slot e) :
    ((input.peer.uid.toNat : ℤ) ∈ config.adminAllowedUids ∨
        (input.peer.gid.toNat : ℤ) ∈ config.adminAllowedGids) ∧
      (∃ e₀, Addresses config ((daemon config).run past).approvals input
        (ascii "approval.approve") ⟨slot, e₀⟩ ∧ e = e₀.grantedBy input.peer) ∧
      ¬ (input.peer.uid = e.requester.uid ∧ input.peer.gid = e.requester.gid ∧
        input.peer.pid = e.requester.pid) := by
  have hmove := slotMove (daemon_move config ((daemon config).run past) input) slot
  rw [h.after, daemon_run_config] at hmove
  obtain ⟨e₀, hstored, rfl, haddr, hother⟩ := hmove.of_becomesGranted h.granted h.before
  refine ⟨(anythingConfigIdentityIsAdmin_iff hrequired).mp haddr.admin,
    ⟨e₀, haddr, rfl⟩, ?_⟩
  intro hsame
  apply hother
  exact Identity.ext hsame.1.symm hsame.2.1.symm hsame.2.2.symm

/-- The agent's own user grants the agent's request from another process. -/
theorem exists_becomesGranted :
    ∃ e, BecomesGranted ((daemon Sample.config).run [Sample.ask Sample.written])
        ((daemon Sample.config).step ((daemon Sample.config).run [Sample.ask Sample.written])
          (Sample.ruling Sample.operator "approval.approve" Sample.written)).1 0 e ∧
      e.requester = Sample.agent := by
  have hafter : ((daemon Sample.config).step
      ((daemon Sample.config).run [Sample.ask Sample.written])
      (Sample.ruling Sample.operator "approval.approve" Sample.written)).1.approvals.pending[0]?.map
        (fun e => (e.status, e.requester)) = some (.granted, Sample.agent) := by
    decide +kernel
  have hbefore : ((daemon Sample.config).run
      [Sample.ask Sample.written]).approvals.pending[0]?.map (·.status) = some .pending := by
    decide +kernel
  obtain ⟨e, hstored, heq⟩ := Option.map_eq_some_iff.mp hafter
  obtain ⟨hstatus, hrequester⟩ := Prod.mk.inj heq
  refine ⟨e, ⟨hstored, hstatus, ?_⟩, hrequester⟩
  intro e₀ h₀
  rw [h₀, Option.map_some, Option.some.injEq] at hbefore
  rw [hbefore]
  decide

theorem becomesGranted_separate_sample :
    ∃ e : PendingRequest, e.requester = Sample.agent ∧
      ¬ (Sample.operator.uid = e.requester.uid ∧ Sample.operator.gid = e.requester.gid ∧
        Sample.operator.pid = e.requester.pid) := by
  obtain ⟨e, h, hrequester⟩ := exists_becomesGranted
  exact ⟨e, hrequester,
    (becomesGranted_separate Sample.config (by decide) [Sample.ask Sample.written]
      (Sample.ruling Sample.operator "approval.approve" Sample.written) 0 e h).2.2⟩

theorem not_becomesGranted_otherUser :
    ¬ ∀ config : Config, config.requireAdminAllowlist = true →
      ∀ past input slot e, BecomesGranted ((daemon config).run past)
        ((daemon config).step ((daemon config).run past) input).1 slot e →
      input.peer.uid ≠ e.requester.uid := by
  intro h
  obtain ⟨e, hgranted, hrequester⟩ := exists_becomesGranted
  apply h Sample.config (by decide) [Sample.ask Sample.written]
    (Sample.ruling Sample.operator "approval.approve" Sample.written) 0 e hgranted
  rw [hrequester]
  rfl

/-! ## What becomes of a decision -/

/-- A request whose life is over. -/
def Decided (e : PendingRequest) : Prop := e.status = .executed ∨ e.status = .rejected

/-- Between these two states no decision changes. -/
def DecisionsStand (state state' : DaemonState) : Prop :=
  ∀ (slot : ℕ) (e : PendingRequest), state.approvals.pending[slot]? = some e → Decided e →
    ∃ e', state'.approvals.pending[slot]? = some e' ∧ e'.status = e.status ∧
      e'.approver = e.approver

/-- No `approval.reject` is accepted for an executed request, nor for a rejected one
that has another admin on record. -/
def RejectsOpen (state : DaemonState) (input : Input) : Prop :=
  ∀ ref, Addresses state.config state.approvals input (ascii "approval.reject") ref →
    ref.request.requester ≠ input.peer →
    ref.request.status ≠ .executed ∧
      (ref.request.status = .rejected → ref.request.approver = input.peer)

theorem DecisionsStand.refl (state : DaemonState) : DecisionsStand state state := by
  intro slot e hstored _
  exact ⟨e, hstored, rfl, rfl⟩

theorem DecisionsStand.trans {s t u : DaemonState} (hst : DecisionsStand s t)
    (htu : DecisionsStand t u) : DecisionsStand s u := by
  intro slot e hstored hdecided
  obtain ⟨e', hstored', hstatus', happrover'⟩ := hst slot e hstored hdecided
  have hdecided' : Decided e' := by
    rw [Decided, hstatus']
    exact hdecided
  obtain ⟨e'', hstored'', hstatus'', happrover''⟩ := htu slot e' hstored' hdecided'
  exact ⟨e'', hstored'', hstatus''.trans hstatus', happrover''.trans happrover'⟩

theorem decisionsStand_step {config : Config} {state : DaemonState} {input : Input}
    (hopen : RejectsOpen state input) :
    DecisionsStand state ((daemon config).step state input).1 := by
  intro slot e hstored hdecided
  have hmove := slotMove (daemon_move config state input) slot
  rw [hstored] at hmove
  generalize ho : ((daemon config).step state input).1.approvals.pending[slot]? = o at hmove
  cases hmove with
  | kept hrun hreject => exact ⟨e, rfl, rfl, rfl⟩
  | granted haddr hstatus hnow hother hrun hmem haudit =>
      rw [Decided, hstatus] at hdecided
      rcases hdecided with h | h
      · cases h
      · cases h
  | rejected haddr hother =>
      obtain ⟨hnotExecuted, hsame⟩ := hopen ⟨slot, e⟩ haddr hother
      rcases hdecided with h | h
      · exact absurd h hnotExecuted
      · exact ⟨_, rfl, h.symm, (hsame h).symm⟩
  | executed hstatus =>
      rw [Decided, hstatus] at hdecided
      rcases hdecided with h | h
      · cases h
      · cases h

/-- An accepted rejection overwrites whatever was decided before. -/
theorem handleRequest_reject {config : Config} {approvals : ApprovalStore} {input : Input}
    {ref : PendingRef} (h : Addresses config approvals input (ascii "approval.reject") ref)
    (hother : ref.request.requester ≠ input.peer) :
    (handleRequest config approvals input).approvals =
      approvals.write ⟨ref.slot, ref.request.rejectedBy input.peer⟩ := by
  obtain ⟨request, requestId, hparse, hmethod, hid, hfind⟩ := h.names
  have hreject : anythingApprovalReject (some ref) input.peer =
      .ok ⟨ref.slot, ref.request.rejectedBy input.peer⟩ :=
    anythingApprovalReject_eq_ok.mpr ⟨ref, rfl, hother, rfl⟩
  have hroute : ascii "approval.reject" ≠ ascii "approval.list" ∧
      ascii "approval.reject" ≠ ascii "approval.execute" ∧
      ascii "approval.reject" ≠ ascii "approval.approve" := by decide
  simp only [handleRequest, h.plane, handleAdminRequest, hparse, h.admin, Bool.not_true,
    Bool.false_eq_true, if_false, routeAdminRequest, hmethod, hroute, hid, hfind, if_true,
    handleAdminReject, hreject, emit, checkedAudit]
  split_ifs <;> rfl

theorem rejectsOpen_of_step {config : Config} {state : DaemonState} {input : Input}
    (h : DecisionsStand state ((daemon config).step state input).1) :
    RejectsOpen state input := by
  intro ref haddr hother
  have hafter := getElem?_write_self (ref.request.rejectedBy input.peer) haddr.stored
  rw [← handleRequest_reject haddr hother] at hafter
  have hkept : Decided ref.request → ref.request.status = .rejected ∧
      ref.request.approver = input.peer := by
    intro hdecided
    obtain ⟨e', hstored', hstatus', happrover'⟩ :=
      h ref.slot ref.request haddr.stored hdecided
    obtain rfl := Option.some.inj (hafter.symm.trans hstored')
    exact ⟨hstatus'.symm, happrover'.symm⟩
  refine ⟨?_, ?_⟩
  · intro hexecuted
    have hrejected := (hkept (.inl hexecuted)).1
    rw [hexecuted] at hrejected
    cases hrejected
  · intro hrejected
    exact (hkept (.inr hrejected)).2

/-- Decisions stand between any two states of a run exactly when none of its steps
rejects a decided request. -/
theorem decisionsStand_iff (config : Config) (is : List Input) :
    (∀ past later rest, is = past ++ later ++ rest →
      DecisionsStand ((daemon config).run past) ((daemon config).run (past ++ later))) ↔
      ∀ r ∈ (daemon config).history is, RejectsOpen r.before r.input := by
  constructor
  · intro hstand r hr
    obtain ⟨past, input, rest, his, hrecord⟩ := (daemon config).mem_history hr
    have hstep := hstand past [input] rest (by rw [his]; simp)
    rw [Machine.run_append_singleton] at hstep
    rw [hrecord]
    exact rejectsOpen_of_step hstep
  · intro hopen past later rest his
    subst his
    rw [Machine.run_append]
    apply (daemon config).related_runFrom DecisionsStand.refl
      (fun _ _ _ => DecisionsStand.trans) (fun _ _ => decisionsStand_step)
    intro r hr
    apply hopen
    rw [Machine.history, Machine.historyFrom_append, Machine.historyFrom_append]
    exact List.mem_append_left _ (List.mem_append_right _ hr)

/-- An executed request is recorded as rejected afterwards. -/
theorem not_decisionsStand :
    ¬ ∀ config past later,
      DecisionsStand ((daemon config).run past) ((daemon config).run (past ++ later)) := by
  intro h
  have hbefore : ((daemon Sample.config).run [Sample.ask Sample.written,
      Sample.ruling Sample.operator "approval.approve" Sample.written,
      Sample.ruling Sample.operator "approval.execute"
        Sample.written]).approvals.pending[0]?.map (·.status) = some .executed := by
    decide +kernel
  have hafter : ((daemon Sample.config).run ([Sample.ask Sample.written,
      Sample.ruling Sample.operator "approval.approve" Sample.written,
      Sample.ruling Sample.operator "approval.execute" Sample.written] ++
      [Sample.ruling Sample.operator "approval.reject"
        Sample.written])).approvals.pending[0]?.map (·.status) = some .rejected := by
    decide +kernel
  obtain ⟨e, hstored, hexecuted⟩ := Option.map_eq_some_iff.mp hbefore
  obtain ⟨e', hstored', hstatus, -⟩ := h Sample.config _ _ 0 e hstored (.inl hexecuted)
  rw [hstored', Option.map_some, hstatus, hexecuted] at hafter
  cases hafter

end AnythingTool
