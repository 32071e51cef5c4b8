import AnythingTool.Daemon.Moves

/-!
# When the tool runs

What has happened before a request runs `anything_sys_info_json`. `SlotStanding`
ties the status of a slot to the history of the run: a pending or granted request
has not been run, and a granted one was granted properly and not rejected since.
`SlotLogged` ties it to the audit log, in the runs in which the audit writes that
record a new request and its grant succeed: the handlers write these events after
they have changed the store, so without that condition a request can be run whose
grant was never recorded.
-/

namespace AnythingTool

open CText Transition

/-- The step in which an admin granted what is now `e`. -/
structure Grants (config : Config) (slot : ℕ) (e : PendingRequest) (r : DaemonRecord) :
    Prop where
  admin : anythingConfigIdentityIsAdmin config r.input.peer = true
  granted : .granted slot r.input.peer ∈ r.output
  same : ∃ e₀, r.before.approvals.pending[slot]? = some e₀ ∧ e = e₀.grantedBy r.input.peer
  separate : anythingIdentitySame r.input.peer e.requester = false
  unexpired : r.input.env.now ≤ e.expiresAt

/-- What the history says about a stored request. -/
structure Standing (config : Config) (history : List DaemonRecord) (slot : ℕ)
    (e : PendingRequest) : Prop where
  method : e.method.bytes = ascii "sys.info"
  capability : config.capabilitySysRead = true
  notRun : e.status = .pending ∨ e.status = .granted → ∀ r ∈ history, NotRun slot r.output
  granted : e.status = .granted →
    Since (Grants config slot e) (fun r => NotRejected slot r.output) history

/-- What the history says about a slot. -/
def SlotStanding (config : Config) (history : List DaemonRecord) (slot : ℕ) :
    Option PendingRequest → Prop
  | none => ∀ r ∈ history, NotRun slot r.output
  | some e => Standing config history slot e

theorem forall_notRun_append {past : List DaemonRecord} {r : DaemonRecord} {slot : ℕ}
    (hpast : ∀ r ∈ past, NotRun slot r.output) (hr : NotRun slot r.output) :
    ∀ r' ∈ past ++ [r], NotRun slot r'.output := by
  intro r' hr'
  rcases List.mem_append.mp hr' with hr' | hr'
  · exact hpast r' hr'
  · rw [List.mem_singleton.mp hr']
    exact hr

theorem anythingIdentitySame_of_ne {a b : Identity} (h : a ≠ b) :
    anythingIdentitySame b a = false := by
  rw [← Bool.not_eq_true, anythingIdentitySame_iff]
  exact h.symm

theorem slotStanding_step {config : Config} (past : List DaemonRecord) (r : DaemonRecord)
    (slot : ℕ) (o o' : Option PendingRequest) (hpast : SlotStanding config past slot o)
    (hmove : SlotMove config r.before.approvals r.input r.output slot o o') :
    SlotStanding config (past ++ [r]) slot o' := by
  cases hmove with
  | @kept e hrun hreject =>
      cases o with
      | none => exact forall_notRun_append hpast hrun
      | some e =>
          refine ⟨hpast.method, hpast.capability, ?_, ?_⟩
          · intro hopen
            exact forall_notRun_append (hpast.notRun hopen) hrun
          · intro hgranted
            exact since_append_singleton.mpr (.inr ⟨hpast.granted hgranted, hreject⟩)
  | created hadmits hslot hrun hadded haudit =>
      refine ⟨?_, hadmits.capability, ?_, ?_⟩
      · rw [admitted_method, hadmits.method]
      · intro _
        exact forall_notRun_append hpast hrun
      · intro hgranted
        cases hgranted
  | @granted e haddr hstatus hnow hother hrun hgranted haudit =>
      refine ⟨hpast.method, hpast.capability, ?_, ?_⟩
      · intro _
        exact forall_notRun_append (hpast.notRun (.inl hstatus)) hrun
      · intro _
        apply since_append_singleton.mpr
        exact .inl ⟨haddr.admin, hgranted, ⟨e, haddr.stored, rfl⟩,
          anythingIdentitySame_of_ne hother, hnow⟩
  | rejected haddr hother =>
      refine ⟨hpast.method, hpast.capability, ?_, ?_⟩
      · intro hopen
        rcases hopen with hopen | hopen
        · cases hopen
        · cases hopen
      · intro hgranted
        cases hgranted
  | executed hstatus =>
      refine ⟨hpast.method, hpast.capability, ?_, ?_⟩
      · intro hopen
        rcases hopen with hopen | hopen
        · cases hopen
        · cases hopen
      · intro hgranted
        cases hgranted

theorem slotStanding_run (config : Config) (is : List Input) (slot : ℕ) :
    SlotStanding config ((daemon config).history is) slot
      ((daemon config).run is).approvals.pending[slot]? := by
  refine slotInvariant (A := fun _ _ => True)
    (P := fun past slot o => SlotStanding config past slot o) ?_ ?_ is ?_ slot
  · intro slot r hr
    cases hr
  · intro past r slot o o' _ _ hpast hmove
    exact slotStanding_step past r slot o o' hpast hmove
  · intro r _
    trivial

/-- A handler that runs the tool has made all its checks and its first audit write. -/
theorem HandlerMove.of_sysInfo {config : Config} {approvals : ApprovalStore} {input : Input}
    {handled : Handled} (h : HandlerMove config approvals input handled) {slot : ℕ}
    {result : Except (CString 128) (CString 2048)}
    (hrun : .sysInfo slot result ∈ handled.effects) :
    ∃ e w r, Addresses config approvals input (ascii "approval.execute") ⟨slot, e⟩ ∧
      e.status = .granted ∧ input.env.now ≤ e.expiresAt ∧
      (auditWrite (input.env.audit 0) (executionStartedEvent e input.peer)).ok = true ∧
      handled.effects = [.audit (auditWrite (input.env.audit 0)
        (executionStartedEvent e input.peer)), .sysInfo slot result, .audit w, .reply r] := by
  cases h with
  | quiet hquiet => exact (hquiet _ hrun).elim
  | added hadmits => simp at hrun
  | granted haddr hstatus hnow hother => simp at hrun
  | rejected haddr hother => simp at hrun
  | @ran ref w r haddr hstatus hnow hpolicy hstarted =>
      obtain ⟨rfl, rfl⟩ : slot = ref.slot ∧ result = anythingSysInfoJson input.env.os := by
        simpa using hrun
      exact ⟨ref.request, w, r, haddr, hstatus, hnow, hstarted, rfl⟩

/-- Every run of the tool is for a request that an admin other than its requester
granted in time and that was neither rejected nor run since. -/
theorem execution_safety (config : Config) (past : List Input) (input : Input) (slot : ℕ)
    (result : Except (CString 128) (CString 2048))
    (hrun : .sysInfo slot result ∈
      ((daemon config).step ((daemon config).run past) input).2) :
    ∃ e, ((daemon config).run past).approvals.pending[slot]? = some e ∧
      input.plane = .admin ∧ anythingConfigIdentityIsAdmin config input.peer = true ∧
      e.method.bytes = ascii "sys.info" ∧ config.capabilitySysRead = true ∧
      Since (Grants config slot e) (fun r => NotRejected slot r.output)
        ((daemon config).history past) ∧
      (∀ r ∈ (daemon config).history past, NotRun slot r.output) ∧
      input.env.now ≤ e.expiresAt ∧
      ∃ started rest,
        ((daemon config).step ((daemon config).run past) input).2 =
          .audit started :: .sysInfo slot result :: rest ∧
        started.ok = true ∧ started.event = executionStartedEvent e input.peer := by
  obtain ⟨e, w, r, haddr, hstatus, hnow, hstarted, heffects⟩ :=
    (daemon_move config ((daemon config).run past) input).of_sysInfo hrun
  rw [daemon_run_config] at haddr
  have hstanding := slotStanding_run config past slot
  rw [haddr.stored] at hstanding
  exact ⟨e, haddr.stored, haddr.plane, haddr.admin, hstanding.method, hstanding.capability,
    hstanding.granted hstatus, hstanding.notRun (.inr hstatus), hnow,
    _, _, heffects, hstarted, rfl⟩

/-- The run of a request that the agent's own user approves from another process. -/
theorem execution_safety_sample :
    ∃ e, ((daemon Sample.config).run [Sample.ask Sample.written,
        Sample.ruling Sample.operator "approval.approve" Sample.written]).approvals.pending[0]? =
          some e ∧
      Since (Grants Sample.config 0 e) (fun r => NotRejected 0 r.output)
        ((daemon Sample.config).history [Sample.ask Sample.written,
          Sample.ruling Sample.operator "approval.approve" Sample.written]) := by
  obtain ⟨e, hstored, -, -, -, -, hsince, -⟩ := execution_safety Sample.config
    [Sample.ask Sample.written,
      Sample.ruling Sample.operator "approval.approve" Sample.written]
    (Sample.ruling Sample.operator "approval.execute" Sample.written) 0
    (anythingSysInfoJson Sample.os) (by decide +kernel)
  exact ⟨e, hstored, hsince⟩

/-! ## The audit log -/

/-- An audit write of this kind for this request, and it succeeded. -/
structure Records (kind : AuditEventKind) (requestId : Bytes) (w : AuditWrite) : Prop where
  ok : w.ok = true
  event : w.event.event = kind
  requestId : w.event.requestId = requestId

/-- The log holds the way of a request to its execution, in this order. -/
def Recorded (log : List AuditWrite) (e : PendingRequest) : Prop :=
  ∃ required granted started, [required, granted, started].Sublist log ∧
    Records .approvalRequired e.requestId.bytes required ∧
    Records .approvalGranted e.requestId.bytes granted ∧
    granted.event.approver = some e.approver ∧
    Records .executionStarted e.requestId.bytes started

/-- Whatever this request runs is on record at that moment. -/
def RunsRecorded (state : DaemonState) (input : Input) : Prop :=
  ∀ slot result before after e,
    (handleRequest state.config state.approvals input).effects =
      before ++ .sysInfo slot result :: after →
    state.approvals.pending[slot]? = some e →
    Recorded (state.auditLog ++ auditWrites before) e

/-- The audit writes that record a new request and its grant succeed. -/
structure Recording (state : DaemonState) (input : Input) : Prop where
  required : ∀ request, Admits state.config state.approvals input request →
    (auditWrite (input.env.audit 1) (approvalRequiredEvent
      (admitted state.config state.approvals input request) input.peer)).ok = true
  granted : ∀ ref,
    Addresses state.config state.approvals input (ascii "approval.approve") ref →
    ref.request.status = .pending → input.env.now ≤ ref.request.expiresAt →
    ref.request.requester ≠ input.peer →
    (auditWrite (input.env.audit 0)
      (approvalGrantedEvent (ref.request.grantedBy input.peer) input.peer)).ok = true

/-- The log of a history. -/
def logOf (history : List DaemonRecord) : List AuditWrite :=
  history.flatMap fun r => auditWrites r.output

/-- What the log says about a stored request. -/
structure Logged (log : List AuditWrite) (e : PendingRequest) : Prop where
  required : ∃ required, [required].Sublist log ∧
    Records .approvalRequired e.requestId.bytes required
  granted : e.status = .granted → ∃ required granted, [required, granted].Sublist log ∧
    Records .approvalRequired e.requestId.bytes required ∧
    Records .approvalGranted e.requestId.bytes granted ∧
    granted.event.approver = some e.approver

/-- What the log says about a slot. -/
def SlotLogged (log : List AuditWrite) : Option PendingRequest → Prop
  | none => True
  | some e => Logged log e

theorem logOf_append_singleton (past : List DaemonRecord) (r : DaemonRecord) :
    logOf (past ++ [r]) = logOf past ++ auditWrites r.output := by
  rw [logOf, List.flatMap_append, List.flatMap_singleton]
  rfl

theorem Logged.append {log more : List AuditWrite} {e : PendingRequest} (h : Logged log e) :
    Logged (log ++ more) e := by
  refine ⟨?_, ?_⟩
  · obtain ⟨required, hsub, hrequired⟩ := h.required
    exact ⟨required, hsub.trans (List.sublist_append_left _ _), hrequired⟩
  · intro hgranted
    obtain ⟨required, granted, hsub, hrest⟩ := h.granted hgranted
    exact ⟨required, granted, hsub.trans (List.sublist_append_left _ _), hrest⟩

theorem slotLogged_step {config : Config} (past : List DaemonRecord) (r : DaemonRecord)
    (slot : ℕ) (o o' : Option PendingRequest) (hrecording : Recording r.before r.input)
    (hconfig : r.before.config = config) (hpast : SlotLogged (logOf past) o)
    (hmove : SlotMove config r.before.approvals r.input r.output slot o o') :
    SlotLogged (logOf (past ++ [r])) o' := by
  subst hconfig
  rw [logOf_append_singleton]
  cases hmove with
  | kept hrun hreject =>
      cases o with
      | none => trivial
      | some e => exact Logged.append hpast
  | @created request hadmits hslot hrun hadded haudit =>
      have hmem := List.singleton_sublist.mpr (mem_auditWrites.mpr haudit)
      refine ⟨?_, ?_⟩
      · exact ⟨_, hmem.trans (List.sublist_append_right _ _),
          hrecording.required request hadmits, rfl, rfl⟩
      · intro hgranted
        cases hgranted
  | @granted e haddr hstatus hnow hother hrun hgranted haudit =>
      have hmem := List.singleton_sublist.mpr (mem_auditWrites.mpr haudit)
      obtain ⟨required, hsub, hrequired⟩ := Logged.required hpast
      refine ⟨?_, ?_⟩
      · exact ⟨required, hsub.trans (List.sublist_append_left _ _), hrequired⟩
      · intro _
        exact ⟨required, _, hsub.append hmem, hrequired,
          ⟨hrecording.granted _ haddr hstatus hnow hother, rfl, rfl⟩, rfl⟩
  | @rejected e haddr hother =>
      obtain ⟨required, hsub, hrequired⟩ := Logged.required hpast
      refine ⟨?_, ?_⟩
      · exact ⟨required, hsub.trans (List.sublist_append_left _ _), hrequired⟩
      · intro hgranted
        cases hgranted
  | @executed e hstatus =>
      obtain ⟨required, hsub, hrequired⟩ := Logged.required hpast
      refine ⟨?_, ?_⟩
      · exact ⟨required, hsub.trans (List.sublist_append_left _ _), hrequired⟩
      · intro hgranted
        cases hgranted

theorem slotLogged_run (config : Config) (is : List Input)
    (hrecording : ∀ r ∈ (daemon config).history is, Recording r.before r.input) (slot : ℕ) :
    SlotLogged ((daemon config).run is).auditLog
      ((daemon config).run is).approvals.pending[slot]? := by
  rw [daemon_run_auditLog]
  refine slotInvariant (A := Recording) (P := fun past _ o => SlotLogged (logOf past) o)
    ?_ ?_ is hrecording slot
  · intro slot
    trivial
  · intro past r slot o o' hrecording hconfig hpast hmove
    exact slotLogged_step past r slot o o' hrecording hconfig hpast hmove

/-- Only the first audit write of an executing handler comes before the tool. -/
theorem before_sysInfo {w w' : AuditWrite} {slot : ℕ} {r : Option (CString 4096)}
    {result : Except (CString 128) (CString 2048)} {before after : List Effect}
    (h : [.audit w, .sysInfo slot result, .audit w', .reply r] =
      before ++ .sysInfo slot result :: after) :
    auditWrites before = [w] := by
  rcases before with _ | ⟨x, _ | ⟨y, _ | ⟨z, _ | ⟨u, before⟩⟩⟩⟩
  · simp at h
  · obtain rfl : Effect.audit w = x := by simpa using congrArg List.head? h
    rfl
  · simp at h
  · simp at h
  · simp at h

/-- In a run that has always recorded new requests and grants, whatever runs is on
record. -/
theorem runsRecorded_of_recording (config : Config) (past : List Input) (input : Input)
    (hrecording : ∀ r ∈ (daemon config).history past, Recording r.before r.input) :
    RunsRecorded ((daemon config).run past) input := by
  intro slot result before after e heffects hstored
  have hlogged := slotLogged_run config past hrecording slot
  rw [hstored] at hlogged
  have hrun : .sysInfo slot result ∈ (handleRequest ((daemon config).run past).config
      ((daemon config).run past).approvals input).effects := by
    rw [heffects]
    simp
  obtain ⟨e', w, r, haddr, hstatus, hnow, hstarted, heq⟩ := (handlerMove _ _ _).of_sysInfo hrun
  obtain rfl : e = e' := Option.some.inj (hstored.symm.trans haddr.stored)
  obtain ⟨required, granted, hsub, hrequired, hgranted, hname⟩ := hlogged.granted hstatus
  rw [before_sysInfo (heq.symm.trans heffects)]
  exact ⟨required, granted, _, hsub.append (List.Sublist.refl [_]), hrequired, hgranted, hname,
    ⟨hstarted, rfl, rfl⟩⟩

theorem runsRecorded_sample :
    RunsRecorded ((daemon Sample.config).run [Sample.ask Sample.written,
        Sample.ruling Sample.operator "approval.approve" Sample.written])
      (Sample.ruling Sample.operator "approval.execute" Sample.written) := by
  apply runsRecorded_of_recording
  intro r hr
  rcases List.mem_cons.mp hr with rfl | hr
  · refine ⟨?_, ?_⟩
    · intro request h
      have hok : ∀ request, anythingRpcParse (Sample.ask Sample.written).body = .ok request →
          (auditWrite Sample.written (approvalRequiredEvent
            (admitted Sample.config anythingApprovalStoreInit (Sample.ask Sample.written)
              request) Sample.agent)).ok = true := by decide +kernel
      exact hok request h.parse
    · intro ref h
      cases h.plane
  · obtain rfl := List.mem_singleton.mp hr
    refine ⟨?_, ?_⟩
    · intro request h
      cases h.plane
    · intro ref h _ _ _
      obtain ⟨request, requestId, hparse, -, hid, hfind⟩ := h.names
      have hok : ∀ request, anythingRpcParse (Sample.ruling Sample.operator "approval.approve"
          Sample.written).body = .ok request →
          ∀ requestId ∈ anythingRpcExtractParamString 40 request.params.bytes
            (ascii "request_id"),
          ∀ ref ∈ anythingApprovalFind
            ((daemon Sample.config).run [Sample.ask Sample.written]).approvals requestId.bytes,
          (auditWrite Sample.written (approvalGrantedEvent
            (ref.request.grantedBy Sample.operator) Sample.operator)).ok = true := by
        decide +kernel
      exact hok request hparse requestId hid ref hfind

/-- A grant whose audit record could not be written is executed all the same. -/
theorem not_runsRecorded :
    ¬ ∀ config past input, RunsRecorded ((daemon config).run past) input := by
  intro h
  let past := [Sample.ask Sample.written,
    Sample.ruling Sample.operator "approval.approve" Sample.notOpened]
  let input := Sample.ruling Sample.operator "approval.execute" Sample.written
  let state := (daemon Sample.config).run past
  let effects := (handleRequest state.config state.approvals input).effects
  obtain ⟨e, hstored⟩ : ∃ e, state.approvals.pending[0]? = some e :=
    Option.isSome_iff_exists.mp (by decide +kernel)
  have heffects : effects = effects.take 1 ++
      .sysInfo 0 (anythingSysInfoJson Sample.os) :: effects.drop 2 := by decide +kernel
  have hunrecorded : ∀ w ∈ state.auditLog ++ auditWrites (effects.take 1),
      w.event.event = .approvalGranted → w.ok = false := by decide +kernel
  obtain ⟨required, granted, started, hsub, -, hgranted, -⟩ :=
    h Sample.config past input 0 _ _ _ e heffects hstored
  have hfailed := hunrecorded granted (hsub.subset (by simp)) hgranted.event
  rw [hgranted.ok] at hfailed
  cases hfailed

end AnythingTool
