import AnythingTool.Daemon.Replies

/-!
# The two capacities

The store has sixty-four slots and never frees one, so it is full once sixty-four
requests have been stored, whatever became of them. The list of stored requests is
printed into a buffer that holds thirty-two, so from the thirty-third on an admin can no
longer see what is waiting.
-/

namespace AnythingTool

open CText JsonText

variable {config : Config} {approvals : ApprovalStore} {input : Input} {request : RpcRequest}

/-! ## The list -/

/-- The strings of a list entry decode to the fields of the stored request. -/
structure EntryReads (p : PendingRequest) : Prop where
  requestId : StringValue (stringValue p.requestId.bytes) p.requestId.bytes
  method : StringValue (stringValue p.method.bytes) p.method.bytes
  risk : StringValue (stringValue p.risk.bytes) p.risk.bytes
  summary : StringValue (stringValue p.summary.bytes) p.summary.bytes

/-- The response carries the list of all stored requests, in the order of their slots, and
each of them can be read back. -/
def ListsStore (approvals : ApprovalStore) (request : RpcRequest) (effects : List Effect) :
    Prop :=
  (∃ buf, effects = [.reply (some buf)] ∧
    buf.bytes = resultLine request.id.bytes (listObject approvals.pending)) ∧
  ∀ p ∈ approvals.pending, EntryReads p

theorem stringValue_reads {text : Bytes} (h : ShortText text) :
    StringValue (stringValue text) text := ⟨_, stringBody_escaped h, rfl⟩

theorem Standard.reads {slot : ℕ} {p : PendingRequest} (h : Standard slot p) : EntryReads p := by
  refine ⟨stringValue_reads ?_, stringValue_reads ?_, stringValue_reads ?_,
    stringValue_reads ?_⟩
  · rw [h.requestId]
    exact fun c hc => requestId_shortlyEscaped hc
  · rw [h.method]
    decide
  · rw [h.risk]
    decide
  · rw [h.summary]
    decide

theorem listsStore_of_few (hasks : AsksForList config input request)
    (hid : ∀ c ∈ request.id.bytes, Unescaped c) (hstore : StandardStore approvals.pending)
    (hfew : approvals.count ≤ 32) :
    ListsStore approvals request (handleRequest config approvals input).effects := by
  have hcount : approvals.count ≤ 64 := by omega
  obtain ⟨list, hlist⟩ := (exists_list_iff hstore hcount).mpr hfew
  obtain ⟨-, hbytes⟩ := list_bytes hstore hcount hlist
  have hescaped := length_escaped_lt (shortStrings_of_parse hasks.parse).id
  have hline := jsonLine_resultLine request.id.bytes
    (inline_listObject approvals.pending)
  have hfits : (resultLine request.id.bytes (listObject approvals.pending)).length < 4096 := by
    have hroom := request.id.fits
    unfold ApprovalStore.count at hfew
    rw [length_resultLine, escaped_of_unescaped hid, length_listObject hstore hcount]
    omega
  refine ⟨⟨(printLine 4096 (resultLine request.id.bytes (listObject approvals.pending))).2, ?_,
    printLine_bytes hline hfits⟩, ?_⟩
  · rw [handleRequest_list hasks]
    simp only [hlist, hbytes, resultResponse, anythingRpcResult_eq request.id.noNul hescaped]
    rfl
  · intro p hp
    obtain ⟨slot, hstored⟩ := List.mem_iff_getElem?.mp hp
    exact (hstore slot p hstored).reads

theorem not_listsStore_of_many (hasks : AsksForList config input request)
    (hstore : StandardStore approvals.pending) (hcount : approvals.count ≤ 64)
    (hmany : 32 < approvals.count) :
    ¬ ListsStore approvals request (handleRequest config approvals input).effects := by
  have hnone : anythingApprovalListJson 4096 approvals = none := by
    rw [Option.eq_none_iff_forall_ne_some]
    intro list hlist
    exact absurd ((exists_list_iff hstore hcount).mp ⟨list, hlist⟩) (not_le.mpr hmany)
  have hfixed : FixedError (-32000) (ascii "resource_limit") (ascii "pending list too large") :=
    ⟨by decide, by decide, by decide⟩
  obtain ⟨buf, hreply, hbuf⟩ :=
    plainError_reply (shortStrings_of_parse hasks.parse).id hfixed
  rw [handleRequest_list hasks]
  simp only [hnone, hreply]
  rintro ⟨⟨buf', heffects, hbuf'⟩, -⟩
  obtain rfl : buf = buf' := by simpa using heffects
  exact resultLine_ne_errorLine _ _ _ _ _ _ _ (hbuf'.symm.trans hbuf)

/-- An admin sees the stored requests exactly as long as there are at most thirty-two. -/
theorem listsStore_iff (config : Config) (is : List Input) (input : Input)
    (request : RpcRequest) (hasks : AsksForList config input request)
    (hid : ∀ c ∈ request.id.bytes, Unescaped c) :
    ListsStore ((daemon config).run is).approvals request
        ((daemon config).step ((daemon config).run is) input).2 ↔
      ((daemon config).run is).approvals.count ≤ 32 := by
  have hstore := standardStore_run config is
  have hcount := (counted_run config is).count
  rw [daemon_step_effects]
  constructor
  · intro hlists
    by_contra hmany
    exact not_listsStore_of_many hasks hstore hcount (not_le.mp hmany) hlists
  · exact listsStore_of_few hasks hid hstore

/-- The request for the list under the id `1`. -/
theorem exists_asksForList : ∃ request,
    AsksForList Sample.config (Sample.askForList (ascii "1")) request ∧
      ∀ c ∈ request.id.bytes, Unescaped c := by
  obtain ⟨request, hparse⟩ := exists_ok_of_isSome (by decide +kernel :
    (anythingRpcParse (Sample.askForList (ascii "1")).body).toOption.isSome = true)
  have hfacts : ∀ request,
      anythingRpcParse (Sample.askForList (ascii "1")).body = .ok request →
        request.method.bytes = ascii "approval.list" ∧
          ∀ c ∈ request.id.bytes, Unescaped c := by decide +kernel
  obtain ⟨hmethod, hid⟩ := hfacts request hparse
  exact ⟨request, ⟨rfl, by decide, hparse, hmethod⟩, hid⟩

/-- After ten requests the admin sees ten. -/
theorem listsStore_sample : ∃ request,
    ListsStore ((daemon Sample.config).run
        (List.replicate 10 (Sample.ask Sample.written))).approvals request
      ((daemon Sample.config).step ((daemon Sample.config).run
        (List.replicate 10 (Sample.ask Sample.written))) (Sample.askForList (ascii "1"))).2 := by
  obtain ⟨request, hasks, hid⟩ := exists_asksForList
  refine ⟨request, (listsStore_iff Sample.config _ _ request hasks hid).mpr ?_⟩
  rw [Sample.count_asks (by decide)]
  decide

/-- After thirty-three requests the list is refused. -/
theorem not_listsStore :
    ¬ ∀ config is input request, AsksForList config input request →
      (∀ c ∈ request.id.bytes, Unescaped c) →
      ListsStore ((daemon config).run is).approvals request
        ((daemon config).step ((daemon config).run is) input).2 := by
  intro h
  obtain ⟨request, hasks, hid⟩ := exists_asksForList
  have hcount := Sample.count_asks (by decide : 33 ≤ approvalMaxPending)
  have hlists := h Sample.config (List.replicate 33 (Sample.ask Sample.written)) _ request
    hasks hid
  rw [daemon_step_effects] at hlists
  refine not_listsStore_of_many hasks (standardStore_run Sample.config _) ?_ ?_ hlists
  · rw [hcount]
    decide
  · rw [hcount]
    decide

/-! ## The store -/

/-- An effect that fills a slot. -/
def Effect.Stores : Effect → Bool
  | .added _ => true
  | _ => false

/-- The number of requests stored in a history. -/
def storedCount (history : List DaemonRecord) : ℕ :=
  (history.flatMap fun r => r.output).countP Effect.Stores

/-- A stored request that can still be granted or executed. -/
def Live (now : ℤ) (p : PendingRequest) : Prop :=
  (p.status = .pending ∨ p.status = .granted) ∧ now ≤ p.expiresAt

instance (now : ℤ) (p : PendingRequest) : Decidable (Live now p) :=
  inferInstanceAs (Decidable
    ((p.status = .pending ∨ p.status = .granted) ∧ now ≤ p.expiresAt))

/-- A request either fills a slot or leaves the number of filled slots alone. -/
theorem HandlerMove.count {handled : Handled} (h : HandlerMove config approvals input handled) :
    handled.approvals.count = approvals.count + handled.effects.countP Effect.Stores := by
  cases h with
  | @quiet effects hquiet =>
      have hnone : ∀ x ∈ effects, ¬ Effect.Stores x = true := by
        intro x hx
        have hx := hquiet x hx
        cases x with
        | added slot => exact hx.elim
        | _ => simp [Effect.Stores]
      rw [List.countP_eq_zero.mpr hnone, Nat.add_zero]
  | added hadmits =>
      rw [count_push]
      rfl
  | granted haddr hstatus hnow hother =>
      rw [count_write]
      rfl
  | rejected haddr hother =>
      rw [count_write]
      rfl
  | ran haddr hstatus hnow hpolicy hstarted =>
      unfold afterRun
      split
      · rfl
      · rw [count_write]
        rfl

theorem storedCount_run (config : Config) (is : List Input) :
    storedCount ((daemon config).history is) = ((daemon config).run is).approvals.count := by
  induction is using List.reverseRecOn with
  | nil => rfl
  | append_singleton is input ih =>
      have hmove := (daemon_move config ((daemon config).run is) input).count
      rw [Transition.Machine.history_append_singleton, Transition.Machine.run_append_singleton,
        storedCount, List.flatMap_append, List.countP_append, List.flatMap_singleton]
      change storedCount ((daemon config).history is) + _ = _
      rw [ih]
      exact hmove.symm

/-- The request is refused because the store is full. -/
def RefusedFull (effects : List Effect) : Prop :=
  Reports effects (ascii "resource_limit") (ascii "approval store full")

theorem refusedFull_of_full (h : ReachesStore config input request)
    (hfull : approvalMaxPending ≤ approvals.count) :
    RefusedFull (handleRequest config approvals input).effects := by
  have hid := (shortStrings_of_parse h.parse).id
  rcases h.handled approvals with ⟨-, hhandled⟩ | ⟨hroom, -⟩
  · rw [hhandled, RefusedFull, reports_emit (by simp)]
    exact reports_plainError hid ⟨by decide, by decide, by decide⟩
  · exact absurd hroom (not_lt.mpr hfull)

theorem not_refusedFull_of_room (h : ReachesStore config input request)
    (hroom : approvals.count < approvalMaxPending) :
    ¬ RefusedFull (handleRequest config approvals input).effects := by
  have hid := (shortStrings_of_parse h.parse).id
  rcases h.handled approvals with ⟨hfull, -⟩ | ⟨-, requestId, risk, summary, hfields, hhandled⟩
  · exact absurd hroom (not_lt.mpr hfull)
  · rw [hhandled, RefusedFull, reports_emit (by simp), reports_emit (by simp), checkedAudit,
      reports_emit (by simp)]
    intro hreports
    split_ifs at hreports
    · obtain ⟨data, hdata, hkey, hinline, hlen⟩ := approvalRequiredData_fields hfields
        (admitted config approvals input request).expiresAt
      rw [hdata] at hreports
      have hsame := hreports.of_error hid ⟨by decide, by decide, by decide⟩ hkey hinline hlen
      exact absurd hsame.1 (by decide)
    · have hsame := hreports.of_plainError hid ⟨by decide, by decide, by decide⟩
      exact absurd hsame.1 (by decide)

/-- A request the policy allows is refused by the store exactly when sixty-four requests
have been stored before it, whatever became of them. -/
theorem refusedFull_iff (config : Config) (is : List Input) (input : Input)
    (request : RpcRequest) (h : ReachesStore config input request) :
    RefusedFull ((daemon config).step ((daemon config).run is) input).2 ↔
      storedCount ((daemon config).history is) = approvalMaxPending := by
  rw [daemon_step_effects, storedCount_run]
  constructor
  · intro hrefused
    by_contra hcount
    have hle := (counted_run config is).count
    exact not_refusedFull_of_room h (lt_of_le_of_ne hle hcount) hrefused
  · intro hcount
    exact refusedFull_of_full h hcount.ge

/-- The agent's request at a later time. -/
def laterAsk (now : ℤ) : Input :=
  { Sample.ask Sample.written with env := { Sample.env Sample.written with now := now } }

theorem exists_reachesStore (now : ℤ) :
    ∃ request, ReachesStore Sample.config (laterAsk now) request := by
  obtain ⟨request, hparse⟩ := exists_ok_of_isSome (by decide +kernel :
    (anythingRpcParse (Sample.ask Sample.written).body).toOption.isSome = true)
  have hfacts : ∀ request, anythingRpcParse (Sample.ask Sample.written).body = .ok request →
      (auditWrite Sample.written (receivedEvent request Sample.agent)).ok = true ∧
        (anythingPolicyPreflight Sample.config request).decision ≠ .deny := by decide +kernel
  obtain ⟨hreceived, hallowed⟩ := hfacts request hparse
  exact ⟨request, rfl, hparse, hreceived, hallowed⟩

/-- The sixty-fourth request is not refused. -/
theorem refusedFull_sample :
    ¬ RefusedFull ((daemon Sample.config).step ((daemon Sample.config).run
      (List.replicate 63 (Sample.ask Sample.written))) (laterAsk 100)).2 := by
  obtain ⟨request, hreaches⟩ := exists_reachesStore 100
  rw [refusedFull_iff Sample.config _ _ request hreaches, storedCount_run,
    Sample.count_asks (by decide)]
  decide

/-- Sixty-four expired requests refuse the next one. -/
theorem not_live_of_refusedFull :
    ¬ ∀ config is input request, ReachesStore config input request →
      RefusedFull ((daemon config).step ((daemon config).run is) input).2 →
      (((daemon config).run is).approvals.pending.filter fun p =>
        Live input.env.now p).length = approvalMaxPending := by
  intro h
  obtain ⟨request, hreaches⟩ := exists_reachesStore 1000
  have hcount := Sample.count_asks le_rfl
  have hrefused := refusedFull_of_full hreaches hcount.ge
  rw [← daemon_step_effects] at hrefused
  have hlive := h Sample.config _ _ request hreaches hrefused
  have hexpired : ∀ p ∈ ((daemon Sample.config).run
      (List.replicate approvalMaxPending (Sample.ask Sample.written))).approvals.pending,
      ¬ Live (laterAsk 1000).env.now p := by
    intro p hp hlive
    obtain ⟨slot, hstored⟩ := List.mem_iff_getElem?.mp hp
    obtain ⟨r, hr, -, created, hto⟩ := bound_run Sample.config _ slot p hstored
    obtain ⟨past, input, rest, his, rfl⟩ := (daemon Sample.config).mem_history hr
    have hmem : input ∈ List.replicate approvalMaxPending (Sample.ask Sample.written) := by
      rw [his]
      simp
    obtain rfl := List.eq_of_mem_replicate hmem
    have hexpires : p.expiresAt = 100 + 300 := hto.expiresAt
    have hnow : 1000 ≤ p.expiresAt := hlive.2
    omega
  rw [List.filter_eq_nil_iff.mpr (by simpa using hexpired)] at hlive
  exact absurd hlive (by decide)

end AnythingTool
