import AnythingTool.Daemon.AuditFailure
import AnythingTool.Daemon.AuditFields

/-!
# A request that is filed can be served

The handlers find a stored request by the id an admin names, so requests that do not name it
leave it alone, whoever sends them and however many there are (`slot_kept`). A request that is
filed, granted in time by another admin and executed in time is therefore served, with
anything else in between on both sockets (`request_served`).
-/

namespace AnythingTool

open CText JsonText Transition

/-- The id that is handed out for a slot. -/
def slotId (slot : ℕ) : Bytes := ascii "req_" ++ formatNat (slot + 1)

/-- The request names this id. -/
def Names (input : Input) (id : Bytes) : Prop :=
  ∃ request requestId, anythingRpcParse input.body = .ok request ∧
    namedId request = some requestId ∧ requestId.bytes = id

/-- What is sent does not name this id to the handler of the admin socket. -/
def LeavesAlone (id : Bytes) (input : Input) : Prop :=
  input.plane = .admin → ¬ Names input id

/-- An admin's request of this method for this id. -/
structure AdminCall (config : Config) (input : Input) (method id : Bytes) : Prop where
  plane : input.plane = .admin
  admin : anythingConfigIdentityIsAdmin config input.peer = true
  names : ∃ request requestId, anythingRpcParse input.body = .ok request ∧
    request.method.bytes = method ∧ namedId request = some requestId ∧ requestId.bytes = id

section Progress

variable {config : Config} {approvals : ApprovalStore} {input : Input} {slot : ℕ}
  {e : PendingRequest}

/-! ## Other requests -/

theorem Addresses.names_id {method : Bytes} {ref : PendingRef}
    (h : Addresses config approvals input method ref) :
    Names input ref.request.requestId.bytes := by
  obtain ⟨request, requestId, hparse, -, hid, hfind⟩ := h.names
  exact ⟨request, requestId, hparse, hid, (anythingApprovalFind_eq_some hfind).2.symm⟩

/-- A request that is addressed is another one than one whose id is not named. -/
theorem Addresses.other_slot {method : Bytes} {ref : PendingRef}
    (h : Addresses config approvals input method ref)
    (hstored : approvals.pending[slot]? = some e)
    (hleave : LeavesAlone e.requestId.bytes input) : ref.slot ≠ slot := by
  rintro rfl
  obtain rfl := Option.some.inj (hstored.symm.trans h.stored)
  exact hleave h.plane h.names_id

/-- What does not name a stored request leaves it as it is. -/
theorem slot_kept (hstored : approvals.pending[slot]? = some e)
    (hleave : LeavesAlone e.requestId.bytes input) :
    (handleRequest config approvals input).approvals.pending[slot]? = some e := by
  have hmove := handlerMove config approvals input
  generalize handleRequest config approvals input = handled at hmove
  cases hmove with
  | quiet hquiet => exact hstored
  | added hadmits =>
      have hlt := (List.getElem?_eq_some_iff.mp hstored).1
      have hne : slot ≠ approvals.count := hlt.ne
      rw [getElem?_push_ne hne]
      exact hstored
  | granted haddr hstatus hnow hother =>
      rw [getElem?_write_ne (haddr.other_slot hstored hleave)]
      exact hstored
  | rejected haddr hother =>
      rw [getElem?_write_ne (haddr.other_slot hstored hleave)]
      exact hstored
  | @ran ref w r haddr hstatus hnow hpolicy hstarted =>
      simp only [afterRun]
      cases anythingSysInfoJson input.env.os with
      | error sysError => exact hstored
      | ok text =>
          simp only
          rw [getElem?_write_ne (haddr.other_slot hstored hleave)]
          exact hstored

theorem slot_kept_run {state : DaemonState} {middle : List Input}
    (hconfig : state.config = config) (hstored : state.approvals.pending[slot]? = some e)
    (hleave : ∀ input ∈ middle, LeavesAlone e.requestId.bytes input) :
    ((daemon config).runFrom state middle).approvals.pending[slot]? = some e := by
  induction middle generalizing state with
  | nil => exact hstored
  | cons input middle ih =>
      rw [Machine.runFrom_cons]
      refine ih hconfig ?_ fun input' hinput' => hleave input' (List.mem_cons_of_mem _ hinput')
      exact slot_kept hstored (hleave input List.mem_cons_self)

/-! ## The requests about it -/

/-- A call for the id of a stored request is about that request. -/
theorem AdminCall.addresses {is : List Input} {method : Bytes}
    (h : AdminCall config input method (slotId slot))
    (hstored : ((daemon config).run is).approvals.pending[slot]? = some e) :
    Addresses config ((daemon config).run is).approvals input method ⟨slot, e⟩ := by
  obtain ⟨request, requestId, hparse, hmethod, hid, hbytes⟩ := h.names
  have hbound := bound_run config is
  have hfind := anythingApprovalFind_stored hstored fun slot' e' hstored' heq =>
    requestId_injective (hbound slot' e' hstored') (hbound slot e hstored) heq
  rw [(hbound slot e hstored).requestId] at hfind
  exact ⟨h.plane, h.admin, request, requestId, hparse, hmethod, hid, hbytes ▸ hfind⟩

/-- A grant is in the store, whether or not its record can be written. -/
theorem handleRequest_approve {ref : PendingRef}
    (h : Addresses config approvals input (ascii "approval.approve") ref)
    (hstatus : ref.request.status = .pending) (hnow : input.env.now ≤ ref.request.expiresAt)
    (hother : ref.request.requester ≠ input.peer) :
    (handleRequest config approvals input).approvals =
      approvals.write ⟨ref.slot, ref.request.grantedBy input.peer⟩ := by
  have hgranted : .granted ref.slot input.peer ∈ (handleRequest config approvals input).effects := by
    obtain ⟨request, next, -, hhandled⟩ := handled_of_approve h hstatus hnow hother
    rw [hhandled]
    exact List.mem_cons_self
  have hmove := handlerMove config approvals input
  generalize handleRequest config approvals input = handled at hmove hgranted
  cases hmove with
  | quiet hquiet => exact (hquiet _ hgranted).elim
  | added hadmits => simp at hgranted
  | @granted ref' r haddr hstatus' hnow' hother' =>
      obtain ⟨slot, e⟩ := ref
      obtain rfl : slot = ref'.slot := by simpa using hgranted
      obtain rfl := Option.some.inj (h.stored.symm.trans haddr.stored)
      rfl
  | rejected haddr hother' => simp at hgranted
  | ran haddr hstatus' hnow' hpolicy hstarted => simp at hgranted

/-- The audit writes of an execution are made when the system lets them. -/
theorem execution_recorded {is : List Input} {env : Env} (admin : Identity)
    (hstored : ((daemon config).run is).approvals.pending[slot]? = some e)
    (haudit : ∀ k, (env.audit k).Succeeds) :
    (auditWrite (env.audit 0) (executionStartedEvent e admin)).ok = true ∧
      (auditWrite (env.audit 1) (executionFinishedEvent e admin)).ok = true := by
  have hshort := (bound_run config is slot e hstored).shortPending
  have hsummary : Fits 512 e.summary.bytes := .of_cstring hshort.summary (by decide)
  have hok : ∀ (kind : AuditEventKind) (decision : Bytes) (k : ℕ), Fits 64 decision →
      (auditWrite (env.audit k) (pendingEvent kind e e.requester (some admin) decision []
        e.summary.bytes)).ok = true := by
    intro kind decision k hdecision
    have hrecordable : Recordable (pendingEvent kind e e.requester (some admin) decision []
        e.summary.bytes) := recordable_pendingEvent hshort hdecision (by decide) hsummary
    rw [auditWrite, hrecordable.write (haudit k)]
  exact ⟨hok .executionStarted _ 0 (by decide), hok .executionFinished _ 1 (by decide)⟩

/-! ## The whole way -/

/-- A request that is filed stands in the next slot. -/
theorem filed_run {past : List Input} {request : RpcRequest}
    (h : Admits config ((daemon config).run past).approvals input request) :
    ((daemon config).run (past ++ [input])).approvals.pending[
        ((daemon config).run past).approvals.count]? =
      some (admitted config ((daemon config).run past).approvals input request) := by
  rw [Machine.run_append_singleton, daemon_step_approvals, h.handled]
  exact getElem?_push_count _

/-- When it is on record, the answer names its id. -/
theorem filed_answer {past : List Input} {request : RpcRequest}
    (h : Admits config ((daemon config).run past).approvals input request)
    (haudit : ∀ k, (input.env.audit k).Succeeds) :
    ∃ received recorded response rest,
      ((daemon config).step ((daemon config).run past) input).2 =
        [.audit received, .added ((daemon config).run past).approvals.count, .audit recorded,
          .reply (some response)] ∧
      response.bytes = errorLine request.id.bytes (-32010) (ascii "approval_required")
        (ascii "approval required") (("request_id",
          stringValue (slotId ((daemon config).run past).approvals.count)) :: rest) := by
  have hshort := shortStrings_of_parse h.parse
  have hstored := (bound_run config _ _ _ (filed_run h)).requestId
  generalize happrovals : ((daemon config).run past).approvals = approvals at *
  have hpending : ShortPending (admitted config approvals input request) :=
    shortPending_admitted hshort
  have hrecordable : Recordable
      (approvalRequiredEvent (admitted config approvals input request) input.peer) :=
    recordable_pendingEvent hpending (by decide) (by decide)
      (.of_cstring hpending.summary (by decide))
  have hrecorded : (auditWrite (input.env.audit 1)
      (approvalRequiredEvent (admitted config approvals input request) input.peer)).ok = true := by
    rw [auditWrite, hrecordable.write (haudit 1)]
  have hreceived : (auditWrite (input.env.audit 0) (receivedEvent request input.peer)).ok =
      true := h.received
  rcases h.reachesStore.handled approvals with ⟨hfull, -⟩ | ⟨-, _, _, _, hfields, hhandled⟩
  · exact absurd h.room (not_lt.mpr hfull)
  obtain ⟨digits, hdigits, hdata⟩ := approvalRequiredData_bytes hfields
    (admitted config approvals input request).expiresAt
  have hkeys : PlainKeys [("request_id", stringValue (slotId approvals.count)),
      ("risk", stringValue (admitted config approvals input request).risk.bytes),
      ("summary", stringValue (admitted config approvals input request).summary.bytes),
      ("expires_at", digits)] := by
    simp only [PlainKeys, List.forall_mem_cons]
    decide
  obtain ⟨response, hresponse, hbytes⟩ := errorResponse_reply hshort.id
    (⟨by decide, by decide, by decide⟩ :
      FixedError (-32010) (ascii "approval_required") (ascii "approval required")) hkeys
    (by
      simp only [List.forall_mem_cons]
      exact ⟨inline_stringValue _, inline_stringValue _, inline_stringValue _, hdigits, by simp⟩)
    (by
      rw [slotId, ← hstored, ← hdata]
      exact CString.fits _)
  rw [slotId, ← hstored, ← hdata] at hresponse
  refine ⟨auditWrite (input.env.audit 0) (receivedEvent request input.peer),
    auditWrite (input.env.audit 1)
      (approvalRequiredEvent (admitted config approvals input request) input.peer),
    response, _, ?_, hbytes⟩
  rw [daemon_step_effects, happrovals, hhandled, checkedAudit, if_pos hrecorded, hresponse]
  rfl

/-- It stays as it is until it is granted, and then as it was granted. -/
theorem granted_run {is middle middle' : List Input} {approve : Input}
    (hstored : ((daemon config).run is).approvals.pending[slot]? = some e)
    (happrove : AdminCall config approve (ascii "approval.approve") (slotId slot))
    (hstatus : e.status = .pending) (hnow : approve.env.now ≤ e.expiresAt)
    (hother : e.requester ≠ approve.peer)
    (hleave : ∀ input ∈ middle ++ middle', LeavesAlone (slotId slot) input) :
    ((daemon config).run (is ++ middle ++ [approve] ++ middle')).approvals.pending[slot]? =
      some (e.grantedBy approve.peer) := by
  obtain ⟨hleave₁, hleave₂⟩ := List.forall_mem_append.mp hleave
  have hid : e.requestId.bytes = slotId slot := (bound_run config is slot e hstored).requestId
  have hkept : ((daemon config).run (is ++ middle)).approvals.pending[slot]? = some e := by
    rw [Machine.run_append]
    exact slot_kept_run (daemon_run_config _) hstored (hid ▸ hleave₁)
  have hgranted : ((daemon config).run (is ++ middle ++ [approve])).approvals.pending[slot]? =
      some (e.grantedBy approve.peer) := by
    rw [Machine.run_append_singleton, daemon_step_approvals,
      handleRequest_approve (happrove.addresses hkept) hstatus hnow hother]
    exact getElem?_write_self _ hkept
  rw [Machine.run_append]
  exact slot_kept_run (daemon_run_config _) hgranted (hid ▸ hleave₂)

/-- The tool is run for a granted request, and its result is the answer. -/
theorem executed_run {is : List Input} {execute : Input} {text : CString 2048}
    (hstored : ((daemon config).run is).approvals.pending[slot]? = some e)
    (hexecute : AdminCall config execute (ascii "approval.execute") (slotId slot))
    (hstatus : e.status = .granted) (hnow : execute.env.now ≤ e.expiresAt)
    (haudit : ∀ k, (execute.env.audit k).Succeeds)
    (hos : anythingSysInfoJson execute.env.os = .ok text) :
    ∃ answered started finished, anythingRpcParse execute.body = .ok answered ∧
      started.ok = true ∧ finished.ok = true ∧
      ((daemon config).step ((daemon config).run is) execute).2 =
        [.audit started, .sysInfo slot (.ok text), .audit finished,
          resultResponse answered.id.bytes text.bytes] := by
  obtain ⟨answered, hparse, hhandled⟩ := handled_of_execute (hexecute.addresses hstored)
    (bound_run config _ slot _ hstored) hstatus hnow
  obtain ⟨hstarted, hfinished⟩ := execution_recorded execute.peer hstored haudit
  refine ⟨answered, _, _, hparse, hstarted, hfinished, ?_⟩
  rw [daemon_step_effects, hhandled, executePending_ok hstarted hos hfinished]

end Progress

/-- A request that was filed is served once it is granted and executed in time, whatever
else is sent before, in between and on either socket, as long as it does not name the id. -/
theorem request_served (config : Config) (past middle middle' : List Input)
    (ask approve execute : Input) (request : RpcRequest) (text : CString 2048)
    (hask : Admits config ((daemon config).run past).approvals ask request)
    (happrove : AdminCall config approve (ascii "approval.approve")
      (slotId ((daemon config).run past).approvals.count))
    (hexecute : AdminCall config execute (ascii "approval.execute")
      (slotId ((daemon config).run past).approvals.count))
    (hother : ask.peer ≠ approve.peer)
    (hgranted : approve.env.now ≤ ask.env.now + config.approvalTtlSeconds)
    (hexecuted : execute.env.now ≤ ask.env.now + config.approvalTtlSeconds)
    (hleave : ∀ input ∈ middle ++ middle',
      LeavesAlone (slotId ((daemon config).run past).approvals.count) input)
    (haudit : ∀ k, (execute.env.audit k).Succeeds)
    (hos : anythingSysInfoJson execute.env.os = .ok text) :
    ∃ answered started finished, anythingRpcParse execute.body = .ok answered ∧
      started.ok = true ∧ finished.ok = true ∧
      ((daemon config).step ((daemon config).run
        (past ++ ask :: (middle ++ approve :: middle'))) execute).2 =
        [.audit started, .sysInfo ((daemon config).run past).approvals.count (.ok text),
          .audit finished, resultResponse answered.id.bytes text.bytes] := by
  have hsplit : past ++ ask :: (middle ++ approve :: middle') =
      past ++ [ask] ++ middle ++ [approve] ++ middle' := by simp
  rw [hsplit]
  have hready := granted_run (filed_run hask) happrove rfl hgranted hother hleave
  exact executed_run hready hexecute rfl hexecuted haudit hos

namespace Sample

theorem adminCall_ruling {method : String} (hparse : (anythingRpcParse
      (ruling operator method written).body).toOption.isSome = true)
    (hnames : ∀ request, anythingRpcParse (ruling operator method written).body = .ok request →
      request.method.bytes = ascii method ∧
        (namedId request).map CString.bytes = some (slotId 0)) :
    AdminCall config (ruling operator method written) (ascii method) (slotId 0) := by
  obtain ⟨request, hrequest⟩ := exists_ok_of_isSome hparse
  obtain ⟨hmethod, hid⟩ := hnames request hrequest
  obtain ⟨requestId, hnamed, hbytes⟩ := Option.map_eq_some_iff.mp hid
  have hadmin : anythingConfigIdentityIsAdmin config operator = true := by decide
  exact ⟨rfl, hadmin, request, requestId, hrequest, hmethod, hnamed, hbytes⟩

theorem exists_admits_ask : ∃ request, Admits config anythingApprovalStoreInit (ask written)
    request := by
  obtain ⟨request, hparse⟩ := exists_ok_of_isSome
    (by decide +kernel : (anythingRpcParse (ask written).body).toOption.isSome = true)
  have hfacts : ∀ request, anythingRpcParse (ask written).body = .ok request →
      (auditWrite written (requestEvent .requestReceived request agent [] (ascii "received") []
        (ascii "bounded request"))).ok = true ∧ request.method.bytes = ascii "sys.info" := by
    decide +kernel
  obtain ⟨hreceived, hmethod⟩ := hfacts request hparse
  exact ⟨request, rfl, hparse, hreceived, hmethod, rfl, by decide⟩

end Sample

/-- The agent asks twice, and the first of the two requests is served. -/
theorem request_served_sample :
    ∃ answered started finished,
      anythingRpcParse (Sample.ruling Sample.operator "approval.execute" Sample.written).body =
          .ok answered ∧
        AuditWrite.ok started = true ∧ AuditWrite.ok finished = true ∧
        ∃ text, anythingSysInfoJson Sample.os = .ok text ∧
          ((daemon Sample.config).step ((daemon Sample.config).run
            [Sample.ask Sample.written, Sample.ask Sample.written,
              Sample.ruling Sample.operator "approval.approve" Sample.written])
            (Sample.ruling Sample.operator "approval.execute" Sample.written)).2 =
          [.audit started, .sysInfo 0 (.ok text), .audit finished,
            resultResponse answered.id.bytes text.bytes] := by
  obtain ⟨request, hadmits⟩ := Sample.exists_admits_ask
  obtain ⟨text, hos⟩ := exists_ok_of_isSome
    (by decide +kernel : (anythingSysInfoJson Sample.os).toOption.isSome = true)
  obtain ⟨answered, started, finished, hparse, hstarted, hfinished, heffects⟩ :=
    request_served Sample.config [] [Sample.ask Sample.written] [] (Sample.ask Sample.written)
      (Sample.ruling Sample.operator "approval.approve" Sample.written)
      (Sample.ruling Sample.operator "approval.execute" Sample.written) request text hadmits
      (Sample.adminCall_ruling (by decide +kernel) (by decide +kernel))
      (Sample.adminCall_ruling (by decide +kernel) (by decide +kernel))
      (by decide) (by decide) (by decide)
      (fun input hinput hplane => by
        rw [List.mem_singleton.mp hinput] at hplane
        cases hplane)
      (fun k => ⟨rfl, rfl, rfl, rfl, rfl⟩) hos
  exact ⟨answered, started, finished, hparse, hstarted, hfinished, text, hos, heffects⟩

end AnythingTool
