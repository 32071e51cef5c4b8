import AnythingTool.Cli.Client
import AnythingTool.Daemon.Progress

/-!
# The client and the daemon

The two ends of a connection. A plain argument goes into a request of the client without an
escape, so the request is a well-formed object (`requestFields`) that the daemon reads as
typed, however its bytes arrive. With this the way of a request through the client is the one
of `request_served`: the id that is printed to whoever asks is the one an admin types.
-/

namespace AnythingTool

open CText JsonText Transition

/-! ## The request of a plain argument -/

namespace ArgumentCommand

/-- The key of the parameter. -/
def key : ArgumentCommand → String
  | sysInfo => "session_id"
  | _ => "request_id"

theorem ascii_key (command : ArgumentCommand) : ascii command.key = command.param := by
  cases command
  all_goals rfl

theorem unescaped_key (command : ArgumentCommand) : ∀ c ∈ ascii command.key, Unescaped c := by
  rw [ascii_key]
  exact command.unescaped_param

def paramFields (command : ArgumentCommand) (arg : Bytes) : List (String × Bytes) :=
  [(command.key, literal arg)]

def requestFields (command : ArgumentCommand) (arg : Bytes) : List (String × Bytes) :=
  command.headFields ++ [("params", objectText (fields (command.paramFields arg)))]

theorem leading_fields_cons (f : String × Bytes) (fs : List (String × Bytes)) (r : Bytes) :
    leading (fields (f :: fs)) r =
      (field f.1 f.2).text ++ comma :: leading (fields fs) r :=
  rfl

/-- What the client prints is an object on a line. -/
theorem requestFields_text (command : ArgumentCommand) (arg : Bytes) :
    command.head ++ (arg ++ quote :: ascii "\x7d\x7d\n") =
      objectText (fields (command.requestFields arg)) ++ [newline] := by
  have hnil : ∀ r, leading (fields []) r = r := fun _ => rfl
  rw [command.head_append, ← ascii_key]
  simp only [requestFields, headFields, paramFields, objectText_fields_cons, moreFields,
    field_text, leading_fields_cons, hnil, literal, List.flatMap_cons, List.flatMap_nil,
    List.append_assoc, List.cons_append, List.nil_append]
  rfl

end ArgumentCommand

section Typed

variable {command : ArgumentCommand} {arg : Bytes}

theorem isObject_paramFields (command : ArgumentCommand) (harg : ∀ c ∈ arg, Unescaped c) :
    IsObject (fields (command.paramFields arg))
      (objectText (fields (command.paramFields arg))) := by
  refine isObject_fields (by simp [ArgumentCommand.paramFields]) ?_ ?_
  · simp only [PlainKeys, ArgumentCommand.paramFields, List.forall_mem_cons]
    exact ⟨command.unescaped_key, by simp⟩
  · simp only [ArgumentCommand.paramFields, List.forall_mem_cons]
    exact ⟨.string (.of_unescaped harg), by simp⟩

theorem length_paramFields (command : ArgumentCommand) (arg : Bytes) :
    (objectText (fields (command.paramFields arg))).length = arg.length + 17 := by
  have hkey : (ascii command.key).length = 10 := by
    cases command
    all_goals decide
  simp only [ArgumentCommand.paramFields, objectText_fields_cons, moreFields, field_text,
    literal, List.flatMap_nil, List.nil_append, List.length_append, List.length_cons,
    List.length_nil, hkey]
  omega

/-- The members of a request are the leading fields and the parameters. -/
theorem fields_requestFields (command : ArgumentCommand) (arg : Bytes) :
    fields (command.requestFields arg) = fields command.headFields ++
      [field "params" (objectText (fields (command.paramFields arg)))] :=
  List.map_append

theorem membersAt_requestFields {key : Bytes} (h : ascii "params" ≠ key) :
    membersAt (fields (command.requestFields arg)) key =
      membersAt (fields command.headFields) key := by
  rw [fields_requestFields, membersAt_append, membersAt_cons_other [] h]
  exact List.append_nil _

theorem membersAt_params :
    membersAt (fields (command.requestFields arg)) (ascii "params") =
      [field "params" (objectText (fields (command.paramFields arg)))] := by
  have hhead : membersAt (fields command.headFields) (ascii "params") = [] := by
    cases command
    all_goals rfl
  rw [fields_requestFields, membersAt_append, hhead]
  exact membersAt_cons_self [] (m := field "params" _) rfl

theorem forall_mem_requestFields {P : Bytes → Prop}
    (hhead : ∀ m ∈ fields command.headFields, P m.key) (hparams : P (ascii "params")) :
    ∀ m ∈ fields (command.requestFields arg), P m.key := by
  rw [fields_requestFields]
  intro m hm
  rcases List.mem_append.mp hm with hm | hm
  · exact hhead m hm
  · rw [List.mem_singleton.mp hm]
    exact hparams

theorem isObject_requestFields (command : ArgumentCommand) (harg : ∀ c ∈ arg, Unescaped c) :
    IsObject (fields (command.requestFields arg))
      (objectText (fields (command.requestFields arg))) := by
  have hparams := isObject_paramFields command harg
  have hall : ∀ m ∈ fields (command.requestFields arg), m.Lexes ∧ IsValue m.value := by
    rw [fields_requestFields]
    intro m hm
    rcases List.mem_append.mp hm with hm | hm
    · have hlead := command.headFields_lead m hm
      exact ⟨hlead.lexes, hlead.value⟩
    · rw [List.mem_singleton.mp hm]
      exact ⟨field_lexes _ (by decide), .object (by simp [fields, ArgumentCommand.paramFields])
        hparams.lexes hparams.value⟩
  exact .members (by simp [fields, ArgumentCommand.requestFields])
    (fun m hm => (hall m hm).1) fun m hm => (hall m hm).2

/-- A request with a plain argument is well formed. -/
theorem wellFormed_requestFields (command : ArgumentCommand) (harg : ∀ c ∈ arg, Unescaped c)
    (hfits : arg.length < 64) :
    WellFormed (fields (command.requestFields arg)) (ascii "1") command.method
      (fields (command.paramFields arg)) (objectText (fields (command.paramFields arg))) where
  keysFit := by
    refine forall_mem_requestFields (P := fun key => key.length ≤ 63) ?_ (by decide)
    cases command
    all_goals decide
  jsonrpcField := by
    refine ⟨field "jsonrpc" (literal (ascii "2.0")), ?_, _, .of_unescaped (by decide), rfl⟩
    rw [membersAt_requestFields (by decide)]
    cases command
    all_goals rfl
  idField := by
    refine ⟨field "id" (literal (ascii "1")), ?_, _, .of_unescaped (by decide), rfl⟩
    rw [membersAt_requestFields (by decide)]
    cases command
    all_goals rfl
  idFits := by decide
  methodField := by
    refine ⟨field "method" (literal command.method), ?_, _,
      .of_unescaped command.unescaped_method, rfl⟩
    rw [membersAt_requestFields (by decide)]
    cases command
    all_goals rfl
  methodFits := Nat.le_of_lt_succ command.method_fits
  paramsField := by
    have hlen := length_paramFields command arg
    refine .present membersAt_params (isObject_paramFields command harg) ?_
    change (objectText (fields (command.paramFields arg))).length < 1024
    omega
  unknown := by
    intro m hm hkey
    have hall : ∀ m ∈ fields (command.requestFields arg), m.key ∈ takenKeys := by
      refine forall_mem_requestFields (P := fun key => key ∈ takenKeys) ?_ (by decide)
      cases command
      all_goals decide
    exact absurd (hall m hm) hkey

theorem zero_notMem_plain (harg : ∀ c ∈ arg, Unescaped c) : (0 : UInt8) ∉ arg := fun h0 =>
  absurd (harg 0 h0) (by decide)

theorem noControl_requestFields (command : ArgumentCommand) (harg : ∀ c ∈ arg, Unescaped c) :
    NoControl (objectText (fields (command.requestFields arg))) := by
  have hparams : Inline (objectText (fields (command.paramFields arg))) := by
    refine .object (by simp [ArgumentCommand.paramFields]) ?_ ?_
    · simp only [PlainKeys, ArgumentCommand.paramFields, List.forall_mem_cons]
      exact ⟨command.unescaped_key, by simp⟩
    · simp only [ArgumentCommand.paramFields, List.forall_mem_cons]
      exact ⟨.string (.of_unescaped harg), by simp⟩
  have hrequest : Inline (objectText (fields (command.requestFields arg))) := by
    refine .object (by simp [ArgumentCommand.requestFields]) ?_ ?_
    · simp only [PlainKeys, ArgumentCommand.requestFields, ArgumentCommand.headFields,
        List.cons_append, List.nil_append, List.forall_mem_cons]
      exact ⟨by decide, by decide, by decide, by decide, by simp⟩
    · simp only [ArgumentCommand.requestFields, ArgumentCommand.headFields, List.cons_append,
        List.nil_append, List.forall_mem_cons]
      exact ⟨.string (.of_unescaped (by decide)), .string (.of_unescaped (by decide)),
        .string (.of_unescaped command.unescaped_method), hparams, by simp⟩
  exact hrequest.noControl

/-- The request of a plain argument fits the buffer of the client. -/
theorem makeRequest_plain (harg : ∀ c ∈ arg, Unescaped c) (hfits : arg.length < 64) :
    (makeRequest command.name arg).bytes =
      objectText (fields (command.requestFields arg)) ++ [newline] := by
  obtain ⟨hhead, -⟩ := command.head_fits
  have hlen : command.head.length ≤ 100 := by
    cases command
    all_goals decide
  have htail : (0 : UInt8) ∉ quote :: ascii "\x7d\x7d\n" := by decide
  have htail_length : (quote :: ascii "\x7d\x7d\n").length = 4 := by decide
  rw [command.makeRequest_name, CString.snprintf_bytes_of_fits]
  · exact command.requestFields_text arg
  · simp only [List.mem_append, not_or]
    exact ⟨hhead, zero_notMem_plain harg, htail⟩
  · rw [List.length_append, List.length_append, htail_length]
    omega

/-- What a plain argument is for the daemon. -/
structure ReadsPlain (command : ArgumentCommand) (arg : Bytes) (request : RpcRequest) : Prop where
  id : request.id.bytes = ascii "1"
  method : request.method.bytes = command.method
  param : ∀ n, arg.length < n → ∃ out : CString n,
    anythingRpcExtractParamString n request.params.bytes command.param = some out ∧
      out.bytes = arg

/-- A request with a plain argument is accepted, and read as typed. -/
theorem exists_readsPlain (command : ArgumentCommand) (harg : ∀ c ∈ arg, Unescaped c)
    (hfits : arg.length < 64) :
    ∃ request, anythingRpcParse (makeRequest command.name arg).bytes = .ok request ∧
      ReadsPlain command arg request := by
  have hwell := wellFormed_requestFields command harg hfits
  have hobject := isObject_requestFields command harg
  have hline : Blank [newline] := by decide
  obtain ⟨request, hparse, hid, hmethod, hparams⟩ :=
    exists_parse_of_wellFormed hobject blank_nil hline hwell
  rw [makeRequest_plain harg hfits]
  refine ⟨request, hparse, hid, hmethod, ?_⟩
  intro n hn
  have hlen := length_paramFields command arg
  have hfinds : Finds command.param arg (fields (command.paramFields arg)) := by
    refine .here ?_ command.ascii_key ⟨arg, .of_unescaped harg, rfl⟩
    change (ascii command.key).length ≤ 63
    rw [command.ascii_key]
    exact Nat.le_of_lt_succ command.param_fits
  rw [hparams]
  exact ⟨⟨arg, zero_notMem_plain harg, hn⟩,
    (extract_params_eq_some (isObject_paramFields command harg) (by omega)).mpr hfinds, rfl⟩

end Typed

/-! ## The two ends of a connection -/

/-- A run of the client, and the connection on which it is served. -/
structure Dialog where
  argv : List Bytes
  calls : ClientCalls
  connection : Connection

/-- The path of the socket the daemon listens at. -/
def Config.socketPath (config : Config) : SocketPlane → CString 256
  | .tool => config.toolSocketPath
  | .admin => config.adminSocketPath

namespace Dialog

def report (d : Dialog) : ClientReport := clientRun d.argv d.calls

/-- The request the daemon has of it. -/
def input (d : Dialog) (plane : SocketPlane) (peer : Identity) : Input :=
  ⟨plane, peer, d.report.sent, d.connection.env⟩

/-- The arguments are a command with its argument. -/
def Types (d : Dialog) (command : ArgumentCommand) (arg : Bytes) : Prop :=
  ∃ option path, (option = ascii "--socket" ∨ option = ascii "--admin-socket") ∧
    d.argv = [option, path, command.name, arg]

/-- No call fails between the two ends: the client has connected to the socket, what it
writes arrives in time, however it is cut, and it reads all that the daemon sends. -/
structure Joins (d : Dialog) (config : Config) (approvals : ApprovalStore)
    (plane : SocketPlane) (peer : Identity) : Prop where
  connected : d.calls.socket ∧ d.calls.connected
  address : d.report.address = some (config.socketPath plane).bytes
  written : ∀ call ∈ d.calls.writes, call.Succeeds
  accepted : d.connection.accepted = true
  peer : d.connection.peer = .ok peer
  timeout : d.connection.timeout = .ok ()
  allocated : d.connection.allocated = true
  arrives : Delivers config.readTimeoutMs d.connection.reads d.report.sent
  inTime : d.connection.elapsedMs ≤ config.readTimeoutMs
  fits : d.report.sent.length < config.maxRequestBytes
  answered : ∀ call ∈ d.connection.writes, call.Succeeds
  received : d.calls.response = .ok (served config approvals plane d.connection).sent.bytes

end Dialog

/-- A command with a plain argument makes a request. -/
theorem clientRun_command {command : ArgumentCommand} {option path arg : Bytes}
    {calls : ClientCalls} (hoption : option = ascii "--socket" ∨ option = ascii "--admin-socket")
    (harg : ∀ c ∈ arg, Unescaped c) (hfits : arg.length < 64) :
    clientRun [option, path, command.name, arg] calls =
      clientAnswer (connectAddress path) (makeRequest command.name arg) calls := by
  have hname : command.name ≠ ascii "raw" := by
    cases command
    all_goals decide
  have hknown : ¬ (option ≠ ascii "--socket" ∧ option ≠ ascii "--admin-socket") := by
    rintro ⟨hsocket, hadmin⟩
    exact hoption.elim hsocket hadmin
  have hrequest : clientRequest command.name [arg] = some (makeRequest command.name arg) :=
    if_neg hname
  have hnonempty : (makeRequest command.name arg).bytes ≠ [] := by
    rw [makeRequest_plain harg hfits]
    exact List.append_ne_nil_of_right_ne_nil _ (by simp)
  rw [clientRun]
  simp only [if_neg hknown, hrequest, if_neg hnonempty]

namespace Dialog.Joins

variable {d : Dialog} {config : Config} {approvals : ApprovalStore} {plane : SocketPlane}
  {peer : Identity} {command : ArgumentCommand} {arg : Bytes}

/-- A command with an argument is sent as the request that is built from it. -/
theorem report_eq (h : d.Joins config approvals plane peer) (htypes : d.Types command arg)
    (harg : ∀ c ∈ arg, Unescaped c) (hfits : arg.length < 64) :
    ∃ address, d.report = ⟨.status 0, some address, (makeRequest command.name arg).bytes,
      cstr ((served config approvals plane d.connection).sent.bytes.take (4096 - 1)), []⟩ := by
  obtain ⟨option, path, hoption, hargv⟩ := htypes
  refine ⟨connectAddress path, ?_⟩
  rw [Dialog.report, hargv, clientRun_command hoption harg hfits, clientAnswer,
    if_pos h.connected]
  simp only [writeResponse_of_succeeds _ _ h.written, h.received]
  rfl

/-- The line of a plain argument is read whole. -/
theorem arrival_eq (h : d.Joins config approvals plane peer) (htypes : d.Types command arg)
    (harg : ∀ c ∈ arg, Unescaped c) (hfits : arg.length < 64) :
    arrival config plane d.connection = .request (d.input plane peer) := by
  obtain ⟨address, hreport⟩ := h.report_eq htypes harg hfits
  have hline : firstLine d.report.sent = d.report.sent := by
    rw [firstLine_eq_self, hreport, makeRequest_plain harg hfits, List.dropLast_concat]
    exact (noControl_requestFields command harg).notMem (by decide)
  have hread : anythingTransportReadRequest config.maxRequestBytes config.readTimeoutMs
      d.connection.reads d.connection.elapsedMs = .ok d.report.sent := by
    rw [readRequest_line h.arrives h.inTime h.fits hline, hline]
  rw [arrival, h.accepted, h.peer, h.timeout, h.allocated, hread]
  rfl

/-- The client prints the response of the handlers. -/
theorem stdout_eq (h : d.Joins config approvals plane peer) (htypes : d.Types command arg)
    (harg : ∀ c ∈ arg, Unescaped c) (hfits : arg.length < 64) {before : List Effect}
    {response : CString 4096}
    (hresponse : (handleRequest config approvals (d.input plane peer)).effects =
      before ++ [.reply (some response)]) (hbefore : ∀ r, .reply r ∉ before) :
    d.report.stdout = response.bytes := by
  obtain ⟨address, hreport⟩ := h.report_eq htypes harg hfits
  have hsent : (served config approvals plane d.connection).sent.bytes = response.bytes := by
    rw [served_of_request (h.arrival_eq htypes harg hfits), hresponse, sentOf,
      responseOf_append hbefore]
    simp only [writeResponse_of_succeeds _ _ h.answered]
  have hlen : response.bytes.length ≤ 4096 - 1 := Nat.le_sub_one_of_lt response.fits
  rw [hreport, hsent, List.take_of_length_le hlen]
  exact cstr_of_notMem response.noNul

end Dialog.Joins

/-! ## The whole way through the client -/

section Whole

variable {d : Dialog} {config : Config} {is : List Input} {plane : SocketPlane}
  {peer : Identity} {slot : ℕ}

theorem length_slotId (h : slot < approvalMaxPending) : (slotId slot).length < 40 := by
  have hlt : slot < 64 := h
  have hlen := length_formatNat (k := slot + 1) (by omega)
  have hprefix : (ascii "req_").length = 4 := by decide
  rw [slotId, List.length_append, hlen, hprefix]
  split_ifs
  · omega
  · omega

/-- A plain session reaches the daemon in a request that is admitted. -/
theorem Dialog.Joins.admits {session : Bytes}
    (h : d.Joins config ((daemon config).run is).approvals .tool peer)
    (htypes : d.Types .sysInfo session) (hplain : ∀ c ∈ session, Unescaped c)
    (hfits : session.length < 64) (hcapability : config.capabilitySysRead = true)
    (hroom : ((daemon config).run is).approvals.count < approvalMaxPending)
    (haudit : ∀ k, (d.connection.env.audit k).Succeeds) :
    ∃ request, Admits config ((daemon config).run is).approvals (d.input .tool peer) request ∧
      request.id.bytes = ascii "1" ∧ request.sessionId.bytes = session := by
  obtain ⟨address, hreport⟩ := h.report_eq htypes hplain hfits
  obtain ⟨request, hparse, hid, hmethod, hparam⟩ := exists_readsPlain .sysInfo hplain hfits
  obtain ⟨out, hextract, hout⟩ := hparam 64 hfits
  have hbody : (d.input .tool peer).body =
      (makeRequest ArgumentCommand.sysInfo.name session).bytes := by
    rw [Dialog.input, hreport]
  have hsession : request.sessionId.bytes = session := by
    rw [sessionId_of_parse hparse]
    change anythingRpcExtractParamString 64 request.params.bytes (ascii "session_id") =
      some out at hextract
    rw [hextract, Option.getD_some, hout]
  have hrecordable : Recordable (receivedEvent request peer) :=
    recordable_requestEvent (shortStrings_of_parse hparse) (by decide) (by decide) (by decide)
      (by decide)
  refine ⟨request, ⟨rfl, hbody ▸ hparse, ?_, hmethod, hcapability, hroom⟩, hid, hsession⟩
  rw [auditWrite]
  exact congrArg Prod.fst (hrecordable.write (haudit 0))

/-- The id of a slot reaches the daemon as it was printed. -/
theorem Dialog.Joins.adminCall {command : ArgumentCommand} {approvals : ApprovalStore}
    (h : d.Joins config approvals .admin peer)
    (htypes : d.Types command (slotId slot)) (hparam : command.param = ascii "request_id")
    (hslot : slot < approvalMaxPending)
    (hadmin : anythingConfigIdentityIsAdmin config peer = true) :
    AdminCall config (d.input .admin peer) command.method (slotId slot) ∧
      ∀ request, anythingRpcParse (d.input .admin peer).body = .ok request →
        request.id.bytes = ascii "1" := by
  have hlen := length_slotId hslot
  have hfits : (slotId slot).length < 64 := by omega
  have hplain : ∀ c ∈ slotId slot, Unescaped c := unescaped_requestId (slot + 1)
  obtain ⟨address, hreport⟩ := h.report_eq htypes hplain hfits
  obtain ⟨request, hparse, hid, hmethod, hextract⟩ := exists_readsPlain command hplain hfits
  obtain ⟨out, hout, hbytes⟩ := hextract 40 hlen
  have hbody : (d.input .admin peer).body = (makeRequest command.name (slotId slot)).bytes := by
    rw [Dialog.input, hreport]
  rw [hparam] at hout
  refine ⟨⟨rfl, hadmin, request, out, hbody ▸ hparse, hmethod, hout, hbytes⟩, ?_⟩
  intro request' hparse'
  rw [hbody, hparse] at hparse'
  rw [← Except.ok.inj hparse']
  exact hid

/-- The result of the tool fits the response. -/
theorem resultResponse_reply {id : CString 64} {os : OsReading} {text : CString 2048}
    (hid : id.bytes = ascii "1") (hos : anythingSysInfoJson os = .ok text) :
    ∃ response, resultResponse id.bytes text.bytes = .reply (some response) ∧
      response.bytes = resultLine (ascii "1") text.bytes := by
  have hline := jsonLine_resultLine (ascii "1") ((anythingSysInfoJson_spec os).1 text hos)
  have hescaped : (escaped (ascii "1")).length = 1 := by decide
  have hfits : (resultLine (ascii "1") text.bytes).length < 4096 := by
    have htext := text.fits
    rw [length_resultLine, hescaped]
    omega
  refine ⟨(printLine 4096 (resultLine (ascii "1") text.bytes)).2, ?_, printLine_bytes hline hfits⟩
  rw [resultResponse, hid, anythingRpcResult_eq (by decide) (by decide)]
  rfl

end Whole

/-- Whoever asks through the client is printed the id of the request, and when it is granted
and executed through the client under this id, the result is printed to whoever executes it. -/
theorem client_served (config : Config) (past middle middle' : List Input) (session : Bytes)
    (ask approve execute : Dialog) (agent admin operator : Identity) (text : CString 2048)
    (hask : ask.Joins config ((daemon config).run past).approvals .tool agent)
    (hasked : ask.Types .sysInfo session)
    (hplain : ∀ c ∈ session, Unescaped c) (hfits : session.length < 64)
    (hcapability : config.capabilitySysRead = true)
    (hroom : ((daemon config).run past).approvals.count < approvalMaxPending)
    (hrecorded : ∀ k, (ask.connection.env.audit k).Succeeds)
    (happrove : approve.Joins config ((daemon config).run
      (past ++ ask.input .tool agent :: middle)).approvals .admin admin)
    (happroved : approve.Types .approve (slotId ((daemon config).run past).approvals.count))
    (hadmin : anythingConfigIdentityIsAdmin config admin = true) (hother : agent ≠ admin)
    (hgranted : approve.connection.env.now ≤
      ask.connection.env.now + config.approvalTtlSeconds)
    (hexecute : execute.Joins config ((daemon config).run (past ++ ask.input .tool agent ::
      (middle ++ approve.input .admin admin :: middle'))).approvals .admin operator)
    (hexecuted : execute.Types .execute (slotId ((daemon config).run past).approvals.count))
    (hoperator : anythingConfigIdentityIsAdmin config operator = true)
    (hintime : execute.connection.env.now ≤
      ask.connection.env.now + config.approvalTtlSeconds)
    (hleave : ∀ input ∈ middle ++ middle',
      LeavesAlone (slotId ((daemon config).run past).approvals.count) input)
    (haudit : ∀ k, (execute.connection.env.audit k).Succeeds)
    (hos : anythingSysInfoJson execute.connection.env.os = .ok text) :
    (∃ e, ((daemon config).run (past ++ [ask.input .tool agent])).approvals.pending[
        ((daemon config).run past).approvals.count]? = some e ∧
      e.sessionId.bytes = session ∧ e.requester = agent) ∧
    (∃ rest, ask.report.stdout = errorLine (ascii "1") (-32010) (ascii "approval_required")
      (ascii "approval required") (("request_id",
        stringValue (slotId ((daemon config).run past).approvals.count)) :: rest)) ∧
    execute.report.stdout = resultLine (ascii "1") text.bytes := by
  obtain ⟨request, hadmits, hid, hsession⟩ :=
    hask.admits hasked hplain hfits hcapability hroom hrecorded
  have hfiled := filed_run hadmits
  refine ⟨⟨_, hfiled, ?_, rfl⟩, ?_, ?_⟩
  · rw [← hsession]
    exact CString.snprintf_bytes_of_fits request.sessionId.noNul request.sessionId.fits
  · obtain ⟨received, recorded, response, rest, heffects, hbytes⟩ :=
      filed_answer hadmits hrecorded
    rw [daemon_step_effects] at heffects
    have hstdout : ask.report.stdout = response.bytes :=
      hask.stdout_eq hasked hplain hfits (heffects.trans (List.append_cons [_, _] _ [_])) (by simp)
    exact ⟨rest, by rw [hstdout, hbytes, hid]⟩
  · obtain ⟨hcall, -⟩ := happrove.adminCall happroved rfl hroom hadmin
    obtain ⟨hcall', hanswered⟩ := hexecute.adminCall hexecuted rfl hroom hoperator
    have hready := granted_run hfiled hcall rfl hgranted hother hleave
    have hsplit : past ++ ask.input .tool agent ::
        (middle ++ approve.input .admin admin :: middle') =
          past ++ [ask.input .tool agent] ++ middle ++ [approve.input .admin admin] ++
            middle' := by simp
    rw [hsplit] at hexecute
    obtain ⟨answered, started, finished, hparse, -, -, heffects⟩ :=
      executed_run hready hcall' rfl hintime haudit hos
    obtain ⟨response, hresponse, hbytes⟩ :=
      resultResponse_reply (hanswered answered hparse) hos
    rw [daemon_step_effects, hresponse] at heffects
    have hlen := length_slotId hroom
    have hstdout : execute.report.stdout = response.bytes :=
      hexecute.stdout_eq hexecuted (unescaped_requestId _) (hlen.trans (by decide))
        (heffects.trans (List.append_cons [_, _] _ [_])) (by simp)
    rw [hstdout, hbytes]

namespace Sample

/-- A dialog in which no call fails. -/
def dialog (approvals : ApprovalStore) (plane : SocketPlane) (peer : Identity)
    (command : ArgumentCommand) (arg : Bytes) : Dialog :=
  let input := ⟨plane, peer, (makeRequest command.name arg).bytes, env written⟩
  { argv := [ascii "--socket", (config.socketPath plane).bytes, command.name, arg]
    calls := ⟨true, true, [], [],
      .ok (served config approvals plane (connection input)).sent.bytes⟩
    connection := connection input }

theorem types_dialog (approvals : ApprovalStore) (plane : SocketPlane) (peer : Identity)
    (command : ArgumentCommand) (arg : Bytes) :
    (dialog approvals plane peer command arg).Types command arg :=
  ⟨_, _, .inl rfl, rfl⟩

theorem joins_dialog (approvals : ApprovalStore) (plane : SocketPlane) (peer : Identity)
    (command : ArgumentCommand) {arg : Bytes} (harg : ∀ c ∈ arg, Unescaped c)
    (hfits : arg.length < 64) :
    (dialog approvals plane peer command arg).Joins config approvals plane peer := by
  have hreport : (dialog approvals plane peer command arg).report = clientAnswer
      (connectAddress (config.socketPath plane).bytes) (makeRequest command.name arg)
      (dialog approvals plane peer command arg).calls :=
    clientRun_command (.inl rfl) harg hfits
  have hconnected : (dialog approvals plane peer command arg).calls.socket ∧
    (dialog approvals plane peer command arg).calls.connected := ⟨rfl, rfl⟩
  rw [clientAnswer, if_pos hconnected] at hreport
  have hsent : (dialog approvals plane peer command arg).report.sent =
      (makeRequest command.name arg).bytes := by
    rw [hreport]
    rfl
  have hdelivers : Delivers config.readTimeoutMs [⟨0, .bytes (makeRequest command.name arg).bytes⟩]
      ((makeRequest command.name arg).bytes ++ []) := by
    refine .bytes (by decide) ?_ .nil
    rw [makeRequest_plain harg hfits]
    exact List.append_ne_nil_of_right_ne_nil _ (by simp)
  rw [List.append_nil] at hdelivers
  have haddress : connectAddress (config.socketPath plane).bytes =
      (config.socketPath plane).bytes := by
    cases plane
    all_goals decide
  have htime : (0 : ℤ) ≤ config.readTimeoutMs := by decide
  refine ⟨hconnected, ?_, ?_, rfl, rfl, rfl, rfl, ?_, htime, ?_, ?_, rfl⟩
  · rw [hreport]
    exact congrArg some haddress
  · intro call hcall
    cases hcall
  · rw [hsent]
    exact hdelivers
  · rw [hsent]
    exact (CString.fits _).trans (by decide)
  · intro call hcall
    cases hcall

/-- The agent asks. -/
def asking : Dialog := dialog anythingApprovalStoreInit .tool agent .sysInfo (ascii "s1")

/-- An admin approves what was asked. -/
def approving : Dialog :=
  dialog ((daemon config).run [asking.input .tool agent]).approvals .admin operator .approve
    (slotId 0)

/-- The same admin executes it. -/
def executing : Dialog :=
  dialog ((daemon config).run
    [asking.input .tool agent, approving.input .admin operator]).approvals .admin operator
      .execute (slotId 0)

end Sample

theorem client_served_sample : ∃ text, anythingSysInfoJson Sample.os = .ok text ∧
    (∃ rest, Sample.asking.report.stdout = errorLine (ascii "1") (-32010)
      (ascii "approval_required") (ascii "approval required")
      (("request_id", stringValue (slotId 0)) :: rest)) ∧
    Sample.executing.report.stdout = resultLine (ascii "1") text.bytes := by
  obtain ⟨text, hos⟩ := exists_ok_of_isSome
    (by decide +kernel : (anythingSysInfoJson Sample.os).toOption.isSome = true)
  have hsession : ∀ c ∈ ascii "s1", Unescaped c := by decide
  have hid : ∀ c ∈ slotId 0, Unescaped c := unescaped_requestId 1
  have hwritten : ∀ k : ℕ, ((Sample.env Sample.written).audit k).Succeeds :=
    fun _ => ⟨rfl, rfl, rfl, rfl, rfl⟩
  obtain ⟨-, hasked, hexecuted⟩ := client_served Sample.config [] [] [] (ascii "s1")
    Sample.asking Sample.approving Sample.executing Sample.agent Sample.operator Sample.operator
    text (Sample.joins_dialog _ _ _ _ hsession (by decide)) (Sample.types_dialog ..) hsession
    (by decide) rfl (by decide) hwritten (Sample.joins_dialog _ _ _ _ hid (by decide))
    (Sample.types_dialog ..) (by decide) (by decide) (by decide +kernel)
    (Sample.joins_dialog _ _ _ _ hid (by decide)) (Sample.types_dialog ..) (by decide)
    (by decide +kernel) (by simp) hwritten hos
  exact ⟨text, hos, hasked, hexecuted⟩

end AnythingTool
