import AnythingTool.Daemon.Listing
import AnythingTool.Rpc.Strings

/-!
# Every request is answered in full

The handlers do not look at what the response builders return, so a response is whole
only because the buffers are large enough for each other. `Course.answered` checks this
for every course. It fails in one place: a list of exactly thirty-two requests fills the
list buffer up to the last hundred bytes, and the line around it has no room left for an
id that escapes into more than eighty-seven bytes.
-/

namespace AnythingTool

open CText JsonText

variable {config : Config} {approvals : ApprovalStore} {input : Input} {request : RpcRequest}

/-- A call of one of the two response builders for a request with this id. -/
inductive Built (id : Bytes) : Option (ℕ × CString 4096) → Prop
  | result (json : Bytes) : Built id (anythingRpcResult 4096 id json)
  | error (code : ℤ) (kind message data : Bytes) :
      Built id (anythingRpcError 4096 (some id) code kind message data)

/-- One response is written, last of all, and it is the whole line that a builder
printed. -/
def Answered (id : Bytes) (effects : List Effect) : Prop :=
  ∃ before built, effects = before ++ [writeResponse built] ∧ (∀ r, .reply r ∉ before) ∧
    Built id built ∧ CompleteResponse built

/-! ## Results and errors -/

/-- The kind and message of an error fit their buffers whatever the request. -/
structure FixedError (code : ℤ) (kind message : Bytes) : Prop where
  code : (formatInt code).length ≤ 6
  kind : (0 : UInt8) ∉ kind ∧ (escaped kind).length < 128
  message : (0 : UInt8) ∉ message ∧ (escaped message).length < 256

/-- An error fills the response buffer with its whole line. -/
theorem errorResponse_reply {code : ℤ} {kind message : Bytes} {data : List (String × Bytes)}
    (hid : ShortText request.id.bytes) (hfixed : FixedError code kind message)
    (hkey : PlainKeys data) (hdata : ∀ f ∈ data, Inline f.2)
    (hlen : (moreFields data).length < 768) :
    ∃ buf, errorResponse request.id.bytes code kind message (moreFields data) =
        .reply (some buf) ∧
      buf.bytes = errorLine request.id.bytes code kind message data := by
  have hescaped := length_escaped_lt hid
  have hcode := hfixed.code
  have hkind := hfixed.kind.2
  have hmessage := hfixed.message.2
  have hfits : (errorLine request.id.bytes code kind message data).length < 4096 := by
    rw [length_errorLine]
    omega
  refine ⟨(printLine 4096 (errorLine request.id.bytes code kind message data)).2, ?_,
    printLine_bytes (jsonLine_errorLine hkey hdata) hfits⟩
  rw [errorResponse, anythingRpcError_eq ⟨⟨request.id.noNul, hescaped⟩, hfixed.kind,
    hfixed.message⟩]
  rfl

theorem plainError_reply {code : ℤ} {kind message : Bytes} (hid : ShortText request.id.bytes)
    (hfixed : FixedError code kind message) :
    ∃ buf, errorResponse request.id.bytes code kind message [] = .reply (some buf) ∧
      buf.bytes = errorLine request.id.bytes code kind message [] := by
  have h : ∃ buf, errorResponse request.id.bytes code kind message (moreFields []) =
      .reply (some buf) ∧ buf.bytes = errorLine request.id.bytes code kind message [] :=
    errorResponse_reply hid hfixed (by simp [PlainKeys]) (by simp) (by decide)
  exact h

/-- Some response reports an error of this kind with this message. -/
def Reports (effects : List Effect) (kind message : Bytes) : Prop :=
  ∃ buf id code data, .reply (some buf) ∈ effects ∧
    buf.bytes = errorLine id code kind message data

theorem reports_emit {effect : Effect} {handled : Handled} {kind message : Bytes}
    (hquiet : ∀ r, effect ≠ .reply r) :
    Reports (emit effect handled).effects kind message ↔
      Reports handled.effects kind message := by
  have hmem : ∀ r, .reply r ∈ (emit effect handled).effects ↔ .reply r ∈ handled.effects := by
    intro r
    change .reply r ∈ effect :: handled.effects ↔ _
    rw [List.mem_cons, or_iff_right (hquiet r).symm]
  simp only [Reports, hmem]

theorem reports_plainError {code : ℤ} {kind message : Bytes} (hid : ShortText request.id.bytes)
    (hfixed : FixedError code kind message) :
    Reports [errorResponse request.id.bytes code kind message []] kind message := by
  obtain ⟨buf, hreply, hbuf⟩ := plainError_reply hid hfixed
  exact ⟨buf, _, _, _, by rw [hreply]; exact List.mem_singleton_self _, hbuf⟩

/-- What an error reports is its own kind and message. -/
theorem Reports.of_error {code : ℤ} {kind message kind' message' : Bytes}
    {data : List (String × Bytes)} (hid : ShortText request.id.bytes)
    (hfixed : FixedError code kind message) (hkey : PlainKeys data)
    (hdata : ∀ f ∈ data, Inline f.2) (hlen : (moreFields data).length < 768)
    (h : Reports [errorResponse request.id.bytes code kind message (moreFields data)] kind'
      message') : escaped kind = escaped kind' ∧ escaped message = escaped message' := by
  obtain ⟨buf, hreply, hbuf⟩ := errorResponse_reply hid hfixed hkey hdata hlen
  obtain ⟨buf', id, code', data', hmem, hbuf'⟩ := h
  rw [hreply, List.mem_singleton] at hmem
  obtain rfl := Option.some.inj (Effect.reply.inj hmem)
  exact errorLine_inj (hbuf.symm.trans hbuf')

theorem Reports.of_plainError {code : ℤ} {kind message kind' message' : Bytes}
    (hid : ShortText request.id.bytes) (hfixed : FixedError code kind message)
    (h : Reports [errorResponse request.id.bytes code kind message []] kind' message') :
    escaped kind = escaped kind' ∧ escaped message = escaped message' := by
  have hplain : Reports [errorResponse request.id.bytes code kind message (moreFields [])]
      kind' message' := h
  exact hplain.of_error hid hfixed (by simp [PlainKeys]) (by simp) (by decide)

namespace Answered

theorem result {json : Bytes} (hid : ShortText request.id.bytes) (hjson : Inline json)
    (hlen : 36 + (escaped request.id.bytes).length + json.length < 4096) :
    Answered request.id.bytes [resultResponse request.id.bytes json] := by
  refine ⟨[], anythingRpcResult 4096 request.id.bytes json, rfl, by simp, .result json, ?_⟩
  rw [anythingRpcResult_eq request.id.noNul (length_escaped_lt hid),
    completeResponse_printLine (jsonLine_resultLine _ hjson), length_resultLine]
  exact hlen

theorem error {code : ℤ} {kind message : Bytes} {data : List (String × Bytes)}
    (hid : ShortText request.id.bytes) (hfixed : FixedError code kind message)
    (hkey : PlainKeys data) (hdata : ∀ f ∈ data, Inline f.2)
    (hlen : (moreFields data).length < 768) :
    Answered request.id.bytes
      [errorResponse request.id.bytes code kind message (moreFields data)] := by
  have hescaped := length_escaped_lt hid
  refine ⟨[], anythingRpcError 4096 (some request.id.bytes) code kind message (moreFields data),
    rfl, by simp, .error code kind message _, ?_⟩
  rw [anythingRpcError_eq ⟨⟨request.id.noNul, hescaped⟩, hfixed.kind, hfixed.message⟩,
    completeResponse_printLine (jsonLine_errorLine hkey hdata), length_errorLine]
  have hcode := hfixed.code
  have hkind := hfixed.kind.2
  have hmessage := hfixed.message.2
  omega

/-- An error that carries nothing but its kind. -/
theorem plainError {code : ℤ} {kind message : Bytes} (hid : ShortText request.id.bytes)
    (hfixed : FixedError code kind message) :
    Answered request.id.bytes [errorResponse request.id.bytes code kind message []] := by
  have h : Answered request.id.bytes
      [errorResponse request.id.bytes code kind message (moreFields [])] :=
    .error hid hfixed (by simp [PlainKeys]) (by simp) (by decide)
  exact h

theorem emit {effect : Effect} {handled : Handled} (hquiet : ∀ r, effect ≠ .reply r)
    (h : Answered request.id.bytes handled.effects) :
    Answered request.id.bytes (emit effect handled).effects := by
  obtain ⟨before, built, heffects, hbefore, hbuilt⟩ := h
  refine ⟨effect :: before, built, ?_, ?_, hbuilt⟩
  · change effect :: handled.effects = _
    rw [heffects]
    rfl
  · intro r hmem
    rcases List.mem_cons.mp hmem with heq | hmem
    · exact hquiet r heq.symm
    · exact hbefore r hmem

/-- Behind an audit write the answer is the one that was to come, or `audit_failed`. -/
theorem checked {outcome : AuditOutcome} {event : AuditEvent} {store : ApprovalStore}
    {next : Handled} (hid : ShortText request.id.bytes)
    (h : Answered request.id.bytes next.effects) :
    Answered request.id.bytes
      (checkedAudit outcome event request.id.bytes store next).effects := by
  have hfixed : FixedError (-32050) (ascii "audit_failed") (ascii "audit write failed") :=
    ⟨by decide, by decide, by decide⟩
  unfold checkedAudit
  apply Answered.emit (by simp)
  by_cases hok : (auditWrite outcome event).ok = true
  · rw [if_pos hok]
    exact h
  · rw [if_neg hok]
    exact .plainError hid hfixed

end Answered

/-! ## The texts of the errors -/

theorem ApprovalError.fixed (e : ApprovalError) :
    (0 : UInt8) ∉ e.kind ∧ (escaped e.kind).length < 128 := by
  cases e
  all_goals decide

theorem Refusal.fixed {code : ℤ} {kind message : Bytes}
    (h : Refusal config approvals input request code kind message) :
    FixedError code kind message := by
  cases h with
  | listTooLarge => exact ⟨by decide, by decide, by decide⟩
  | invalidParams => exact ⟨by decide, by decide, by decide⟩
  | @approve requestId e => exact ⟨by decide, e.fixed, by decide⟩
  | @reject requestId e => exact ⟨by decide, e.fixed, by decide⟩
  | @execute requestId e => exact ⟨by decide, e.fixed, by decide⟩
  | recheck => exact ⟨by decide, by decide, by decide⟩
  | unknownMethod => exact ⟨by decide, by decide, by decide⟩

theorem preflight_reason (config : Config) (request : RpcRequest) :
    (anythingPolicyPreflight config request).reason.bytes ∈
      [ascii "unknown_tool", ascii "policy_denied", ascii "approval_required"] := by
  have hreason : ∀ text ∈ [ascii "unknown_tool", ascii "policy_denied",
      ascii "approval_required"], (CString.snprintf 128 text).bytes = text := by decide
  unfold anythingPolicyPreflight
  split_ifs
  · rw [hreason _ (by simp)]
    simp
  · rw [hreason _ (by simp)]
    simp
  · rw [hreason _ (by simp)]
    simp

theorem Denial.fixed {code : ℤ} {risk kind summary message : Bytes}
    (h : Denial config request code risk kind summary message) :
    FixedError code kind message := by
  cases h with
  | controlPlane => exact ⟨by decide, by decide, by decide⟩
  | policy =>
      have hkinds : ∀ kind ∈ [ascii "unknown_tool", ascii "policy_denied",
          ascii "approval_required"], (0 : UInt8) ∉ kind ∧ (escaped kind).length < 128 := by
        decide
      exact ⟨by decide, hkinds _ (preflight_reason config request), by decide⟩

/-! ## The system information -/

/-- The texts `anything_sys_info_json` reports. -/
def sysErrors : List Bytes :=
  [ascii "uname failed", ascii "sys.info JSON escaping failed",
    ascii "sys.info output exceeded buffer"]

theorem sysInfoText_eq (hostname kernel osRelease uptime arch : Bytes) :
    sysInfoText (escaped hostname) (escaped kernel) (escaped osRelease) (escaped uptime)
        (escaped arch) =
      objectText (fields [("version", literal (ascii "v0.1.1")),
        ("hostname", stringValue hostname), ("kernel_version", stringValue kernel),
        ("os_release", stringValue osRelease), ("uptime", stringValue uptime),
        ("architecture", stringValue arch)]) := by
  simp only [sysInfoText, objectText_fields_cons, moreFields, field_text, stringValue, literal,
    List.flatMap_cons, List.flatMap_nil, List.append_assoc, List.cons_append, List.nil_append]
  rfl

theorem inline_sysInfoText (hostname kernel osRelease uptime arch : Bytes) :
    Inline (sysInfoText (escaped hostname) (escaped kernel) (escaped osRelease)
      (escaped uptime) (escaped arch)) := by
  have hversion : StringText (ascii "v0.1.1") := .of_unescaped (by decide)
  rw [sysInfoText_eq]
  apply Inline.object (by simp)
  · simp only [PlainKeys, List.forall_mem_cons]
    decide
  · simp only [List.forall_mem_cons]
    exact ⟨.string hversion, inline_stringValue _, inline_stringValue _, inline_stringValue _,
      inline_stringValue _, inline_stringValue _, by simp⟩

/-- The tool returns one JSON object, or one of its error texts. -/
theorem anythingSysInfoJson_spec (os : OsReading) :
    (∀ result, anythingSysInfoJson os = .ok result → Inline result.bytes) ∧
      ∀ sysError, anythingSysInfoJson os = .error sysError → sysError.bytes ∈ sysErrors := by
  have herror : ∀ text ∈ sysErrors, (CString.snprintf 128 text).bytes ∈ sysErrors := by decide
  unfold anythingSysInfoJson
  cases os.uname with
  | none =>
      refine ⟨by simp, ?_⟩
      intro sysError h
      obtain rfl := Except.error.inj h
      exact herror _ (by decide)
  | some uts =>
      simp only
      split
      · rename_i hostname kernel osRelease uptime arch hhost hkernel hrelease huptime harch
        have hinline := inline_sysInfoText uts.nodename.bytes uts.release.bytes
          (readFirstLine 256 os.osRelease).bytes (readFirstLine 64 os.procUptime).bytes
          uts.machine.bytes
        rw [← (anythingJsonEscapeString_eq_some (CString.noNul _)).mp hhost,
          ← (anythingJsonEscapeString_eq_some (CString.noNul _)).mp hkernel,
          ← (anythingJsonEscapeString_eq_some (CString.noNul _)).mp hrelease,
          ← (anythingJsonEscapeString_eq_some (CString.noNul _)).mp huptime,
          ← (anythingJsonEscapeString_eq_some (CString.noNul _)).mp harch] at hinline
        split_ifs with hlen
        · refine ⟨by simp, ?_⟩
          intro sysError h
          obtain rfl := Except.error.inj h
          exact herror _ (by decide)
        · refine ⟨?_, by simp⟩
          intro result h
          obtain rfl := Except.ok.inj h
          rw [CString.snprintf_bytes_of_fits hinline.zero_notMem (not_le.mp hlen)]
          exact hinline
      · refine ⟨by simp, ?_⟩
        intro sysError h
        obtain rfl := Except.error.inj h
        exact herror _ (by decide)

/-! ## The answer to a stored request -/

/-- The extra fields of the answer are four members; a clock beyond all bounds would cost
digits, not the syntax. -/
theorem approvalRequiredData_bytes {pending : PendingRequest} {requestId : CString 128}
    {risk : CString 64} {summary : CString 512} (h : AnswerFields pending requestId risk summary)
    (expiresAt : ℤ) :
    ∃ digits, Inline digits ∧ (approvalRequiredData requestId risk summary expiresAt).bytes =
      moreFields [("request_id", stringValue pending.requestId.bytes),
        ("risk", stringValue pending.risk.bytes),
        ("summary", stringValue pending.summary.bytes), ("expires_at", digits)] := by
  have hid := (anythingJsonEscapeString_eq_some pending.requestId.noNul).mp h.requestId
  have hrisk := (anythingJsonEscapeString_eq_some pending.risk.noNul).mp h.risk
  have hsummary := (anythingJsonEscapeString_eq_some pending.summary.noNul).mp h.summary
  -- the fields in front of the number leave room for some of its digits
  let front : Bytes := ascii ",\"request_id\":\"" ++ requestId.bytes ++ ascii "\",\"risk\":\"" ++
    risk.bytes ++ ascii "\",\"summary\":\"" ++ summary.bytes ++ ascii "\",\"expires_at\":"
  have hfront : front.length + 2 ≤ 767 := by
    have hconst : (ascii ",\"request_id\":\"").length = 15 ∧
        (ascii "\",\"risk\":\"").length = 10 ∧ (ascii "\",\"summary\":\"").length = 13 ∧
        (ascii "\",\"expires_at\":").length = 15 := by decide
    have h₁ := requestId.fits
    have h₂ := risk.fits
    have h₃ := summary.fits
    simp only [front, List.length_append, hconst]
    omega
  have h0 : (0 : UInt8) ∉ front ++ formatInt expiresAt := by
    have hconst : (0 : UInt8) ∉ ascii ",\"request_id\":\"" ∧ (0 : UInt8) ∉ ascii "\",\"risk\":\"" ∧
        (0 : UInt8) ∉ ascii "\",\"summary\":\"" ∧ (0 : UInt8) ∉ ascii "\",\"expires_at\":" := by
      decide
    simp only [front, List.mem_append, not_or]
    exact ⟨⟨⟨⟨⟨⟨⟨hconst.1, requestId.noNul⟩, hconst.2.1⟩, risk.noNul⟩, hconst.2.2.1⟩,
      summary.noNul⟩, hconst.2.2.2⟩, (Inline.number expiresAt).zero_notMem⟩
  obtain ⟨j, hj⟩ : ∃ j, 767 - front.length = j + 2 := ⟨767 - front.length - 2, by omega⟩
  refine ⟨(formatInt expiresAt).take (j + 2), .scalar (.inl (isNumber_take_formatInt _ _)), ?_⟩
  have hbytes : (approvalRequiredData requestId risk summary expiresAt).bytes =
      front ++ (formatInt expiresAt).take (j + 2) := by
    change (CString.snprintf 768 (front ++ formatInt expiresAt)).bytes = _
    rw [CString.snprintf_bytes, cstr_of_notMem h0, List.take_append,
      List.take_of_length_le (by omega), hj]
  rw [hbytes]
  simp only [front, hid, hrisk, hsummary, moreFields, field_text, stringValue, literal,
    List.flatMap_cons, List.flatMap_nil, List.append_assoc, List.cons_append, List.nil_append,
    List.append_nil]
  rfl

/-- They are well formed and short. -/
theorem approvalRequiredData_fields {pending : PendingRequest} {requestId : CString 128}
    {risk : CString 64} {summary : CString 512} (h : AnswerFields pending requestId risk summary)
    (expiresAt : ℤ) :
    ∃ data, (approvalRequiredData requestId risk summary expiresAt).bytes = moreFields data ∧
      PlainKeys data ∧ (∀ f ∈ data, Inline f.2) ∧ (moreFields data).length < 768 := by
  obtain ⟨digits, hdigits, hdata⟩ := approvalRequiredData_bytes h expiresAt
  refine ⟨_, hdata, ?_, ?_, ?_⟩
  · simp only [PlainKeys, List.forall_mem_cons]
    decide
  · simp only [List.forall_mem_cons]
    exact ⟨inline_stringValue _, inline_stringValue _, inline_stringValue _, hdigits, by simp⟩
  · rw [← hdata]
    exact (approvalRequiredData requestId risk summary expiresAt).fits

/-! ## Every course -/

/-- An admin asks for the list. -/
structure AsksForList (config : Config) (input : Input) (request : RpcRequest) : Prop where
  plane : input.plane = .admin
  admin : anythingConfigIdentityIsAdmin config input.peer = true
  parse : anythingRpcParse input.body = .ok request
  method : request.method.bytes = ascii "approval.list"

/-- The list of a standard store, when it fits the list buffer. -/
theorem list_bytes {list : CString 4096} (hstore : StandardStore approvals.pending)
    (hcount : approvals.count ≤ 64)
    (hlist : anythingApprovalListJson 4096 approvals = some list) :
    approvals.count ≤ 32 ∧ list.bytes = listObject approvals.pending := by
  refine ⟨(exists_list_iff hstore hcount).mp ⟨list, hlist⟩, ?_⟩
  apply (anythingApprovalListJson_eq_some _).mp hlist
  intro p hp
  obtain ⟨slot, hstored⟩ := List.mem_iff_getElem?.mp hp
  have hslot := (List.getElem?_eq_some_iff.mp hstored).1
  exact (hstore slot p hstored).fits (lt_of_lt_of_le hslot hcount)

theorem inline_flag (key : String) (hkey : ∀ c ∈ ascii key, Unescaped c) :
    Inline (objectText (fields [(key, ascii "true")])) := by
  apply Inline.object (by simp)
  · intro f hf
    obtain rfl := List.mem_singleton.mp hf
    exact hkey
  · intro f hf
    obtain rfl := List.mem_singleton.mp hf
    exact .scalar (.inr (.inl rfl))

theorem reportRun_answered {ref : PendingRef} (hid : ShortText request.id.bytes) :
    Answered request.id.bytes (reportRun approvals input.env input.peer request.id.bytes ref
      (anythingSysInfoJson input.env.os)).effects := by
  obtain ⟨hok, herror⟩ := anythingSysInfoJson_spec input.env.os
  cases hresult : anythingSysInfoJson input.env.os with
  | error sysError =>
      have hmessages : ∀ message ∈ sysErrors,
          (0 : UInt8) ∉ message ∧ (escaped message).length < 256 := by decide
      have hfixed : FixedError (-32030) (ascii "execution_failed") sysError.bytes :=
        ⟨by decide, by decide, hmessages _ (herror sysError hresult)⟩
      exact .checked hid (.plainError hid hfixed)
  | ok result =>
      have hescaped := length_escaped_lt hid
      have hfits := result.fits
      exact .checked hid (.result hid (hok result hresult) (by omega))

/-- Every course ends in one whole line, but for the list of thirty-two requests. -/
theorem Course.answered {handled : Handled} (h : Course config approvals input request handled)
    (hparse : anythingRpcParse input.body = .ok request)
    (hstore : StandardStore approvals.pending) (hcount : approvals.count ≤ 64)
    (hroom : ¬ (AsksForList config input request ∧ approvals.count = 32 ∧
      87 < (escaped request.id.bytes).length)) :
    Answered request.id.bytes handled.effects := by
  have hid := (shortStrings_of_parse hparse).id
  cases h with
  | denied hplane hdenial => exact .checked hid (.checked hid (.plainError hid hdenial.fixed))
  | full hplane hallowed hfull =>
      exact .checked hid (.plainError hid ⟨by decide, by decide, by decide⟩)
  | stored hplane hallowed hspace hfields =>
      obtain ⟨data, hdata, hkey, hinline, hlen⟩ := approvalRequiredData_fields hfields
        (admitted config approvals input request).expiresAt
      rw [hdata]
      exact .checked hid (.emit (by simp) (.checked hid (.error hid
        ⟨by decide, by decide, by decide⟩ hkey hinline hlen)))
  | unauthorized hplane hadmin =>
      exact .checked hid (.plainError hid ⟨by decide, by decide, by decide⟩)
  | refused hplane hadmin hrefusal => exact .plainError hid hrefusal.fixed
  | @listed list hplane hadmin hmethod hlist =>
      obtain ⟨hfew, hbytes⟩ := list_bytes hstore hcount hlist
      have hlength := length_listObject hstore hcount
      have hescaped := length_escaped_lt hid
      have hshort : approvals.count = 32 → (escaped request.id.bytes).length ≤ 87 := by
        intro hall
        by_contra hlong
        exact hroom ⟨⟨hplane, hadmin, hparse, hmethod⟩, hall, not_le.mp hlong⟩
      rw [hbytes]
      apply Answered.result hid (inline_listObject _)
      rw [hlength]
      change approvals.count ≤ 32 at hfew
      unfold ApprovalStore.count at hfew hshort
      omega
  | granted hmethod haddr hstatus hnow hother =>
      have hescaped := length_escaped_lt hid
      have hlength : (ascii "\x7b\"approved\":true\x7d").length = 17 := by decide
      have hjson : Inline (ascii "\x7b\"approved\":true\x7d") := inline_flag "approved" (by decide)
      exact .emit (by simp) (.checked hid (.result hid hjson (by omega)))
  | rejected hmethod haddr hother =>
      have hescaped := length_escaped_lt hid
      have hlength : (ascii "\x7b\"rejected\":true\x7d").length = 17 := by decide
      have hjson : Inline (ascii "\x7b\"rejected\":true\x7d") := inline_flag "rejected" (by decide)
      exact .emit (by simp) (.checked hid (.result hid hjson (by omega)))
  | ran hmethod haddr hstatus hnow hpolicy =>
      exact .checked hid (.emit (by simp) (reportRun_answered hid))

/-- A request whose list fills its buffer and whose id leaves the line no room. -/
structure Overlong (config : Config) (approvals : ApprovalStore) (input : Input)
    (request : RpcRequest) : Prop where
  asks : AsksForList config input request
  count : approvals.count = 32
  id : 87 < (escaped request.id.bytes).length

theorem handleRequest_list (hasks : AsksForList config input request) :
    handleRequest config approvals input =
      ⟨approvals, [match anythingApprovalListJson 4096 approvals with
        | none => errorResponse request.id.bytes (-32000) (ascii "resource_limit")
            (ascii "pending list too large") []
        | some list => resultResponse request.id.bytes list.bytes]⟩ := by
  simp only [handleRequest, hasks.plane, handleAdminRequest, hasks.parse, hasks.admin,
    Bool.not_true, Bool.false_eq_true, if_false, routeAdminRequest, hasks.method, if_true]
  cases anythingApprovalListJson 4096 approvals with
  | none => rfl
  | some list => rfl

/-- A line that is cut has lost its newline. -/
theorem getLast?_take_jsonLine {line : Bytes} (hline : JsonLine line) {k : ℕ}
    (hk : k < line.length) : (line.take k).getLast? ≠ some newline := by
  obtain ⟨t, ht, -, rfl⟩ := hline
  rw [List.length_append, List.length_singleton] at hk
  rw [List.take_append_of_le_length (by omega)]
  intro hlast
  have hmem := List.mem_of_mem_take (List.mem_of_getLast? hlast)
  exact ht.noControl.notMem (by decide) hmem

/-- The list of thirty-two requests does not fit the line around it. -/
theorem Overlong.not_answered (h : Overlong config approvals input request)
    (hstore : StandardStore approvals.pending) :
    ¬ Answered request.id.bytes (handleRequest config approvals input).effects := by
  have hcount : approvals.count ≤ 64 := by
    rw [h.count]
    decide
  have hescaped := length_escaped_lt (shortStrings_of_parse h.asks.parse).id
  obtain ⟨list, hlist⟩ := (exists_list_iff hstore hcount).mpr (h.count.le)
  obtain ⟨-, hbytes⟩ := list_bytes hstore hcount hlist
  have hline : JsonLine (resultLine request.id.bytes list.bytes) := by
    rw [hbytes]
    exact jsonLine_resultLine _ (inline_listObject _)
  have hlong : 4096 - 1 < (resultLine request.id.bytes list.bytes).length := by
    have hid := h.id
    have hall := h.count
    unfold ApprovalStore.count at hall
    rw [length_resultLine, hbytes, length_listObject hstore hcount, hall]
    omega
  rw [handleRequest_list h.asks]
  simp only [hlist]
  rintro ⟨before, built, heffects, -, -, length, buf, rfl, -, hbuf⟩
  have hreply : resultResponse request.id.bytes list.bytes =
      writeResponse (some (length, buf)) := by
    have hlast := congrArg List.getLast? heffects
    simpa using hlast
  rw [resultResponse, anythingRpcResult_eq request.id.noNul hescaped] at hreply
  have hbuffer : CString.snprintf 4096 (resultLine request.id.bytes list.bytes) = buf := by
    simpa [writeResponse, printLine] using hreply
  rw [← hbuffer, CString.snprintf_bytes, cstr_of_notMem hline.zero_notMem] at hbuf
  exact getLast?_take_jsonLine hline hlong hbuf.getLast?

/-- Every accepted request is answered with one whole JSON line, unless it asks for the
list of exactly thirty-two requests under an id that escapes into more than
eighty-seven bytes. -/
theorem answered_iff (config : Config) (is : List Input) (input : Input) (request : RpcRequest)
    (hparse : anythingRpcParse input.body = .ok request) :
    Answered request.id.bytes ((daemon config).step ((daemon config).run is) input).2 ↔
      ¬ Overlong config ((daemon config).run is).approvals input request := by
  have hstore := standardStore_run config is
  have hcount := (counted_run config is).count
  rw [daemon_step_effects]
  constructor
  · intro hanswered hlong
    exact hlong.not_answered hstore hanswered
  · intro hroom
    apply (course config _ hparse).answered hparse hstore hcount
    intro hlong
    exact hroom ⟨hlong.1, hlong.2.1, hlong.2.2⟩

/-- The agent's first request is answered in full. -/
theorem answered_sample :
    ∃ request, anythingRpcParse (Sample.ask Sample.written).body = .ok request ∧
      Answered request.id.bytes ((daemon Sample.config).step ((daemon Sample.config).run [])
        (Sample.ask Sample.written)).2 := by
  obtain ⟨request, hparse⟩ := exists_ok_of_isSome (by decide +kernel :
    (anythingRpcParse (Sample.ask Sample.written).body).toOption.isSome = true)
  refine ⟨request, hparse, (answered_iff Sample.config [] _ request hparse).mpr ?_⟩
  intro hlong
  cases hlong.asks.plane

/-- An id of forty-four quotes. -/
def quotesId : Bytes := (List.replicate 44 [backslash, quote]).flatten

/-- Under that id the list of thirty-two requests is cut off. -/
theorem not_answered :
    ¬ ∀ config is input request, anythingRpcParse input.body = .ok request →
      Answered request.id.bytes ((daemon config).step ((daemon config).run is) input).2 := by
  intro h
  let is := List.replicate 32 (Sample.ask Sample.written)
  let input := Sample.askForList quotesId
  obtain ⟨request, hparse⟩ := exists_ok_of_isSome
    (by decide +kernel : (anythingRpcParse input.body).toOption.isSome = true)
  have hfacts : ∀ request, anythingRpcParse input.body = .ok request →
      request.method.bytes = ascii "approval.list" ∧
        87 < (escaped request.id.bytes).length := by decide +kernel
  obtain ⟨hmethod, hid⟩ := hfacts request hparse
  have hlong : Overlong Sample.config ((daemon Sample.config).run is).approvals input request :=
    ⟨⟨rfl, by decide, hparse, hmethod⟩, Sample.count_asks (by decide), hid⟩
  have hanswered := h Sample.config is input request hparse
  rw [daemon_step_effects] at hanswered
  exact hlong.not_answered (standardStore_run Sample.config is) hanswered

end AnythingTool
