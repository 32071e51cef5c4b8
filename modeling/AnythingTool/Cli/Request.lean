import AnythingTool.Library.JsonLines
import AnythingTool.Rpc.FirstField

/-!
# Requests of the command line client

`make_request` prints the argument of a command between two quotes as it was typed. What
the daemon reads there is the string that starts at the first of these quotes, which is the
argument when the argument has nothing in it that a string escapes
(`FirstString.eq_iff`).
-/

namespace AnythingTool

open CText JsonText

/-! ## Building a request -/

/-- `make_request`; the buffer is the one of `main`. -/
def makeRequest (command arg : Bytes) : CString 2048 :=
  if command = ascii "sys-info" then
    .snprintf 2048 (ascii
      "\x7b\"jsonrpc\":\"2.0\",\"id\":\"1\",\"method\":\"sys.info\",\"params\":\x7b\"session_id\":\""
        ++ arg ++ ascii "\"\x7d\x7d\n")
  else if command = ascii "pending" then
    .snprintf 2048 (ascii
      "\x7b\"jsonrpc\":\"2.0\",\"id\":\"1\",\"method\":\"approval.list\",\"params\":\x7b\x7d\x7d\n")
  else if command = ascii "approve" then
    .snprintf 2048 (ascii
      "\x7b\"jsonrpc\":\"2.0\",\"id\":\"1\",\"method\":\"approval.approve\",\"params\":\x7b\"request_id\":\""
        ++ arg ++ ascii "\"\x7d\x7d\n")
  else if command = ascii "reject" then
    .snprintf 2048 (ascii
      "\x7b\"jsonrpc\":\"2.0\",\"id\":\"1\",\"method\":\"approval.reject\",\"params\":\x7b\"request_id\":\""
        ++ arg ++ ascii "\"\x7d\x7d\n")
  else if command = ascii "execute" then
    .snprintf 2048 (ascii
      "\x7b\"jsonrpc\":\"2.0\",\"id\":\"1\",\"method\":\"approval.execute\",\"params\":\x7b\"request_id\":\""
        ++ arg ++ ascii "\"\x7d\x7d\n")
  else .empty

/-- The commands that pass their argument on. -/
inductive ArgumentCommand
  | sysInfo
  | approve
  | reject
  | execute
deriving DecidableEq

namespace ArgumentCommand

def name : ArgumentCommand → Bytes
  | sysInfo => ascii "sys-info"
  | approve => ascii "approve"
  | reject => ascii "reject"
  | execute => ascii "execute"

def method : ArgumentCommand → Bytes
  | sysInfo => ascii "sys.info"
  | approve => ascii "approval.approve"
  | reject => ascii "approval.reject"
  | execute => ascii "approval.execute"

/-- The parameter the argument is passed as. -/
def param : ArgumentCommand → Bytes
  | sysInfo => ascii "session_id"
  | _ => ascii "request_id"

/-- The fields in front of the parameters. -/
def headFields (command : ArgumentCommand) : List (String × Bytes) :=
  [("jsonrpc", literal (ascii "2.0")), ("id", literal (ascii "1")),
    ("method", literal command.method)]

/-- The text of a request up to its argument. -/
def head (command : ArgumentCommand) : Bytes :=
  lbrace :: leading (fields command.headFields) (literal (ascii "params") ++
    colon :: lbrace :: (literal command.param ++ [colon, quote]))

theorem head_append (command : ArgumentCommand) (r : Bytes) :
    command.head ++ r = lbrace :: leading (fields command.headFields)
      (literal (ascii "params") ++
        colon :: lbrace :: (literal command.param ++ colon :: quote :: r)) := by
  cases command
  all_goals rfl

theorem snprintf_parts {head head' tail tail' : Bytes} (arg : Bytes) (hhead : head = head')
    (htail : tail = tail') :
    CString.snprintf 2048 (head ++ arg ++ tail) = .snprintf 2048 (head' ++ (arg ++ tail')) := by
  rw [hhead, htail, List.append_assoc]

theorem makeRequest_name (command : ArgumentCommand) (arg : Bytes) :
    makeRequest command.name arg =
      .snprintf 2048 (command.head ++ (arg ++ quote :: ascii "\x7d\x7d\n")) := by
  cases command with
  | sysInfo =>
      rw [name, makeRequest, if_pos rfl]
      exact snprintf_parts arg (by decide +kernel) (by decide)
  | approve =>
      rw [name, makeRequest, if_neg (by decide), if_neg (by decide), if_pos rfl]
      exact snprintf_parts arg (by decide +kernel) (by decide)
  | reject =>
      rw [name, makeRequest, if_neg (by decide), if_neg (by decide), if_neg (by decide),
        if_pos rfl]
      exact snprintf_parts arg (by decide +kernel) (by decide)
  | execute =>
      rw [name, makeRequest, if_neg (by decide), if_neg (by decide), if_neg (by decide),
        if_neg (by decide), if_pos rfl]
      exact snprintf_parts arg (by decide +kernel) (by decide)

theorem head_fits (command : ArgumentCommand) :
    (0 : UInt8) ∉ command.head ∧ command.head.length ≤ 2047 := by
  cases command
  all_goals decide

/-- Only what follows the head can be cut. -/
theorem makeRequest_bytes (command : ArgumentCommand) {arg : Bytes} (h0 : (0 : UInt8) ∉ arg) :
    ∃ k, (makeRequest command.name arg).bytes =
      command.head ++ (arg ++ quote :: ascii "\x7d\x7d\n").take k := by
  obtain ⟨hhead, hlen⟩ := command.head_fits
  have hall : (0 : UInt8) ∉ command.head ++ (arg ++ quote :: ascii "\x7d\x7d\n") := by
    have htail : (0 : UInt8) ∉ quote :: ascii "\x7d\x7d\n" := by decide
    simp only [List.mem_append, not_or]
    exact ⟨hhead, h0, htail⟩
  refine ⟨2047 - command.head.length, ?_⟩
  rw [makeRequest_name, CString.snprintf_bytes, cstr_of_notMem hall, List.take_append,
    List.take_of_length_le hlen]

end ArgumentCommand

/-! ## The string an argument starts -/

/-- Nothing in the argument ends the string or is escaped in it. -/
def Verbatim (arg : Bytes) : Prop := quote ∉ arg ∧ backslash ∉ arg

instance (arg : Bytes) : Decidable (Verbatim arg) :=
  inferInstanceAs (Decidable (quote ∉ arg ∧ backslash ∉ arg))

/-- The argument up to its first quote that is not escaped, decoded. -/
def FirstString (arg dec : Bytes) : Prop :=
  ∃ raw, StringBody raw dec ∧ (raw = arg ∨ ∃ rest, arg = raw ++ quote :: rest)

section FirstString

variable {arg dec dec' : Bytes}

/-- The string ends in the argument, or at the quote behind it. -/
theorem firstString_of_tail {raw rest : Bytes} {k : ℕ} (hraw : StringBody raw dec)
    (h : (arg ++ quote :: ascii "\x7d\x7d\n").take k = raw ++ quote :: rest) :
    FirstString arg dec := by
  have hwhole : raw ++ quote :: (rest ++ (arg ++ quote :: ascii "\x7d\x7d\n").drop k) =
      arg ++ quote :: ascii "\x7d\x7d\n" := by
    rw [← List.cons_append, ← List.append_assoc, ← h, List.take_append_drop]
  refine ⟨raw, hraw, ?_⟩
  rcases List.append_eq_append_iff.mp hwhole with ⟨s, rfl, hs⟩ | ⟨s, rfl, hs⟩
  · cases s with
    | nil => exact .inl (List.append_nil raw).symm
    | cons c s =>
        obtain ⟨rfl, -⟩ := List.cons.inj hs
        exact .inr ⟨s, rfl⟩
  · cases s with
    | nil => exact .inl (List.append_nil arg)
    | cons c s =>
        have hmem : quote ∈ ascii "\x7d\x7d\n" := by
          rw [(List.cons.inj hs).2]
          simp
        exact absurd hmem (by decide)

theorem FirstString.closed (h : FirstString arg dec) :
    ∃ raw rest, StringBody raw dec ∧ arg ++ [quote] = raw ++ quote :: rest := by
  obtain ⟨raw, hraw, rfl | ⟨rest, rfl⟩⟩ := h
  · exact ⟨raw, [], hraw, rfl⟩
  · exact ⟨raw, rest ++ [quote], hraw, by simp⟩

theorem FirstString.functional (h : FirstString arg dec) (h' : FirstString arg dec') :
    dec = dec' := by
  obtain ⟨raw, rest, hraw, heq⟩ := h.closed
  obtain ⟨raw', rest', hraw', heq'⟩ := h'.closed
  obtain ⟨rfl, -⟩ := hraw.text.quote_inj hraw'.text (heq.symm.trans heq')
  exact hraw.functional hraw'

theorem FirstString.length_le (h : FirstString arg dec) : dec.length ≤ arg.length := by
  obtain ⟨raw, hraw, rfl | ⟨rest, rfl⟩⟩ := h
  · exact hraw.length_le
  · have hle := hraw.length_le
    rw [List.length_append]
    omega

/-- The string is the whole argument exactly when the argument needs no escape. -/
theorem FirstString.eq_iff (h : FirstString arg dec) : dec = arg ↔ Verbatim arg := by
  obtain ⟨raw, hraw, hend⟩ := h
  have hle := hraw.length_le
  constructor
  · rintro rfl
    rcases hend with rfl | ⟨rest, hrest⟩
    · have hslash : backslash ∉ raw := by
        intro hmem
        exact absurd (hraw.length_lt hmem) (lt_irrefl _)
      exact ⟨(hraw.eq_of_notMem hslash).2, hslash⟩
    · have hlen := congrArg List.length hrest
      rw [List.length_append, List.length_cons] at hlen
      omega
  · rintro ⟨hquote, hslash⟩
    rcases hend with rfl | ⟨rest, rfl⟩
    · exact (hraw.eq_of_notMem hslash).1
    · exact absurd (by simp) hquote

end FirstString

/-! ## What the daemon reads -/

/-- What the daemon has of the argument: the session of the request, or the identifier the
handlers extract, when they do not refuse it. -/
def PassedOn (command : ArgumentCommand) (arg : Bytes) (request : RpcRequest) : Prop :=
  match command with
  | .sysInfo => request.sessionId.bytes = arg
  | .approve | .reject | .execute =>
      ∀ requestId : CString 40, anythingRpcExtractParamString 40 request.params.bytes
        (ascii "request_id") = some requestId → requestId.bytes = arg

instance (command : ArgumentCommand) (arg : Bytes) (request : RpcRequest) :
    Decidable (PassedOn command arg request) :=
  match command with
  | .sysInfo => inferInstanceAs (Decidable (request.sessionId.bytes = arg))
  | .approve | .reject | .execute =>
      inferInstanceAs (Decidable (∀ requestId ∈ anythingRpcExtractParamString 40
        request.params.bytes (ascii "request_id"), requestId.bytes = arg))

/-- The arguments that are passed on as typed. -/
def Transparent (command : ArgumentCommand) (arg : Bytes) : Prop :=
  match command with
  | .sysInfo => Verbatim arg ∧ arg.length < 64
  | .approve | .reject | .execute =>
      Verbatim arg ∨ ∃ dec, FirstString arg dec ∧ 40 ≤ dec.length

namespace ArgumentCommand

theorem unescaped_method (command : ArgumentCommand) : ∀ c ∈ command.method, Unescaped c := by
  cases command
  all_goals decide

theorem method_fits (command : ArgumentCommand) : command.method.length < 64 := by
  cases command
  all_goals decide

theorem unescaped_param (command : ArgumentCommand) : ∀ c ∈ command.param, Unescaped c := by
  cases command
  all_goals decide

theorem param_fits (command : ArgumentCommand) : command.param.length < 64 := by
  cases command
  all_goals decide

theorem takenOnce_headFields (command : ArgumentCommand) :
    TakenOnce (fields command.headFields) := by
  cases command
  all_goals
    unfold TakenOnce
    decide

theorem methodField (command : ArgumentCommand) :
    StringField (fields command.headFields) (ascii "method") command.method := by
  refine ⟨field "method" (literal command.method), ?_, command.method,
    .of_unescaped command.unescaped_method, rfl⟩
  cases command
  all_goals rfl

/-- The main loop gets past the fields in front of the parameters. -/
theorem headFields_lead (command : ArgumentCommand) :
    ∀ m ∈ fields command.headFields, Leads m := by
  have hversion : StringBody (ascii "2.0") (ascii "2.0") := .of_unescaped (by decide)
  have hid : StringBody (ascii "1") (ascii "1") := .of_unescaped (by decide)
  have hmethod := StringBody.of_unescaped command.unescaped_method
  intro m hm
  simp only [fields, headFields, List.map_cons, List.map_nil, List.mem_cons, List.not_mem_nil,
    or_false] at hm
  rcases hm with rfl | rfl | rfl
  · exact ⟨field_lexes _ (by decide), .string hversion, by decide,
      .jsonrpc rfl ⟨_, hversion, rfl⟩⟩
  · exact ⟨field_lexes _ (by decide), .string hid, by decide,
      .id rfl ⟨_, hid, rfl⟩ (by decide)⟩
  · exact ⟨field_lexes _ (by decide), .string hmethod, (by decide : (ascii "method").length ≤ 63),
      .method rfl ⟨_, hmethod, rfl⟩ command.method_fits⟩

end ArgumentCommand

/-- The method is the command's, and the parameter the first string of the argument. -/
structure Reads (command : ArgumentCommand) (dec : Bytes) (request : RpcRequest) : Prop where
  method : request.method.bytes = command.method
  decoded : ∀ {n : ℕ} {out : CString n},
    anythingRpcExtractParamString n request.params.bytes command.param = some out →
      out.bytes = dec
  refused : ∀ n, anythingRpcExtractParamString n request.params.bytes command.param = none ↔
    n ≤ dec.length
  session : request.sessionId =
    (anythingRpcExtractParamString 64 request.params.bytes (ascii "session_id")).getD
      (.snprintf 64 (ascii "default"))

section Request

variable {command : ArgumentCommand} {arg dec : Bytes} {request : RpcRequest}

theorem exists_reads (h0 : (0 : UInt8) ∉ arg)
    (h : anythingRpcParse (makeRequest command.name arg).bytes = .ok request) :
    ∃ dec, FirstString arg dec ∧ Reads command dec request := by
  obtain ⟨k, hbytes⟩ := command.makeRequest_bytes h0
  rw [hbytes, command.head_append] at h
  obtain ⟨raw, dec, rest, hraw, htail, hmethod, t, hextract, hsession⟩ :=
    accepted_first command.headFields_lead command.takenOnce_headFields command.methodField
      command.unescaped_param command.param_fits h
  refine ⟨dec, firstString_of_tail hraw htail, hmethod, ?_, ?_, hsession⟩
  · intro n out hout
    rw [hextract] at hout
    exact (parseJsonString_literal hraw).1 out hout
  · intro n
    rw [hextract]
    exact (parseJsonString_literal hraw).2

/-- The session is the argument exactly when the argument is a string that fits. -/
theorem Reads.session_iff (h : Reads .sysInfo dec request) (hfirst : FirstString arg dec) :
    request.sessionId.bytes = arg ↔ Verbatim arg ∧ arg.length < 64 := by
  have hrefused := h.refused 64
  rw [h.session]
  change anythingRpcExtractParamString 64 request.params.bytes (ascii "session_id") = none ↔
    64 ≤ dec.length at hrefused
  cases hextract : anythingRpcExtractParamString 64 request.params.bytes (ascii "session_id") with
  | none =>
      -- the daemon falls back to its default session, and a longer text was typed
      have hlen := hrefused.mp hextract
      have hle := hfirst.length_le
      constructor
      · intro hdefault
        have hseven : arg.length = 7 := by
          rw [← hdefault]
          rfl
        omega
      · rintro ⟨-, hfits⟩
        omega
  | some out =>
      have hout : out.bytes = dec := h.decoded hextract
      have hfits := out.fits
      rw [Option.getD_some, hout, hfirst.eq_iff]
      constructor
      · intro hverbatim
        refine ⟨hverbatim, ?_⟩
        rw [← hfirst.eq_iff.mpr hverbatim, ← hout]
        exact hfits
      · exact And.left

/-- A handler has the argument for its request identifier, or nothing, exactly when the
argument is a string or starts with one that is too long. -/
theorem Reads.requestId_iff (h : Reads command dec request) (hfirst : FirstString arg dec)
    (hparam : command.param = ascii "request_id") :
    (∀ requestId : CString 40, anythingRpcExtractParamString 40 request.params.bytes
        (ascii "request_id") = some requestId → requestId.bytes = arg) ↔
      Verbatim arg ∨ ∃ dec, FirstString arg dec ∧ 40 ≤ dec.length := by
  have hrefused := h.refused 40
  rw [hparam] at hrefused
  have hdecoded : ∀ {out : CString 40}, anythingRpcExtractParamString 40 request.params.bytes
      (ascii "request_id") = some out → out.bytes = dec := by
    intro out hout
    rw [← hparam] at hout
    exact h.decoded hout
  constructor
  · intro hall
    cases hextract : anythingRpcExtractParamString 40 request.params.bytes
      (ascii "request_id") with
    | none => exact .inr ⟨dec, hfirst, hrefused.mp hextract⟩
    | some out =>
        have heq : dec = arg := (hdecoded hextract).symm.trans (hall out hextract)
        exact .inl (hfirst.eq_iff.mp heq)
  · rintro (hverbatim | ⟨dec', hfirst', hlong⟩) requestId hextract
    · exact (hdecoded hextract).trans (hfirst.eq_iff.mpr hverbatim)
    · rw [hfirst'.functional hfirst, ← hrefused, hextract] at hlong
      cases hlong

/-- An accepted request has the method of its command, and its argument arrives as typed or
is refused, exactly for the transparent arguments. -/
theorem passedOn_iff (h0 : (0 : UInt8) ∉ arg)
    (h : anythingRpcParse (makeRequest command.name arg).bytes = .ok request) :
    (request.method.bytes = command.method ∧ PassedOn command arg request) ↔
      Transparent command arg := by
  obtain ⟨dec, hfirst, hreads⟩ := exists_reads h0 h
  have hmethod : (request.method.bytes = command.method ∧ PassedOn command arg request) ↔
      PassedOn command arg request := and_iff_right hreads.method
  rw [hmethod]
  cases command with
  | sysInfo => exact hreads.session_iff hfirst
  | approve => exact hreads.requestId_iff hfirst rfl
  | reject => exact hreads.requestId_iff hfirst rfl
  | execute => exact hreads.requestId_iff hfirst rfl

theorem passedOn_sample : ∃ request,
    anythingRpcParse (makeRequest (ascii "approve") (ascii "req_1")).bytes = .ok request ∧
      request.method.bytes = ascii "approval.approve" ∧
      PassedOn .approve (ascii "req_1") request := by
  obtain ⟨request, hparse⟩ := exists_ok_of_isSome
    (x := anythingRpcParse (makeRequest (ascii "approve") (ascii "req_1")).bytes)
    (by decide +kernel)
  have hverbatim : Verbatim (ascii "req_1") := by decide
  have hiff : (request.method.bytes = ArgumentCommand.approve.method ∧
      PassedOn .approve (ascii "req_1") request) ↔ Transparent .approve (ascii "req_1") :=
    passedOn_iff (by decide) hparse
  exact ⟨request, hparse, hiff.mpr (.inl hverbatim)⟩

/-- An argument that closes the string approves the request named in front of its quote. -/
theorem not_passedOn : ∃ request,
    anythingRpcParse (makeRequest (ascii "approve") (ascii "req_1\",\"note\":\"req_2")).bytes =
        .ok request ∧
      ¬ PassedOn .approve (ascii "req_1\",\"note\":\"req_2") request := by
  obtain ⟨request, hparse⟩ := exists_ok_of_isSome
    (x := anythingRpcParse
      (makeRequest (ascii "approve") (ascii "req_1\",\"note\":\"req_2")).bytes)
    (by decide +kernel)
  have hall : ∀ request, anythingRpcParse
      (makeRequest (ascii "approve") (ascii "req_1\",\"note\":\"req_2")).bytes = .ok request →
        ¬ PassedOn .approve (ascii "req_1\",\"note\":\"req_2") request := by decide +kernel
  exact ⟨request, hparse, hall request hparse⟩

end Request

end AnythingTool
