import AnythingTool.Library.JsonLines
import AnythingTool.Rpc.Respond

/-!
# The responses as JSON lines

What the two response builders print, as the text of an object: `resultLine` and
`errorLine`. A builder prints the whole line when its text fields fit their local
buffers and the line fits the response buffer; then the response is one JSON line.
-/

namespace AnythingTool

open CText JsonText

variable {n : ℕ}

/-! ## Escaped strings -/

theorem stringText_escapedByte (c : UInt8) : StringText (escapedByte c) := by
  have hletter : ∀ e ∈ escapeLetters, StringText [backslash, e] :=
    fun e he => .letter he .nil
  unfold escapedByte
  split_ifs with hq hb hn hr ht hlt
  · exact hletter quote (by decide)
  · exact hletter backslash (by decide)
  · exact hletter 0x6E (by decide)
  · exact hletter 0x72 (by decide)
  · exact hletter 0x74 (by decide)
  · have hhex : ∀ k < 16, IsHexDigit (hexDigit k) := by decide
    have hbyte := c.toNat_lt
    have hdigits : ∀ d ∈ [0x30, 0x30, hexDigit (c.toNat / 16), hexDigit (c.toNat % 16)],
        IsHexDigit d := by
      simp only [List.forall_mem_cons]
      exact ⟨by decide, by decide, hhex _ (by omega), hhex _ (by omega), by simp⟩
    exact .unicode rfl hdigits .nil
  · exact .plain ⟨UInt8.not_lt.mp hlt, hq, hb⟩ .nil

/-- What the escaping prints may stand between quotes. -/
theorem stringText_escaped (text : Bytes) : StringText (escaped text) := by
  induction text with
  | nil => exact .nil
  | cons c text ih => exact (stringText_escapedByte c).append ih

/-- Without other control characters it decodes to what was escaped. -/
theorem stringBody_escaped {text : Bytes} (h : ∀ c ∈ text, ShortlyEscaped c) :
    StringBody (escaped text) text := by
  induction text with
  | nil => exact .nil
  | cons c text ih =>
      have htext := ih fun b hb => h b (List.mem_cons_of_mem c hb)
      rw [escaped_cons]
      unfold escapedByte
      split_ifs with hq hb hn hr ht hlt
      · exact .escape (by rw [hq]; rfl) htext
      · exact .escape (by rw [hb]; rfl) htext
      · exact .escape (by rw [hn]; rfl) htext
      · exact .escape (by rw [hr]; rfl) htext
      · exact .escape (by rw [ht]; rfl) htext
      · rcases h c List.mem_cons_self with h | h | h | h
        · exact absurd hlt (UInt8.not_lt.mpr h)
        · exact absurd h hn
        · exact absurd h hr
        · exact absurd h ht
      · exact .plain ⟨UInt8.not_lt.mp hlt, hq, hb⟩ htext

theorem escaped_of_unescaped {text : Bytes} (h : ∀ c ∈ text, Unescaped c) :
    escaped text = text := by
  induction text with
  | nil => rfl
  | cons c text ih =>
      obtain ⟨hlow, hq, hb⟩ := h c List.mem_cons_self
      have hctl : c ≠ 0x0A ∧ c ≠ 0x0D ∧ c ≠ 0x09 := by
        refine ⟨?_, ?_, ?_⟩
        all_goals
          rintro rfl
          exact absurd hlow (by decide)
      rw [escaped_cons, ih fun b hb => h b (List.mem_cons_of_mem c hb), escapedByte, if_neg hq,
        if_neg hb, if_neg hctl.1, if_neg hctl.2.1, if_neg hctl.2.2,
        if_neg (UInt8.not_lt.mpr hlow), List.singleton_append]

/-- A string as a value. -/
def stringValue (text : Bytes) : Bytes := literal (escaped text)

theorem inline_stringValue (text : Bytes) : Inline (stringValue text) :=
  .string (stringText_escaped text)

/-! ## The two lines -/

/-- The members printed behind other ones. -/
def moreFields (fs : List (String × Bytes)) : Bytes :=
  fs.flatMap fun f => comma :: (field f.1 f.2).text

/-- The response that carries a result. -/
def resultLine (id json : Bytes) : Bytes :=
  objectText (fields [("jsonrpc", literal (ascii "2.0")), ("id", stringValue id),
    ("result", json)]) ++ [newline]

/-- The error of a response, as an object. -/
def errorObject (code : ℤ) (kind message : Bytes) (data : List (String × Bytes)) : Bytes :=
  objectText (fields [("code", formatInt code), ("message", stringValue message),
    ("data", objectText (fields (("kind", stringValue kind) :: data)))])

/-- The response that carries an error. -/
def errorLine (id : Bytes) (code : ℤ) (kind message : Bytes)
    (data : List (String × Bytes)) : Bytes :=
  objectText (fields [("jsonrpc", literal (ascii "2.0")), ("id", stringValue id),
    ("error", errorObject code kind message data)]) ++ [newline]

theorem afterMember_fields (fs : List (String × Bytes)) :
    afterMember (fields fs) = moreFields fs ++ [rbrace] := by
  induction fs with
  | nil => rfl
  | cons f fs ih =>
      change comma :: ((field f.1 f.2).text ++ afterMember (fields fs)) = _
      rw [ih]
      simp only [moreFields, List.flatMap_cons, List.append_assoc, List.cons_append]

theorem objectText_fields_cons (f : String × Bytes) (fs : List (String × Bytes)) :
    objectText (fields (f :: fs)) =
      lbrace :: ((field f.1 f.2).text ++ (moreFields fs ++ [rbrace])) := by
  rw [← afterMember_fields]
  exact objectText_cons _ _

theorem resultLine_eq (id json : Bytes) :
    ascii "\x7b\"jsonrpc\":\"2.0\",\"id\":\"" ++ escaped id ++ ascii "\",\"result\":" ++ json ++
      ascii "\x7d\n" = resultLine id json := by
  simp only [resultLine, objectText_fields_cons, moreFields, field_text, stringValue, literal,
    List.flatMap_cons, List.flatMap_nil, List.append_assoc, List.cons_append, List.nil_append]
  rfl

theorem errorLine_eq (id : Bytes) (code : ℤ) (kind message : Bytes)
    (data : List (String × Bytes)) :
    ascii "\x7b\"jsonrpc\":\"2.0\",\"id\":\"" ++ escaped id ++
        ascii "\",\"error\":\x7b\"code\":" ++ formatInt code ++ ascii ",\"message\":\"" ++
        escaped message ++ ascii "\",\"data\":\x7b\"kind\":\"" ++ escaped kind ++
        ascii "\"" ++ moreFields data ++ ascii "\x7d\x7d\x7d\n" =
      errorLine id code kind message data := by
  simp only [errorLine, errorObject, objectText_fields_cons, moreFields, field_text, stringValue,
    literal, List.flatMap_cons, List.flatMap_nil, List.append_assoc, List.cons_append,
    List.nil_append]
  rfl

theorem length_resultLine (id json : Bytes) :
    (resultLine id json).length = 36 + (escaped id).length + json.length := by
  have hopen : (ascii "\x7b\"jsonrpc\":\"2.0\",\"id\":\"").length = 23 := by decide
  have hmid : (ascii "\",\"result\":").length = 11 := by decide
  have hclose : (ascii "\x7d\n").length = 2 := by decide
  rw [← resultLine_eq]
  simp only [List.length_append, hopen, hmid, hclose]
  omega

theorem length_errorLine (id : Bytes) (code : ℤ) (kind message : Bytes)
    (data : List (String × Bytes)) :
    (errorLine id code kind message data).length = 76 + (escaped id).length +
      (formatInt code).length + (escaped message).length + (escaped kind).length +
      (moreFields data).length := by
  have hopen : (ascii "\x7b\"jsonrpc\":\"2.0\",\"id\":\"").length = 23 := by decide
  have hcode : (ascii "\",\"error\":\x7b\"code\":").length = 18 := by decide
  have hmessage : (ascii ",\"message\":\"").length = 12 := by decide
  have hdata : (ascii "\",\"data\":\x7b\"kind\":\"").length = 18 := by decide
  have hquote : (ascii "\"").length = 1 := by decide
  have hclose : (ascii "\x7d\x7d\x7d\n").length = 4 := by decide
  rw [← errorLine_eq]
  simp only [List.length_append, hopen, hcode, hmessage, hdata, hquote, hclose]
  omega

theorem jsonLine_resultLine (id : Bytes) {json : Bytes} (hjson : Inline json) :
    JsonLine (resultLine id json) := by
  apply JsonLine.object (by simp)
  · simp only [PlainKeys, List.forall_mem_cons]
    decide
  · have hversion : StringText (ascii "2.0") := .of_unescaped (by decide)
    simp only [List.forall_mem_cons]
    exact ⟨.string hversion, inline_stringValue id, hjson, by simp⟩

theorem inline_errorObject {code : ℤ} {kind message : Bytes} {data : List (String × Bytes)}
    (hkey : PlainKeys data) (hdata : ∀ f ∈ data, Inline f.2) :
    Inline (errorObject code kind message data) := by
  have hkind : ∀ c ∈ ascii "kind", Unescaped c := by decide
  have hinner : Inline (objectText (fields (("kind", stringValue kind) :: data))) := by
    apply Inline.object (by simp)
    · exact List.forall_mem_cons.mpr ⟨hkind, hkey⟩
    · exact List.forall_mem_cons.mpr ⟨inline_stringValue kind, hdata⟩
  apply Inline.object (by simp)
  · simp only [PlainKeys, List.forall_mem_cons]
    decide
  · simp only [List.forall_mem_cons]
    exact ⟨.number code, inline_stringValue message, hinner, by simp⟩

theorem jsonLine_errorLine {id : Bytes} {code : ℤ} {kind message : Bytes}
    {data : List (String × Bytes)} (hkey : PlainKeys data) (hdata : ∀ f ∈ data, Inline f.2) :
    JsonLine (errorLine id code kind message data) := by
  apply JsonLine.object (by simp)
  · simp only [PlainKeys, List.forall_mem_cons]
    decide
  · have hversion : StringText (ascii "2.0") := .of_unescaped (by decide)
    simp only [List.forall_mem_cons]
    exact ⟨.string hversion, inline_stringValue id, inline_errorObject hkey hdata, by simp⟩

/-! ## Reading a response back -/

/-- The beginning of every response. -/
def responseHead : Bytes := ascii "\x7b\"jsonrpc\":\"2.0\",\"id\":\""

theorem resultLine_split (id json : Bytes) :
    ∃ rest, resultLine id json =
      responseHead ++ (escaped id ++ quote :: (ascii ",\"result\":" ++ rest)) := by
  refine ⟨json ++ ascii "\x7d\n", ?_⟩
  rw [← resultLine_eq]
  simp only [responseHead, List.append_assoc]
  rfl

theorem errorLine_split (id : Bytes) (code : ℤ) (kind message : Bytes)
    (data : List (String × Bytes)) :
    ∃ rest, errorLine id code kind message data =
      responseHead ++ (escaped id ++ quote :: (ascii ",\"error\":\x7b\"code\":" ++
        (formatInt code ++ comma :: (ascii "\"message\":\"" ++ (escaped message ++ quote ::
          (ascii ",\"data\":\x7b\"kind\":\"" ++ (escaped kind ++ quote :: rest))))))) := by
  refine ⟨moreFields data ++ ascii "\x7d\x7d\x7d\n", ?_⟩
  rw [← errorLine_eq]
  simp only [responseHead, List.append_assoc]
  rfl

theorem comma_notMem_formatInt (k : ℤ) : comma ∉ formatInt k := by
  intro hmem
  exact absurd ((isNumber_formatInt k).scalarByte.2 comma hmem) (by decide)

/-- The message and the kind can be read off an error. -/
theorem errorLine_inj {id id' : Bytes} {code code' : ℤ} {kind kind' message message' : Bytes}
    {data data' : List (String × Bytes)}
    (h : errorLine id code kind message data = errorLine id' code' kind' message' data') :
    escaped kind = escaped kind' ∧ escaped message = escaped message' := by
  obtain ⟨rest, hline⟩ := errorLine_split id code kind message data
  obtain ⟨rest', hline'⟩ := errorLine_split id' code' kind' message' data'
  rw [hline, hline'] at h
  have hid := (stringText_escaped id).quote_inj (stringText_escaped id')
    (List.append_cancel_left h)
  have hrest := List.append_cancel_left hid.2
  have hcode := first_inj (comma_notMem_formatInt code) (comma_notMem_formatInt code') hrest
  have hmessage := (stringText_escaped message).quote_inj (stringText_escaped message')
    (List.append_cancel_left hcode.2)
  have hkind := (stringText_escaped kind).quote_inj (stringText_escaped kind')
    (List.append_cancel_left hmessage.2)
  exact ⟨hkind.1, hmessage.1⟩

/-- No line is both a result and an error. -/
theorem resultLine_ne_errorLine (id json id' : Bytes) (code : ℤ) (kind message : Bytes)
    (data : List (String × Bytes)) :
    resultLine id json ≠ errorLine id' code kind message data := by
  intro h
  obtain ⟨rest, hline⟩ := resultLine_split id json
  obtain ⟨rest', hline'⟩ := errorLine_split id' code kind message data
  rw [hline, hline'] at h
  have hid := (stringText_escaped id).quote_inj (stringText_escaped id')
    (List.append_cancel_left h)
  have hthird : (some 0x72 : Option UInt8) = some 0x65 :=
    congrArg (fun t : Bytes => t[2]?) hid.2
  exact absurd hthird (by decide)

/-! ## What the builders return -/

/-- The builder did not fail, nothing was cut, and the buffer holds one JSON line. -/
def CompleteResponse (built : Option (ℕ × CString n)) : Prop :=
  ∃ length buf, built = some (length, buf) ∧ length < n ∧ JsonLine buf.bytes

variable [HasRoom n]

theorem printLine_bytes {line : Bytes} (hline : JsonLine line) (hlen : line.length < n) :
    (printLine n line).2.bytes = line :=
  CString.snprintf_bytes_of_fits hline.zero_notMem hlen

theorem completeResponse_printLine {line : Bytes} (hline : JsonLine line) :
    CompleteResponse (some (printLine n line)) ↔ line.length < n := by
  constructor
  · rintro ⟨length, buf, heq, hlen, -⟩
    obtain ⟨rfl, -⟩ := Prod.mk.inj (Option.some.inj heq)
    exact hlen
  · intro hlen
    refine ⟨_, _, rfl, hlen, ?_⟩
    rw [CString.snprintf_bytes_of_fits hline.zero_notMem hlen]
    exact hline

theorem anythingRpcResult_eq {id json : Bytes} (h0 : (0 : UInt8) ∉ id)
    (hid : (escaped id).length < 128) :
    anythingRpcResult n id json = some (printLine n (resultLine id json)) := by
  obtain ⟨out, hout⟩ := (exists_anythingJsonEscapeString_iff h0).mpr hid
  rw [anythingRpcResult, hout]
  simp only [(anythingJsonEscapeString_eq_some h0).mp hout, resultLine_eq]

/-- The text fields of an error fit their local buffers. -/
structure ErrorFits (id kind message : Bytes) : Prop where
  id : (0 : UInt8) ∉ id ∧ (escaped id).length < 128
  kind : (0 : UInt8) ∉ kind ∧ (escaped kind).length < 128
  message : (0 : UInt8) ∉ message ∧ (escaped message).length < 256

theorem anythingRpcError_eq {id kind message : Bytes} (h : ErrorFits id kind message)
    (code : ℤ) (data : List (String × Bytes)) :
    anythingRpcError n (some id) code kind message (moreFields data) =
      some (printLine n (errorLine id code kind message data)) := by
  obtain ⟨escapedId, hid⟩ := (exists_anythingJsonEscapeString_iff h.id.1).mpr h.id.2
  obtain ⟨escapedKind, hkind⟩ := (exists_anythingJsonEscapeString_iff h.kind.1).mpr h.kind.2
  obtain ⟨escapedMessage, hmessage⟩ :=
    (exists_anythingJsonEscapeString_iff h.message.1).mpr h.message.2
  simp only [anythingRpcError, Option.getD_some, hid, hkind, hmessage,
    (anythingJsonEscapeString_eq_some h.id.1).mp hid,
    (anythingJsonEscapeString_eq_some h.kind.1).mp hkind,
    (anythingJsonEscapeString_eq_some h.message.1).mp hmessage, errorLine_eq]

end AnythingTool
