import AnythingTool.Library.CString

/-!
# JSON escaping and the response builders

`anything_json_escape_string` refuses what does not fit its buffer. The two
response builders escape their text fields into local buffers and print one
line: they return the length `snprintf` reports together with the buffer, which
holds the line cut to its size, or `none` when a field does not fit its local
buffer. In that case the response buffer is not written at all.
-/

namespace AnythingTool

open CText

variable {n : ℕ}

/-- `append_char` -/
def appendChar (out : CString n) (c : UInt8) (hc : c ≠ 0) : Option (CString n) :=
  out.push c hc

/-- `append_text` -/
def appendText (out : CString n) : Bytes → Option (CString n)
  | [] => some out
  | c :: text =>
      if hc : c = 0 then some out
      else
        match appendChar out c hc with
        | none => none
        | some out' => appendText out' text

/-- A digit of `%x`. -/
def hexDigit (k : ℕ) : UInt8 :=
  if k < 10 then UInt8.ofNat (0x30 + k) else UInt8.ofNat (0x57 + k)

/-- `\u%04x` of a byte. -/
def unicodeEscape (c : UInt8) : Bytes :=
  [backslash, 0x75, 0x30, 0x30, hexDigit (c.toNat / 16), hexDigit (c.toNat % 16)]

/-- The `switch` of `anything_json_escape_string` on one byte. -/
def escapeChar (out : CString n) (c : UInt8) (hc : c ≠ 0) : Option (CString n) :=
  if c = quote then appendText out [backslash, quote]
  else if c = backslash then appendText out [backslash, backslash]
  else if c = 0x0A then appendText out [backslash, 0x6E]
  else if c = 0x0D then appendText out [backslash, 0x72]
  else if c = 0x09 then appendText out [backslash, 0x74]
  else if c < 0x20 then out.snprintfAt (unicodeEscape c)
  else appendChar out c hc

def escapeLoop (out : CString n) : Bytes → Option (CString n)
  | [] => some out
  | c :: p =>
      if hc : c = 0 then some out
      else
        match escapeChar out c hc with
        | none => none
        | some out' => escapeLoop out' p

/-- `anything_json_escape_string` into a `char[n]`. -/
def anythingJsonEscapeString (n : ℕ) [HasRoom n] (input : Bytes) : Option (CString n) :=
  escapeLoop .empty input

/-- `snprintf` of a whole line: the length it reports, and the buffer. -/
def printLine (n : ℕ) [HasRoom n] (line : Bytes) : ℕ × CString n :=
  (line.length, .snprintf n line)

/-- `anything_rpc_result` into a `char[n]`. -/
def anythingRpcResult (n : ℕ) [HasRoom n] (id jsonResult : Bytes) :
    Option (ℕ × CString n) :=
  match anythingJsonEscapeString 128 id with
  | none => none
  | some escapedId =>
      some (printLine n (ascii "\x7b\"jsonrpc\":\"2.0\",\"id\":\"" ++ escapedId.bytes ++
        ascii "\",\"result\":" ++ jsonResult ++ ascii "\x7d\n"))

/-- `anything_rpc_error` into a `char[n]`; without an id the text `null` is used. -/
def anythingRpcError (n : ℕ) [HasRoom n] (id : Option Bytes) (code : ℤ)
    (kind message data : Bytes) : Option (ℕ × CString n) :=
  match anythingJsonEscapeString 128 (id.getD (ascii "null")),
      anythingJsonEscapeString 128 kind, anythingJsonEscapeString 256 message with
  | some escapedId, some escapedKind, some escapedMessage =>
      some (printLine n (ascii "\x7b\"jsonrpc\":\"2.0\",\"id\":\"" ++ escapedId.bytes ++
        ascii "\",\"error\":\x7b\"code\":" ++ formatInt code ++ ascii ",\"message\":\"" ++
        escapedMessage.bytes ++ ascii "\",\"data\":\x7b\"kind\":\"" ++ escapedKind.bytes ++
        ascii "\"" ++ data ++ ascii "\x7d\x7d\x7d\n"))
  | _, _, _ => none

/-! ## What the escaping prints -/

/-- The text of one byte. -/
def escapedByte (c : UInt8) : Bytes :=
  if c = quote then [backslash, quote]
  else if c = backslash then [backslash, backslash]
  else if c = 0x0A then [backslash, 0x6E]
  else if c = 0x0D then [backslash, 0x72]
  else if c = 0x09 then [backslash, 0x74]
  else if c < 0x20 then unicodeEscape c
  else [c]

/-- The text of a string without NUL. -/
def escaped (text : Bytes) : Bytes := text.flatMap escapedByte

@[simp] theorem escaped_nil : escaped [] = [] := rfl

@[simp] theorem escaped_cons (c : UInt8) (text : Bytes) :
    escaped (c :: text) = escapedByte c ++ escaped text := rfl

theorem zero_notMem_escapedByte {c : UInt8} (hc : c ≠ 0) : (0 : UInt8) ∉ escapedByte c := by
  have hdigit : ∀ k < 16, hexDigit k ≠ 0 := by decide
  have hlt := c.toNat_lt
  unfold escapedByte unicodeEscape
  split_ifs
  any_goals simp [quote, backslash]
  · exact ⟨(hdigit _ (by omega)).symm, (hdigit _ (by omega)).symm⟩
  · exact hc.symm

theorem zero_notMem_escaped {text : Bytes} (h : (0 : UInt8) ∉ text) :
    (0 : UInt8) ∉ escaped text := by
  intro hmem
  obtain ⟨c, hc, hbyte⟩ := List.mem_flatMap.mp hmem
  exact zero_notMem_escapedByte (fun h0 => h (h0 ▸ hc)) hbyte

theorem appendText_eq_some {out out' : CString n} {text : Bytes} (h0 : (0 : UInt8) ∉ text) :
    appendText out text = some out' ↔ out'.bytes = out.bytes ++ text := by
  induction text generalizing out with
  | nil =>
      rw [appendText, Option.some.injEq, List.append_nil, CString.ext_iff]
      exact eq_comm
  | cons c text ih =>
      obtain ⟨hc, htext⟩ := not_or.mp (List.mem_cons.not.mp h0)
      rw [appendText, dif_neg (Ne.symm hc)]
      cases hpush : appendChar out c (Ne.symm hc) with
      | none =>
          have hroom := CString.push_eq_none.mp hpush
          simp only [reduceCtorEq, false_iff]
          intro hb
          have hfit := out'.fits
          rw [hb, List.length_append, List.length_cons] at hfit
          omega
      | some out₁ =>
          simp only [ih htext, CString.push_eq_some.mp hpush, List.append_assoc,
            List.singleton_append]

theorem escapeChar_eq_some {out out' : CString n} {c : UInt8} {hc : c ≠ 0} :
    escapeChar out c hc = some out' ↔ out'.bytes = out.bytes ++ escapedByte c := by
  have hzero := zero_notMem_escapedByte hc
  unfold escapeChar
  unfold escapedByte at hzero ⊢
  split_ifs at hzero ⊢
  all_goals first
    | exact appendText_eq_some hzero
    | exact CString.snprintfAt_eq_some hzero
    | exact CString.push_eq_some

theorem escapeLoop_eq_some {out out' : CString n} {text : Bytes} (h0 : (0 : UInt8) ∉ text) :
    escapeLoop out text = some out' ↔ out'.bytes = out.bytes ++ escaped text := by
  induction text generalizing out with
  | nil =>
      rw [escapeLoop, Option.some.injEq, escaped_nil, List.append_nil, CString.ext_iff]
      exact eq_comm
  | cons c text ih =>
      obtain ⟨hc, htext⟩ := not_or.mp (List.mem_cons.not.mp h0)
      rw [escapeLoop, dif_neg (Ne.symm hc), escaped_cons]
      cases hchar : escapeChar out c (Ne.symm hc) with
      | none =>
          simp only [reduceCtorEq, false_iff]
          intro hb
          -- the byte would have fitted, since the whole text does
          rw [← List.append_assoc] at hb
          obtain ⟨out₁, hout₁⟩ := CString.exists_prefix hb
          have hsome : escapeChar out c (Ne.symm hc) = some out₁ := escapeChar_eq_some.mpr hout₁
          rw [hchar] at hsome
          cases hsome
      | some out₁ =>
          simp only [ih htext, escapeChar_eq_some.mp hchar, List.append_assoc]

/-- The escaping succeeds exactly when the escaped text fits, and then prints it. -/
theorem anythingJsonEscapeString_eq_some [HasRoom n] {text : Bytes} {out : CString n}
    (h0 : (0 : UInt8) ∉ text) :
    anythingJsonEscapeString n text = some out ↔ out.bytes = escaped text := by
  rw [anythingJsonEscapeString, escapeLoop_eq_some h0, CString.empty_bytes, List.nil_append]

theorem exists_anythingJsonEscapeString_iff [HasRoom n] {text : Bytes}
    (h0 : (0 : UInt8) ∉ text) :
    (∃ out, anythingJsonEscapeString n text = some out) ↔ (escaped text).length < n := by
  constructor
  · rintro ⟨out, h⟩
    rw [← (anythingJsonEscapeString_eq_some h0).mp h]
    exact out.fits
  · intro h
    exact ⟨⟨escaped text, zero_notMem_escaped h0, h⟩,
      (anythingJsonEscapeString_eq_some h0).mpr rfl⟩

/-! ## Texts that escape into at most twice their length -/

/-- A byte that `anything_json_escape_string` prints in at most two bytes. -/
def ShortlyEscaped (c : UInt8) : Prop := 0x20 ≤ c ∨ c = 0x0A ∨ c = 0x0D ∨ c = 0x09

instance (c : UInt8) : Decidable (ShortlyEscaped c) :=
  inferInstanceAs (Decidable (0x20 ≤ c ∨ c = 0x0A ∨ c = 0x0D ∨ c = 0x09))

theorem ShortlyEscaped.ne_zero {c : UInt8} (h : ShortlyEscaped c) : c ≠ 0 := by
  rintro rfl
  exact absurd h (by decide)

theorem ShortlyEscaped.zero_notMem {text : Bytes} (h : ∀ c ∈ text, ShortlyEscaped c) :
    (0 : UInt8) ∉ text :=
  fun hmem => (h 0 hmem).ne_zero rfl

theorem ShortlyEscaped.length_escapedByte {c : UInt8} (h : ShortlyEscaped c) :
    (escapedByte c).length ≤ 2 := by
  unfold escapedByte
  split_ifs with hq hb hn hr ht hlt
  any_goals simp
  rcases h with h | h | h | h
  · exact absurd hlt (UInt8.not_lt.mpr h)
  · exact absurd h hn
  · exact absurd h hr
  · exact absurd h ht

theorem length_escaped_le {text : Bytes} (h : ∀ c ∈ text, ShortlyEscaped c) :
    (escaped text).length ≤ 2 * text.length := by
  induction text with
  | nil => exact le_rfl
  | cons c text ih =>
      have hc := (h c List.mem_cons_self).length_escapedByte
      have htext := ih fun b hb => h b (List.mem_cons_of_mem c hb)
      rw [escaped_cons, List.length_append, List.length_cons]
      omega

/-- A short text without other control characters is escaped. -/
theorem exists_anythingJsonEscapeString [HasRoom n] {text : Bytes}
    (hs : ∀ c ∈ text, ShortlyEscaped c) (hroom : 2 * text.length < n) :
    ∃ out, anythingJsonEscapeString n text = some out := by
  rw [exists_anythingJsonEscapeString_iff (ShortlyEscaped.zero_notMem hs)]
  exact (length_escaped_le hs).trans_lt hroom

end AnythingTool
