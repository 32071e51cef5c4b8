import AnythingTool.Library.PrefixCode
import AnythingTool.Rpc.Strings
import AnythingTool.Rpc.Values

/-!
# Escaping and decoding

The encoder of `json.c` and the decoder of `rpc.c` know different escapes: the encoder
prints a control character without a letter as `\u00XX`, and the decoder refuses that.
So what is escaped is read back unchanged or not at all (`parse_escaped`,
`parse_escaped_eq_none`). The escaped bytes are a prefix code, which is why different texts
are printed differently.
-/

namespace AnythingTool

open CText JsonText PrefixCode

variable {n : ℕ}

/-- `anything_json_escape_string` with its check of the buffer size. -/
def anythingJsonEscapeStringSized (n : ℕ) (input : Bytes) : Option (CString n) :=
  if hn : n = 0 then none
  else
    haveI : HasRoom n := ⟨Nat.pos_of_ne_zero hn⟩
    anythingJsonEscapeString n input

/-! ## The escaped bytes as a code -/

/-- The value of a digit of `%x`. -/
def hexValue (c : UInt8) : ℕ := if c ≤ 0x39 then c.toNat - 0x30 else c.toNat - 0x57

/-- The byte whose escape stands at the start of a text. -/
def leadByte : Bytes → UInt8
  | 0x5C :: 0x75 :: _ :: _ :: h :: l :: _ => UInt8.ofNat (16 * hexValue h + hexValue l)
  | 0x5C :: e :: _ => (shortEscape e).getD 0
  | c :: _ => c
  | [] => 0

theorem leadByte_unicodeEscape {c : UInt8} (h : c < 0x20) (r : Bytes) :
    leadByte (unicodeEscape c ++ r) = c := by
  have hall : ∀ k < 32, UInt8.ofNat (16 * hexValue (hexDigit (k / 16)) +
      hexValue (hexDigit (k % 16))) = UInt8.ofNat k := by decide
  have hbyte := hall c.toNat (UInt8.lt_iff_toNat_lt.mp h)
  rw [UInt8.ofNat_toNat] at hbyte
  exact hbyte

theorem leadByte_escapedByte (c : UInt8) (r : Bytes) : leadByte (escapedByte c ++ r) = c := by
  unfold escapedByte
  split_ifs with hq hb hn hr ht hlt
  · exact hq.symm
  · exact hb.symm
  · exact hn.symm
  · exact hr.symm
  · exact ht.symm
  · exact leadByte_unicodeEscape hlt r
  · rw [List.singleton_append, leadByte]
    · intro _ _ _ _ _ heq _
      exact hb heq
    · intro _ _ heq _
      exact hb heq

theorem isPrefixCode_escapedByte : IsPrefixCode escapedByte := by
  intro a b x y heq
  rw [← leadByte_escapedByte a x, heq, leadByte_escapedByte]

theorem escapedByte_ne_nil (c : UInt8) : escapedByte c ≠ [] := by
  unfold escapedByte unicodeEscape
  split_ifs
  all_goals simp

theorem escaped_injective : Function.Injective escaped :=
  isPrefixCode_escapedByte.flatMap_injective escapedByte_ne_nil

/-! ## Both directions -/

theorem anythingJsonEscapeStringSized_eq_some {s : Bytes} (h0 : (0 : UInt8) ∉ s)
    {out : CString n} :
    anythingJsonEscapeStringSized n s = some out ↔ out.bytes = escaped s := by
  have hn : n ≠ 0 := Nat.ne_zero_of_lt out.fits
  rw [anythingJsonEscapeStringSized, dif_neg hn]
  have : HasRoom n := ⟨Nat.pos_of_ne_zero hn⟩
  exact anythingJsonEscapeString_eq_some h0

theorem exists_anythingJsonEscapeStringSized_iff {s : Bytes} (h0 : (0 : UInt8) ∉ s) :
    (∃ out, anythingJsonEscapeStringSized n s = some out) ↔ (escaped s).length < n := by
  constructor
  · rintro ⟨out, hout⟩
    rw [← (anythingJsonEscapeStringSized_eq_some h0).mp hout]
    exact out.fits
  · intro hfits
    exact ⟨⟨escaped s, zero_notMem_escaped h0, hfits⟩,
      (anythingJsonEscapeStringSized_eq_some h0).mpr rfl⟩

theorem parse_escaped {s : Bytes} (h : ShortText s) (hfits : s.length < n) (rest : Bytes) :
    ∃ out : CString n, out.bytes = s ∧
      parseJsonString n (literal (escaped s) ++ rest) = some (out, rest) :=
  exists_parseJsonString ⟨escaped s, stringBody_escaped h, rfl⟩ hfits rest

/-- The six-byte escape is none of those the decoder knows. -/
theorem shortlyEscaped_of_stringBody {c : UInt8} {r dec : Bytes}
    (h : StringBody (escapedByte c ++ r) dec) : ShortlyEscaped c := by
  by_cases hc : ShortlyEscaped c
  · exact hc
  · simp only [ShortlyEscaped, not_or, UInt8.not_le] at hc
    obtain ⟨hlow, hn, hr, ht⟩ := hc
    have hq : c ≠ quote := by
      rintro rfl
      exact absurd hlow (by decide)
    have hb : c ≠ backslash := by
      rintro rfl
      exact absurd hlow (by decide)
    rw [escapedByte, if_neg hq, if_neg hb, if_neg hn, if_neg hr, if_neg ht, if_pos hlow] at h
    cases h with
    | plain hplain _ => exact absurd rfl hplain.2.2
    | escape he _ =>
        have hnone : shortEscape 0x75 = none := by decide
        rw [hnone] at he
        cases he

/-- What is read behind the escape of one byte is a string again. -/
theorem stringBody_of_escapedByte {c : UInt8} {r dec : Bytes}
    (h : StringBody (escapedByte c ++ r) dec) : ∃ dec', StringBody r dec' := by
  have hescape : ∀ {e : UInt8}, StringBody (backslash :: e :: r) dec →
      ∃ dec', StringBody r dec' := by
    intro e h
    cases h with
    | plain hplain _ => exact absurd rfl hplain.2.2
    | escape _ htail => exact ⟨_, htail⟩
  have hshort := shortlyEscaped_of_stringBody h
  unfold escapedByte at h
  split_ifs at h with hq hb hn hr ht hlt
  · exact hescape h
  · exact hescape h
  · exact hescape h
  · exact hescape h
  · exact hescape h
  · rcases hshort with hc | hc | hc | hc
    · exact absurd hlt (UInt8.not_lt.mpr hc)
    · exact absurd hc hn
    · exact absurd hc hr
    · exact absurd hc ht
  · cases h with
    | plain _ htail => exact ⟨_, htail⟩
    | escape _ _ => exact absurd rfl hb

theorem shortText_of_escaped {s dec : Bytes} (h : StringBody (escaped s) dec) : ShortText s := by
  induction s generalizing dec with
  | nil =>
      intro c hc
      cases hc
  | cons c s ih =>
      rw [escaped_cons] at h
      obtain ⟨dec', htail⟩ := stringBody_of_escapedByte h
      exact List.forall_mem_cons.mpr ⟨shortlyEscaped_of_stringBody h, ih htail⟩

/-- With another control character nothing is decoded. -/
theorem parse_escaped_eq_none {s : Bytes} (h : ¬ ShortText s) (n : ℕ) (rest : Bytes) :
    parseJsonString n (literal (escaped s) ++ rest) = none := by
  cases hparse : parseJsonString n (literal (escaped s) ++ rest) with
  | none => rfl
  | some result =>
      obtain ⟨raw, hbody, heq⟩ := parseJsonString_eq_some.mp hparse
      have hquote : escaped s ++ quote :: rest = raw ++ quote :: result.2 := by
        simpa [literal] using heq
      obtain ⟨rfl, -⟩ := (stringText_escaped s).quote_inj hbody.text hquote
      exact absurd (shortText_of_escaped hbody) h

/-- Escaping `s` and decoding what was written. -/
structure RoundTrips (s : Bytes) : Prop where
  written : ∀ n out, anythingJsonEscapeStringSized n s = some out → out.bytes = escaped s
  fits : ∀ n, (∃ out, anythingJsonEscapeStringSized n s = some out) ↔ (escaped s).length < n
  noControl : NoControl (escaped s)
  quoted : StringText (escaped s)
  injective : ∀ t, (0 : UInt8) ∉ t → escaped t = escaped s → t = s
  decoded : ShortText s → ∀ n rest, s.length < n → ∃ out : CString n, out.bytes = s ∧
    parseJsonString n (literal (escaped s) ++ rest) = some (out, rest)
  refused : ¬ ShortText s → ∀ n rest,
    parseJsonString n (literal (escaped s) ++ rest) = none

/-- Every string makes the round trip, and one that was decoded comes back. -/
theorem roundTrips (s : Bytes) (h0 : (0 : UInt8) ∉ s) :
    RoundTrips s ∧ ∀ m p (out : CString m) r, parseJsonString m p = some (out, r) →
      out.bytes = s → ∀ n rest, s.length < n → ∃ out' : CString n, out'.bytes = s ∧
        parseJsonString n (literal (escaped s) ++ rest) = some (out', rest) := by
  refine ⟨⟨?_, ?_, ?_, ?_, ?_, ?_, ?_⟩, ?_⟩
  · intro n out hout
    exact (anythingJsonEscapeStringSized_eq_some h0).mp hout
  · intro n
    exact exists_anythingJsonEscapeStringSized_iff h0
  · exact (stringText_escaped s).noControl
  · exact stringText_escaped s
  · intro t _ heq
    exact escaped_injective heq
  · intro hshort n rest hfits
    exact parse_escaped hshort hfits rest
  · intro hshort n rest
    exact parse_escaped_eq_none hshort n rest
  · rintro m p out r hparse rfl n rest hfits
    exact parse_escaped (shortText_of_parse hparse) hfits rest

theorem roundTrips_sample : RoundTrips [quote, 0x0A, 0x01, 0xC3] :=
  (roundTrips [quote, 0x0A, 0x01, 0xC3] (by decide)).1

/-- A byte from `0x80` on is no control character. -/
example : escaped [0x0A, 0x01, 0xC3] = ascii "\\n\\u0001" ++ [0xC3] := by decide

end AnythingTool
