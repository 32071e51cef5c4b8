import AnythingTool.Library.JsonText
import Mathlib.Data.List.Induction

/-!
# What a JSON writer prints

The full grammar of JSON as a predicate on byte strings: every escape of a string is
allowed, nothing is decoded, and bytes above ASCII are taken as they come. `Inline`
values are those without a control character, so without a line break, which is what a
line of a JSON Lines file may hold.

A writer prints its members without blanks. `fields` are such members, given by key
and value, so the text of a writer is an `objectText` of `fields` and its syntax
follows from the syntax of the values.
-/

namespace JsonText

open CText

/-! ## Strings -/

def IsHexDigit (c : UInt8) : Prop :=
  IsDigit c ∨ (0x41 ≤ c ∧ c ≤ 0x46) ∨ (0x61 ≤ c ∧ c ≤ 0x66)

instance (c : UInt8) : Decidable (IsHexDigit c) :=
  inferInstanceAs (Decidable (IsDigit c ∨ (0x41 ≤ c ∧ c ≤ 0x46) ∨ (0x61 ≤ c ∧ c ≤ 0x66)))

/-- The letters of the one-letter escapes. -/
def escapeLetters : Bytes := ascii "\"\\/bfnrt"

/-- The bytes between the quotes of a string. -/
inductive StringText : Bytes → Prop
  | nil : StringText []
  | plain {c : UInt8} {raw : Bytes} (hc : Unescaped c) (h : StringText raw) :
      StringText (c :: raw)
  | letter {e : UInt8} {raw : Bytes} (he : e ∈ escapeLetters) (h : StringText raw) :
      StringText (backslash :: e :: raw)
  | unicode {digits raw : Bytes} (hlen : digits.length = 4) (hx : ∀ c ∈ digits, IsHexDigit c)
      (h : StringText raw) : StringText (backslash :: 0x75 :: (digits ++ raw))

theorem StringText.append {s t : Bytes} (hs : StringText s) (ht : StringText t) :
    StringText (s ++ t) := by
  induction hs with
  | nil => exact ht
  | plain hc _ ih => exact .plain hc ih
  | letter he _ ih => exact .letter he ih
  | @unicode digits raw hlen hx _ ih =>
      have h := StringText.unicode hlen hx ih
      rwa [← List.append_assoc] at h

theorem shortEscape_mem {e d : UInt8} (h : shortEscape e = some d) : e ∈ escapeLetters := by
  unfold shortEscape at h
  split_ifs at h with hq hb hn hr ht
  all_goals
    subst e
    decide

theorem StringBody.text {raw dec : Bytes} (h : StringBody raw dec) : StringText raw := by
  induction h with
  | nil => exact .nil
  | plain hc _ ih => exact .plain hc ih
  | escape he _ ih => exact .letter (shortEscape_mem he) ih

theorem StringText.of_unescaped {s : Bytes} (h : ∀ c ∈ s, Unescaped c) : StringText s :=
  (StringBody.of_unescaped h).text

/-- Without control characters. -/
def NoControl (s : Bytes) : Prop := ∀ c ∈ s, 0x20 ≤ c

instance (s : Bytes) : Decidable (NoControl s) :=
  inferInstanceAs (Decidable (∀ c ∈ s, 0x20 ≤ c))

theorem NoControl.nil : NoControl [] := by
  intro c hc
  cases hc

theorem NoControl.cons {c : UInt8} {s : Bytes} (hc : 0x20 ≤ c) (hs : NoControl s) :
    NoControl (c :: s) := by
  intro b hb
  rcases List.mem_cons.mp hb with rfl | hb
  · exact hc
  · exact hs b hb

theorem NoControl.append {s t : Bytes} (hs : NoControl s) (ht : NoControl t) :
    NoControl (s ++ t) := by
  intro b hb
  rcases List.mem_append.mp hb with hb | hb
  · exact hs b hb
  · exact ht b hb

theorem NoControl.notMem {s : Bytes} (h : NoControl s) {c : UInt8} (hc : c < 0x20) : c ∉ s :=
  fun hmem => absurd (h c hmem) (UInt8.not_le.mpr hc)

theorem StringText.noControl {raw : Bytes} (h : StringText raw) : NoControl raw := by
  have hletter : NoControl escapeLetters := by decide
  induction h with
  | nil => exact .nil
  | plain hc _ ih => exact .cons hc.1 ih
  | letter he _ ih => exact .cons (by decide) (.cons (hletter _ he) ih)
  | unicode hlen hx _ ih =>
      refine .cons (by decide) (.cons (by decide) (.append ?_ ih))
      intro c hc
      rcases hx c hc with h | h | h
      · exact UInt8.le_trans (by decide) h.1
      · exact UInt8.le_trans (by decide) h.1
      · exact UInt8.le_trans (by decide) h.1

/-- The quote behind a string is found without reading what follows it. -/
theorem StringText.quote_inj {raw raw' r r' : Bytes} (h : StringText raw)
    (h' : StringText raw') (heq : raw ++ quote :: r = raw' ++ quote :: r') :
    raw = raw' ∧ r = r' := by
  have hu : (0x75 : UInt8) ∉ escapeLetters := by decide
  induction h generalizing raw' with
  | nil =>
      cases h' with
      | nil => exact ⟨rfl, (List.cons.inj heq).2⟩
      | plain hc _ => exact absurd (List.cons.inj heq).1.symm hc.2.1
      | letter _ _ => exact absurd (List.cons.inj heq).1 (by decide)
      | unicode _ _ _ => exact absurd (List.cons.inj heq).1 (by decide)
  | plain hc _ ih =>
      cases h' with
      | nil => exact absurd (List.cons.inj heq).1 hc.2.1
      | plain _ h' =>
          obtain ⟨rfl, hrest⟩ := List.cons.inj heq
          obtain ⟨rfl, rfl⟩ := ih h' hrest
          exact ⟨rfl, rfl⟩
      | letter _ _ => exact absurd (List.cons.inj heq).1 hc.2.2
      | unicode _ _ _ => exact absurd (List.cons.inj heq).1 hc.2.2
  | letter he _ ih =>
      cases h' with
      | nil => exact absurd (List.cons.inj heq).1 (by decide)
      | plain hc _ => exact absurd (List.cons.inj heq).1.symm hc.2.2
      | letter _ h' =>
          obtain ⟨rfl, hrest⟩ := List.cons.inj (List.cons.inj heq).2
          obtain ⟨rfl, rfl⟩ := ih h' hrest
          exact ⟨rfl, rfl⟩
      | unicode _ _ _ =>
          obtain ⟨rfl, -⟩ := List.cons.inj (List.cons.inj heq).2
          exact absurd he hu
  | @unicode digits raw hlen _ _ ih =>
      cases h' with
      | nil => exact absurd (List.cons.inj heq).1 (by decide)
      | plain hc _ => exact absurd (List.cons.inj heq).1.symm hc.2.2
      | letter he _ =>
          obtain ⟨rfl, -⟩ := List.cons.inj (List.cons.inj heq).2
          exact absurd he hu
      | @unicode digits' raw' hlen' _ h' =>
          have hrest : digits ++ raw ++ quote :: r = digits' ++ raw' ++ quote :: r' :=
            (List.cons.inj (List.cons.inj heq).2).2
          rw [List.append_assoc, List.append_assoc] at hrest
          obtain ⟨rfl, hrest'⟩ := List.append_inj hrest (hlen.trans hlen'.symm)
          obtain ⟨rfl, rfl⟩ := ih h' hrest'
          exact ⟨rfl, rfl⟩

/-! ## Values -/

/-- The blanks of a member are blank and its key is a string. -/
structure Member.Spells (m : Member) : Prop where
  blank₀ : Blank m.blank₀
  key : StringText m.rawKey
  blank₁ : Blank m.blank₁
  blank₂ : Blank m.blank₂
  blank₃ : Blank m.blank₃

/-- The JSON values. -/
inductive IsJson : Bytes → Prop
  | string {raw : Bytes} (h : StringText raw) : IsJson (literal raw)
  | scalar {s : Bytes} (h : IsScalar s) : IsJson s
  | emptyArray {w : Bytes} (h : Blank w) : IsJson (lbracket :: w ++ [rbracket])
  | array {es : List Element} (hne : es ≠ []) (hl : ∀ e ∈ es, e.Lexes)
      (hv : ∀ e ∈ es, IsJson e.value) : IsJson (arrayText es)
  | emptyObject {w : Bytes} (h : Blank w) : IsJson (lbrace :: w ++ [rbrace])
  | object {ms : List Member} (hne : ms ≠ []) (hl : ∀ m ∈ ms, m.Spells)
      (hv : ∀ m ∈ ms, IsJson m.value) : IsJson (objectText ms)

/-- A value on one line, with nothing in it that a terminal would act on. -/
structure Inline (v : Bytes) : Prop where
  json : IsJson v
  noControl : NoControl v

theorem NoControl.literal {raw : Bytes} (h : NoControl raw) : NoControl (literal raw) :=
  .append (.cons (by decide) h) (.cons (by decide) .nil)

theorem ScalarByte.noControl {c : UInt8} (h : ScalarByte c) : 0x20 ≤ c := by
  rcases h with h | rfl | rfl | rfl | rfl | h
  · exact UInt8.le_trans (by decide) h.1
  · decide
  · decide
  · decide
  · decide
  · exact UInt8.le_trans (by decide) h.1

theorem Inline.string {raw : Bytes} (h : StringText raw) : Inline (literal raw) :=
  ⟨.string h, h.noControl.literal⟩

theorem Inline.scalar {s : Bytes} (h : IsScalar s) : Inline s :=
  ⟨.scalar h, fun c hc => (h.scalarByte.2 c hc).noControl⟩

theorem NoControl.commaSep {ts : List Bytes} (h : ∀ t ∈ ts, NoControl t) :
    NoControl (commaSep ts) := by
  induction ts with
  | nil => exact .nil
  | cons s ts ih =>
      cases ts with
      | nil => exact h s List.mem_cons_self
      | cons t ts =>
          exact .append (h s List.mem_cons_self)
            (.cons (by decide) (ih fun t' ht' => h t' (List.mem_cons_of_mem s ht')))

/-! ## Numbers -/

theorem IntPart.take {s : Bytes} (h : IntPart s) (k : ℕ) : IntPart (s.take (k + 1)) := by
  obtain ⟨⟨hne, hdigit⟩, hzero⟩ := h
  obtain ⟨c, t, rfl⟩ := List.exists_cons_of_ne_nil hne
  refine ⟨⟨by simp, fun c hc => hdigit c (List.mem_of_mem_take hc)⟩, ?_⟩
  intro hhead
  have hwhole := hzero hhead
  rw [hwhole, List.take_succ_cons, List.take_nil]

/-- A decimal number other than zero does not start with `0`. -/
theorem toDigits_head {k : ℕ} (h : (Nat.toDigits 10 k).head? = some '0') : k = 0 := by
  induction k using Nat.strongRecOn with
  | ind k ih =>
      by_cases hk : k < 10
      · rw [Nat.toDigits_of_lt_base hk, List.head?_cons] at h
        have hsmall : ∀ j < 10, some (Nat.digitChar j) = some '0' → j = 0 := by decide
        exact hsmall k hk h
      · have hle : 10 ≤ k := not_lt.mp hk
        rw [Nat.toDigits_of_base_le (by decide) hle,
          List.head?_append_of_ne_nil _ Nat.toDigits_ne_nil] at h
        have hdiv := ih (k / 10) (by omega) h
        omega

theorem intPart_formatNat (k : ℕ) : IntPart (formatNat k) := by
  refine ⟨⟨?_, ?_⟩, ?_⟩
  · simp [formatNat, Nat.toDigits_ne_nil]
  · intro c hc
    obtain ⟨d, hd, rfl⟩ := List.mem_map.mp hc
    have hle := digit_toNat_le hd
    have hbyte : (UInt8.ofNat d.toNat).toNat = d.toNat := by
      rw [UInt8.toNat_ofNat', Nat.mod_eq_of_lt (by omega)]
    refine ⟨?_, ?_⟩
    · rw [UInt8.le_iff_toNat_le, hbyte]
      exact hle.1
    · rw [UInt8.le_iff_toNat_le, hbyte]
      exact hle.2
  · intro hhead
    have hchars := congrArg (Option.map fun b : UInt8 => Char.ofNat b.toNat) hhead
    rw [← List.head?_map, formatNat_chars] at hchars
    rw [toDigits_head hchars]
    rfl

/-- The first digits of a number are a number. -/
theorem isNumber_take_formatInt (k : ℤ) (j : ℕ) : IsNumber ((formatInt k).take (j + 2)) := by
  unfold formatInt
  split_ifs with hk
  · refine ⟨[0x2D], (formatNat k.natAbs).take (j + 1), [], [], .inr rfl,
      (intPart_formatNat _).take j, .inl rfl, .inl rfl, ?_⟩
    simp [ascii]
  · exact ⟨[], (formatNat k.natAbs).take (j + 2), [], [], .inl rfl,
      (intPart_formatNat _).take (j + 1), .inl rfl, .inl rfl, by simp⟩

theorem isNumber_formatInt (k : ℤ) : IsNumber (formatInt k) := by
  have h := isNumber_take_formatInt k (formatInt k).length
  rwa [List.take_of_length_le (by omega)] at h

theorem Inline.number (k : ℤ) : Inline (formatInt k) := .scalar (.inl (isNumber_formatInt k))

/-! ## What writers print -/

/-- A member printed without blanks, with a key that needs no escape. -/
def field (key : String) (value : Bytes) : Member :=
  ⟨[], ascii key, ascii key, [], [], value, []⟩

def fields (fs : List (String × Bytes)) : List Member := fs.map fun f => field f.1 f.2

/-- An element printed without blanks. -/
def bareElement (value : Bytes) : Element := ⟨[], value, []⟩

/-- The text of an array of these values, without blanks. -/
def bareArray (vs : List Bytes) : Bytes := arrayText (vs.map bareElement)

theorem field_spells {key : String} (value : Bytes) (h : ∀ c ∈ ascii key, Unescaped c) :
    (field key value).Spells :=
  ⟨blank_nil, .of_unescaped h, blank_nil, blank_nil, blank_nil⟩

theorem field_lexes {key : String} (value : Bytes) (h : ∀ c ∈ ascii key, Unescaped c) :
    (field key value).Lexes :=
  ⟨blank_nil, .of_unescaped h, blank_nil, blank_nil, blank_nil⟩

theorem field_text (key : String) (value : Bytes) :
    (field key value).text = quote :: (ascii key ++ quote :: colon :: value) := by
  simp [Member.text, Member.fromKey, field, literal]

/-- Keys that need no escape. -/
def PlainKeys (fs : List (String × Bytes)) : Prop := ∀ f ∈ fs, ∀ c ∈ ascii f.1, Unescaped c

theorem Inline.object {fs : List (String × Bytes)} (hne : fs ≠ []) (hkey : PlainKeys fs)
    (hv : ∀ f ∈ fs, Inline f.2) : Inline (objectText (fields fs)) := by
  refine ⟨.object (by simpa [fields] using hne) ?_ ?_, ?_⟩
  · intro m hm
    obtain ⟨f, hf, rfl⟩ := List.mem_map.mp hm
    exact field_spells f.2 (hkey f hf)
  · intro m hm
    obtain ⟨f, hf, rfl⟩ := List.mem_map.mp hm
    exact (hv f hf).json
  · have hsep : NoControl (commaSep ((fields fs).map Member.text)) := by
      apply NoControl.commaSep
      intro t ht
      obtain ⟨m, hm, rfl⟩ := List.mem_map.mp ht
      obtain ⟨f, hf, rfl⟩ := List.mem_map.mp hm
      rw [field_text]
      exact .cons (by decide) (.append (StringText.of_unescaped (hkey f hf)).noControl
        (.cons (by decide) (.cons (by decide) (hv f hf).noControl)))
    exact .append (.cons (by decide) hsep) (.cons (by decide) .nil)

theorem isObject_fields {fs : List (String × Bytes)} (hne : fs ≠ []) (hkey : PlainKeys fs)
    (hv : ∀ f ∈ fs, IsValue f.2) : IsObject (fields fs) (objectText (fields fs)) := by
  refine .members (by simpa [fields] using hne) ?_ ?_
  · intro m hm
    obtain ⟨f, hf, rfl⟩ := List.mem_map.mp hm
    exact field_lexes f.2 (hkey f hf)
  · intro m hm
    obtain ⟨f, hf, rfl⟩ := List.mem_map.mp hm
    exact hv f hf

theorem Inline.array {vs : List Bytes} (hv : ∀ v ∈ vs, Inline v) : Inline (bareArray vs) := by
  refine ⟨?_, ?_⟩
  · by_cases hne : vs = []
    · rw [hne]
      exact .emptyArray blank_nil
    · refine .array (by simpa using hne) ?_ ?_
      · intro e he
        obtain ⟨v, hv, rfl⟩ := List.mem_map.mp he
        exact ⟨blank_nil, blank_nil⟩
      · intro e he
        obtain ⟨v, hmem, rfl⟩ := List.mem_map.mp he
        exact (hv v hmem).json
  · have hsep : NoControl (commaSep ((vs.map bareElement).map Element.text)) := by
      apply NoControl.commaSep
      intro t ht
      obtain ⟨e, he, rfl⟩ := List.mem_map.mp ht
      obtain ⟨v, hmem, rfl⟩ := List.mem_map.mp he
      simpa [Element.text, bareElement] using (hv v hmem).noControl
    exact .append (.cons (by decide) hsep) (.cons (by decide) .nil)

theorem Inline.zero_notMem {v : Bytes} (h : Inline v) : (0 : UInt8) ∉ v :=
  h.noControl.notMem (by decide)

/-! ## Lines -/

/-- A line of a JSON Lines file: an object, and the newline that ends it. -/
def JsonLine (line : Bytes) : Prop :=
  ∃ t, Inline t ∧ t.head? = some lbrace ∧ line = t ++ [newline]

/-- A text that is cut into lines by its newlines. -/
def JsonLines (log : Bytes) : Prop :=
  ∃ lines : List Bytes, (∀ line ∈ lines, JsonLine line) ∧ log = lines.flatten

theorem JsonLine.object {fs : List (String × Bytes)} (hne : fs ≠ []) (hkey : PlainKeys fs)
    (hv : ∀ f ∈ fs, Inline f.2) : JsonLine (objectText (fields fs) ++ [newline]) :=
  ⟨_, .object hne hkey hv, rfl, rfl⟩

theorem JsonLine.zero_notMem {line : Bytes} (h : JsonLine line) : (0 : UInt8) ∉ line := by
  obtain ⟨t, ht, -, rfl⟩ := h
  simp [ht.noControl.notMem (by decide : (0 : UInt8) < 0x20), newline]

theorem JsonLine.getLast? {line : Bytes} (h : JsonLine line) : line.getLast? = some newline := by
  obtain ⟨t, -, -, rfl⟩ := h
  rw [List.getLast?_append]
  rfl

theorem JsonLines.nil : JsonLines [] := ⟨[], by simp, rfl⟩

theorem JsonLines.append {log more : Bytes} (h : JsonLines log) (h' : JsonLines more) :
    JsonLines (log ++ more) := by
  obtain ⟨lines, hlines, rfl⟩ := h
  obtain ⟨lines', hlines', rfl⟩ := h'
  refine ⟨lines ++ lines', ?_, ?_⟩
  · intro line hline
    rcases List.mem_append.mp hline with hline | hline
    · exact hlines line hline
    · exact hlines' line hline
  · rw [List.flatten_append]

/-- A text that ends in another byte has an unfinished line. -/
theorem JsonLines.getLast? {log : Bytes} (h : JsonLines log) (hne : log ≠ []) :
    log.getLast? = some newline := by
  obtain ⟨lines, hlines, rfl⟩ := h
  induction lines using List.reverseRecOn with
  | nil => exact absurd rfl hne
  | append_singleton lines line ih =>
      have hlast := (hlines line (by simp)).getLast?
      rw [List.flatten_append, List.flatten_singleton, List.getLast?_append, hlast]
      rfl

end JsonText
