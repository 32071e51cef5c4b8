import Mathlib.Tactic.SplitIfs
import AnythingTool.Library.CString

/-!
# JSON texts over bytes

The grammar of JSON values as a predicate on byte strings, with the blanks
between tokens kept, for texts whose strings use the one-letter escapes of
`shortEscape` only. `StringBody raw dec` relates the bytes between two quotes to
what they decode to. An array or an object is given by the list of its elements
or members, each with its own blanks, so the members of an object can be named
in a statement.

`Balanced` forgets everything of a text but its string literals and the nesting
of its brackets. Every value is balanced, and a property of texts that only
looks at brackets outside literals is proved once for balanced texts.
-/

namespace JsonText

open CText

/-! ## Strings -/

/-- The one-letter escapes, with the byte each of them stands for. -/
def shortEscape (e : UInt8) : Option UInt8 :=
  if e = quote then some quote
  else if e = backslash then some backslash
  else if e = 0x6E then some 0x0A
  else if e = 0x72 then some 0x0D
  else if e = 0x74 then some 0x09
  else none

/-- A byte that stands for itself between the quotes of a string. -/
def Unescaped (c : UInt8) : Prop := 0x20 ≤ c ∧ c ≠ quote ∧ c ≠ backslash

instance (c : UInt8) : Decidable (Unescaped c) :=
  inferInstanceAs (Decidable (0x20 ≤ c ∧ c ≠ quote ∧ c ≠ backslash))

/-- `StringBody raw dec`: the bytes `raw` between two quotes decode to `dec`. -/
inductive StringBody : Bytes → Bytes → Prop
  | nil : StringBody [] []
  | plain {c : UInt8} {raw dec : Bytes} (hc : Unescaped c) (h : StringBody raw dec) :
      StringBody (c :: raw) (c :: dec)
  | escape {e d : UInt8} {raw dec : Bytes} (he : shortEscape e = some d)
      (h : StringBody raw dec) : StringBody (backslash :: e :: raw) (d :: dec)

/-- The string literal with these bytes between its quotes. -/
def literal (raw : Bytes) : Bytes := quote :: raw ++ [quote]

theorem shortEscape_ne_zero {e d : UInt8} (h : shortEscape e = some d) :
    e ≠ 0 ∧ d ≠ 0 := by
  unfold shortEscape at h
  split_ifs at h with hq hb hn hr ht
  all_goals
    obtain rfl := Option.some.inj h
    subst e
    decide

theorem Unescaped.ne_zero {c : UInt8} (h : Unescaped c) : c ≠ 0 := by
  rintro rfl
  exact absurd h.1 (by decide)

theorem Unescaped.branches {c : UInt8} (h : Unescaped c) :
    c ≠ 0 ∧ c ≠ quote ∧ ¬ c < 0x20 ∧ c ≠ backslash :=
  ⟨h.ne_zero, h.2.1, UInt8.not_lt.mpr h.1, h.2.2⟩

theorem backslash_branches :
    backslash ≠ 0 ∧ backslash ≠ quote ∧ ¬ backslash < 0x20 := by decide

/-- Bytes that need no escape decode to themselves. -/
theorem StringBody.of_unescaped {s : Bytes} (h : ∀ c ∈ s, Unescaped c) : StringBody s s := by
  induction s with
  | nil => exact .nil
  | cons c s ih =>
      exact .plain (h c List.mem_cons_self) (ih fun b hb => h b (List.mem_cons_of_mem c hb))

/-- Two readings of the same bytes decode to the same string. -/
theorem StringBody.functional {raw dec dec' : Bytes} (h : StringBody raw dec)
    (h' : StringBody raw dec') : dec = dec' := by
  induction h generalizing dec' with
  | nil =>
      cases h'
      rfl
  | plain hc _ ih =>
      cases h' with
      | plain _ h' => rw [ih h']
      | escape _ _ => exact absurd rfl hc.2.2
  | escape he _ ih =>
      cases h' with
      | plain hc _ => exact absurd rfl hc.2.2
      | escape he' h' =>
          rw [he, Option.some.injEq] at he'
          rw [ih h', he']

theorem StringBody.zero_notMem {raw dec : Bytes} (h : StringBody raw dec) :
    (0 : UInt8) ∉ raw ∧ (0 : UInt8) ∉ dec := by
  induction h with
  | nil => simp
  | plain hc _ ih => simp [ih, hc.ne_zero.symm]
  | escape he _ ih =>
      obtain ⟨h₁, h₂⟩ := shortEscape_ne_zero he
      simp [ih, h₁.symm, h₂.symm, backslash]

theorem StringBody.length_le {raw dec : Bytes} (h : StringBody raw dec) :
    dec.length ≤ raw.length := by
  induction h with
  | nil => exact le_rfl
  | plain _ _ ih => simpa using ih
  | escape _ _ ih =>
      rw [List.length_cons, List.length_cons, List.length_cons]
      omega

/-- An escape is longer than what it stands for. -/
theorem StringBody.length_lt {raw dec : Bytes} (h : StringBody raw dec)
    (hmem : backslash ∈ raw) : dec.length < raw.length := by
  induction h with
  | nil => cases hmem
  | plain hc _ ih =>
      rcases List.mem_cons.mp hmem with heq | hmem
      · exact absurd heq.symm hc.2.2
      · simpa using ih hmem
  | escape _ h _ =>
      have hle := h.length_le
      rw [List.length_cons, List.length_cons, List.length_cons]
      omega

/-- Without escapes a string stands for itself. -/
theorem StringBody.eq_of_notMem {raw dec : Bytes} (h : StringBody raw dec)
    (hmem : backslash ∉ raw) : dec = raw ∧ quote ∉ raw := by
  induction h with
  | nil => exact ⟨rfl, List.not_mem_nil⟩
  | plain hc _ ih =>
      obtain ⟨rfl, hquote⟩ := ih fun h => hmem (List.mem_cons_of_mem _ h)
      refine ⟨rfl, ?_⟩
      intro h
      rcases List.mem_cons.mp h with heq | h
      · exact hc.2.1 heq.symm
      · exact hquote h
  | escape _ _ _ => exact absurd List.mem_cons_self hmem

/-! ## Blanks and scalars -/

/-- The blanks JSON allows between tokens. -/
def IsBlank (c : UInt8) : Prop := c = 0x20 ∨ c = 0x09 ∨ c = 0x0A ∨ c = 0x0D

instance (c : UInt8) : Decidable (IsBlank c) :=
  inferInstanceAs (Decidable (c = 0x20 ∨ c = 0x09 ∨ c = 0x0A ∨ c = 0x0D))

def Blank (w : Bytes) : Prop := ∀ c ∈ w, IsBlank c

instance (w : Bytes) : Decidable (Blank w) :=
  inferInstanceAs (Decidable (∀ c ∈ w, IsBlank c))

theorem blank_nil : Blank [] := by
  intro c hc
  cases hc

def IsDigit (c : UInt8) : Prop := 0x30 ≤ c ∧ c ≤ 0x39

def Digits (s : Bytes) : Prop := s ≠ [] ∧ ∀ c ∈ s, IsDigit c

/-- The integer part of a number: `0`, or digits that do not start with `0`. -/
def IntPart (s : Bytes) : Prop := Digits s ∧ (s.head? = some 0x30 → s = [0x30])

/-- A fraction, possibly absent. -/
def FracPart (s : Bytes) : Prop := s = [] ∨ ∃ d, Digits d ∧ s = 0x2E :: d

/-- An exponent, possibly absent. -/
def ExpPart (s : Bytes) : Prop :=
  s = [] ∨ ∃ e sign d, (e = 0x65 ∨ e = 0x45) ∧
    (sign = [] ∨ sign = [0x2B] ∨ sign = [0x2D]) ∧ Digits d ∧ s = e :: (sign ++ d)

def IsNumber (s : Bytes) : Prop :=
  ∃ sign int frac exp, (sign = [] ∨ sign = [0x2D]) ∧ IntPart int ∧ FracPart frac ∧
    ExpPart exp ∧ s = sign ++ int ++ frac ++ exp

/-- The three named constants. -/
def IsConstant (s : Bytes) : Prop :=
  s = ascii "true" ∨ s = ascii "false" ∨ s = ascii "null"

def IsScalar (s : Bytes) : Prop := IsNumber s ∨ IsConstant s

/-- The bytes a scalar can be made of: digits, signs, the dot and letters. -/
def ScalarByte (c : UInt8) : Prop :=
  IsDigit c ∨ c = 0x2B ∨ c = 0x2D ∨ c = 0x2E ∨ c = 0x45 ∨ (0x61 ≤ c ∧ c ≤ 0x7A)

instance (c : UInt8) : Decidable (IsDigit c) :=
  inferInstanceAs (Decidable (0x30 ≤ c ∧ c ≤ 0x39))

instance (c : UInt8) : Decidable (ScalarByte c) :=
  inferInstanceAs (Decidable
    (IsDigit c ∨ c = 0x2B ∨ c = 0x2D ∨ c = 0x2E ∨ c = 0x45 ∨ (0x61 ≤ c ∧ c ≤ 0x7A)))

theorem IsNumber.scalarByte {s : Bytes} (h : IsNumber s) :
    s ≠ [] ∧ ∀ c ∈ s, ScalarByte c := by
  obtain ⟨sign, int, frac, exp, hsign, ⟨hint, -⟩, hfrac, hexp, rfl⟩ := h
  have hdig : ∀ d, Digits d → ∀ c ∈ d, ScalarByte c := fun d hd c hc => .inl (hd.2 c hc)
  refine ⟨by simp [hint.1], ?_⟩
  intro c hc
  simp only [List.mem_append] at hc
  rcases hc with ((hc | hc) | hc) | hc
  · rcases hsign with rfl | rfl
    · simp at hc
    · rw [List.mem_singleton.mp hc]
      decide
  · exact hdig int hint c hc
  · rcases hfrac with rfl | ⟨d, hd, rfl⟩
    · simp at hc
    · rcases List.mem_cons.mp hc with rfl | hc
      · decide
      · exact hdig d hd c hc
  · rcases hexp with rfl | ⟨e, sg, d, he, hsg, hd, rfl⟩
    · simp at hc
    · rcases List.mem_cons.mp hc with rfl | hc
      · rcases he with rfl | rfl <;> decide
      · rcases List.mem_append.mp hc with hc | hc
        · rcases hsg with rfl | rfl | rfl
          · simp at hc
          · rw [List.mem_singleton.mp hc]
            decide
          · rw [List.mem_singleton.mp hc]
            decide
        · exact hdig d hd c hc

theorem IsConstant.scalarByte {s : Bytes} (h : IsConstant s) :
    s ≠ [] ∧ ∀ c ∈ s, ScalarByte c := by
  rcases h with rfl | rfl | rfl <;> decide

theorem IsScalar.scalarByte {s : Bytes} (h : IsScalar s) :
    s ≠ [] ∧ ∀ c ∈ s, ScalarByte c :=
  h.elim IsNumber.scalarByte IsConstant.scalarByte

/-! ## Values -/

/-- An element of an array, with the blanks around it. -/
structure Element where
  blank₀ : Bytes
  value : Bytes
  blank₁ : Bytes

/-- A member of an object: its key as written and as decoded, its value, and the
blanks before the key, around the colon and after the value. -/
structure Member where
  blank₀ : Bytes
  rawKey : Bytes
  key : Bytes
  blank₁ : Bytes
  blank₂ : Bytes
  value : Bytes
  blank₃ : Bytes

namespace Element

def text (e : Element) : Bytes := e.blank₀ ++ e.value ++ e.blank₁

/-- The blanks are blank. -/
structure Lexes (e : Element) : Prop where
  blank₀ : Blank e.blank₀
  blank₁ : Blank e.blank₁

end Element

namespace Member

/-- The member from its key on. -/
def fromKey (m : Member) : Bytes :=
  literal m.rawKey ++ (m.blank₁ ++ colon :: (m.blank₂ ++ (m.value ++ m.blank₃)))

def text (m : Member) : Bytes := m.blank₀ ++ m.fromKey

/-- The blanks are blank and the key decodes as it says. -/
structure Lexes (m : Member) : Prop where
  blank₀ : Blank m.blank₀
  key : StringBody m.rawKey m.key
  blank₁ : Blank m.blank₁
  blank₂ : Blank m.blank₂
  blank₃ : Blank m.blank₃

end Member

/-- Texts one after another with a comma between neighbours. -/
def commaSep : List Bytes → Bytes
  | [] => []
  | [s] => s
  | s :: t :: ts => s ++ comma :: commaSep (t :: ts)

/-- The text of an array that has elements. -/
def arrayText (es : List Element) : Bytes :=
  lbracket :: commaSep (es.map Element.text) ++ [rbracket]

/-- The text of an object that has members. -/
def objectText (ms : List Member) : Bytes :=
  lbrace :: commaSep (ms.map Member.text) ++ [rbrace]

/-- The well-formed JSON values. -/
inductive IsValue : Bytes → Prop
  | string {raw dec : Bytes} (h : StringBody raw dec) : IsValue (literal raw)
  | scalar {s : Bytes} (h : IsScalar s) : IsValue s
  | emptyArray {w : Bytes} (h : Blank w) : IsValue (lbracket :: w ++ [rbracket])
  | array {es : List Element} (hne : es ≠ []) (hl : ∀ e ∈ es, e.Lexes)
      (hv : ∀ e ∈ es, IsValue e.value) : IsValue (arrayText es)
  | emptyObject {w : Bytes} (h : Blank w) : IsValue (lbrace :: w ++ [rbrace])
  | object {ms : List Member} (hne : ms ≠ []) (hl : ∀ m ∈ ms, m.Lexes)
      (hv : ∀ m ∈ ms, IsValue m.value) : IsValue (objectText ms)

/-- The text of an object with these members. -/
inductive IsObject : List Member → Bytes → Prop
  | empty {w : Bytes} (h : Blank w) : IsObject [] (lbrace :: w ++ [rbrace])
  | members {ms : List Member} (hne : ms ≠ []) (hl : ∀ m ∈ ms, m.Lexes)
      (hv : ∀ m ∈ ms, IsValue m.value) : IsObject ms (objectText ms)

/-- The text of a string value and what it decodes to. -/
def StringValue (v dec : Bytes) : Prop := ∃ raw, StringBody raw dec ∧ v = literal raw

theorem StringValue.zero_notMem {v dec : Bytes} (h : StringValue v dec) :
    (0 : UInt8) ∉ dec := by
  obtain ⟨raw, hraw, -⟩ := h
  exact hraw.zero_notMem.2

/-- The rest of an object's text after a member that `ms` follow. -/
def afterMember : List Member → Bytes
  | [] => [rbrace]
  | m :: ms => comma :: (m.text ++ afterMember ms)

theorem objectText_cons (m : Member) (ms : List Member) :
    objectText (m :: ms) = lbrace :: (m.text ++ afterMember ms) := by
  have hsep : ∀ ms (m : Member), commaSep ((m :: ms).map Member.text) ++ [rbrace] =
      m.text ++ afterMember ms := by
    intro ms
    induction ms with
    | nil =>
        intro m
        rfl
    | cons m' ms ih =>
        intro m
        rw [List.map_cons, List.map_cons, commaSep, afterMember, ← ih m']
        simp
  rw [objectText, List.cons_append, hsep]

theorem IsObject.lexes {ms : List Member} {t : Bytes} (h : IsObject ms t) :
    ∀ m ∈ ms, m.Lexes := by
  cases h with
  | empty h => simp
  | members hne hl hv => exact hl

theorem IsObject.value {ms : List Member} {t : Bytes} (h : IsObject ms t) :
    ∀ m ∈ ms, IsValue m.value := by
  cases h with
  | empty h => simp
  | members hne hl hv => exact hv

/-! ## Balanced texts -/

/-- A byte outside literals that is neither a quote nor a bracket nor NUL. -/
def Plain (c : UInt8) : Prop :=
  c ≠ 0 ∧ c ≠ quote ∧ c ≠ lbrace ∧ c ≠ rbrace ∧ c ≠ lbracket ∧ c ≠ rbracket

instance (c : UInt8) : Decidable (Plain c) :=
  inferInstanceAs (Decidable
    (c ≠ 0 ∧ c ≠ quote ∧ c ≠ lbrace ∧ c ≠ rbrace ∧ c ≠ lbracket ∧ c ≠ rbracket))

/-- Texts whose brackets are properly nested outside string literals. -/
inductive Balanced : Bytes → Prop
  | nil : Balanced []
  | plain {c : UInt8} (h : Plain c) : Balanced [c]
  | literal {raw dec : Bytes} (h : StringBody raw dec) : Balanced (literal raw)
  | braces {s : Bytes} (h : Balanced s) : Balanced (lbrace :: s ++ [rbrace])
  | brackets {s : Bytes} (h : Balanced s) : Balanced (lbracket :: s ++ [rbracket])
  | append {s t : Bytes} (hs : Balanced s) (ht : Balanced t) : Balanced (s ++ t)

theorem Balanced.of_plain {s : Bytes} (h : ∀ c ∈ s, Plain c) : Balanced s := by
  induction s with
  | nil => exact .nil
  | cons c s ih =>
      exact .append (.plain (h c (by simp))) (ih fun c hc => h c (by simp [hc]))

theorem Blank.balanced {w : Bytes} (h : Blank w) : Balanced w := by
  refine .of_plain ?_
  intro c hc
  rcases h c hc with rfl | rfl | rfl | rfl <;> decide

theorem ScalarByte.plain {c : UInt8} (h : ScalarByte c) : Plain c := by
  refine ⟨?_, ?_, ?_, ?_, ?_, ?_⟩
  all_goals
    rintro rfl
    revert h
    decide

theorem Balanced.commaSep {ts : List Bytes} (h : ∀ t ∈ ts, Balanced t) :
    Balanced (commaSep ts) := by
  induction ts with
  | nil => exact .nil
  | cons s ts ih =>
      cases ts with
      | nil => exact h s (by simp)
      | cons t ts =>
          have hcomma : Balanced [comma] := .plain (by decide)
          exact .append (h s (by simp))
            (.append hcomma (ih fun t' ht' => h t' (List.mem_cons_of_mem _ ht')))

theorem Element.balanced {e : Element} (hl : e.Lexes) (hv : Balanced e.value) :
    Balanced e.text :=
  .append (.append hl.blank₀.balanced hv) hl.blank₁.balanced

theorem Member.balanced_fromKey {m : Member} (hl : m.Lexes) (hv : Balanced m.value) :
    Balanced m.fromKey := by
  have hcolon : Balanced [colon] := .plain (by decide)
  exact .append (.literal hl.key) (.append hl.blank₁.balanced
    (.append hcolon (.append hl.blank₂.balanced (.append hv hl.blank₃.balanced))))

theorem Member.balanced {m : Member} (hl : m.Lexes) (hv : Balanced m.value) :
    Balanced m.text :=
  .append hl.blank₀.balanced (m.balanced_fromKey hl hv)

theorem IsValue.balanced {v : Bytes} (h : IsValue v) : Balanced v := by
  induction h with
  | string h => exact .literal h
  | scalar h => exact .of_plain fun c hc => (h.scalarByte.2 c hc).plain
  | emptyArray h => exact .brackets h.balanced
  | array _ hl _ ih =>
      refine .brackets (.commaSep ?_)
      intro t ht
      obtain ⟨e, he, rfl⟩ := List.mem_map.mp ht
      exact Element.balanced (hl e he) (ih e he)
  | emptyObject h => exact .braces h.balanced
  | object _ hl _ ih =>
      refine .braces (.commaSep ?_)
      intro t ht
      obtain ⟨m, hm, rfl⟩ := List.mem_map.mp ht
      exact Member.balanced (hl m hm) (ih m hm)

theorem Balanced.zero_notMem {s : Bytes} (h : Balanced s) : (0 : UInt8) ∉ s := by
  induction h with
  | nil => simp
  | plain h => simpa using h.1.symm
  | literal h => simp [JsonText.literal, h.zero_notMem.1, quote]
  | braces _ ih => simp [ih, lbrace, rbrace]
  | brackets _ ih => simp [ih, lbracket, rbracket]
  | append _ _ ih₁ ih₂ => simp [ih₁, ih₂]

/-- An object is a balanced text in braces. -/
theorem IsObject.braces {ms : List Member} {t : Bytes} (h : IsObject ms t) :
    ∃ s, Balanced s ∧ t = lbrace :: s ++ [rbrace] := by
  cases h with
  | empty h => exact ⟨_, h.balanced, rfl⟩
  | members hne hl hv =>
      refine ⟨_, .commaSep ?_, rfl⟩
      intro t ht
      obtain ⟨m, hm, rfl⟩ := List.mem_map.mp ht
      exact Member.balanced (hl m hm) (hv m hm).balanced

/-- What a value starts with decides its kind. -/
theorem IsValue.shape {v : Bytes} (h : IsValue v) :
    (∃ raw dec, StringBody raw dec ∧ v = literal raw) ∨
      (∃ s, Balanced s ∧ v = lbrace :: s ++ [rbrace]) ∨
      (∃ s, Balanced s ∧ v = lbracket :: s ++ [rbracket]) ∨ IsScalar v := by
  cases h with
  | string h => exact .inl ⟨_, _, h, rfl⟩
  | scalar h => exact .inr (.inr (.inr h))
  | emptyArray h => exact .inr (.inr (.inl ⟨_, h.balanced, rfl⟩))
  | @array es hne hl hv =>
      refine .inr (.inr (.inl ⟨_, .commaSep ?_, rfl⟩))
      intro t ht
      obtain ⟨e, he, rfl⟩ := List.mem_map.mp ht
      exact Element.balanced (hl e he) (hv e he).balanced
  | emptyObject h => exact .inr (.inl (IsObject.empty h).braces)
  | object hne hl hv => exact .inr (.inl (IsObject.members hne hl hv).braces)

end JsonText
