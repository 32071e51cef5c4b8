import AnythingTool.Config.Load
import AnythingTool.Rpc.Shape

/-!
# Bracketed lists of ids

`IdItems ids text` says what stands behind the opening bracket of a list: numbers, with
a sign or without, and commas between them. A comma may also stand before the closing
bracket, and what follows that bracket is not read. `parse_long_array` accepts just these
lists, up to its size (`parseLongArray_eq_some`), but `strtol` clamps what does not fit a
`long`; no user or group id is as large as that.
-/

namespace AnythingTool

open CText JsonText

/-! ## The grammar -/

/-- A decimal number with its value. -/
inductive DecimalNumber : Bytes → ℤ → Prop
  | plain {digits : Bytes} (h : Digits digits) : DecimalNumber digits (digitsValue digits)
  | plus {digits : Bytes} (h : Digits digits) :
      DecimalNumber (0x2B :: digits) (digitsValue digits)
  | minus {digits : Bytes} (h : Digits digits) :
      DecimalNumber (0x2D :: digits) (-(digitsValue digits : ℤ))

/-- The numbers of a list whose opening bracket has been read. -/
inductive IdItems : List ℤ → Bytes → Prop
  | close {w rest : Bytes} (hw : Spaces w) : IdItems [] (w ++ rbracket :: rest)
  | last {w number w' rest : Bytes} {k : ℤ} (hw : Spaces w) (hk : DecimalNumber number k)
      (hw' : Spaces w') : IdItems [k] (w ++ (number ++ (w' ++ rbracket :: rest)))
  | more {w number w' text : Bytes} {k : ℤ} {ids : List ℤ} (hw : Spaces w)
      (hk : DecimalNumber number k) (hw' : Spaces w') (h : IdItems ids text) :
      IdItems (k :: ids) (w ++ (number ++ (w' ++ comma :: text)))

/-- What follows the closing bracket does not matter. -/
theorem IdItems.append {ids : List ℤ} {text : Bytes} (h : IdItems ids text) (rest : Bytes) :
    IdItems ids (text ++ rest) := by
  induction h with
  | close hw =>
      rw [List.append_assoc]
      exact .close hw
  | last hw hk hw' =>
      simp only [List.append_assoc]
      exact .last hw hk hw'
  | more hw hk hw' _ ih =>
      simp only [List.append_assoc]
      exact .more hw hk hw' ih

/-! ## Trimming -/

/-- The second loop of `trim`. -/
def trimRight (text : Bytes) : Bytes := (text.reverse.dropWhile fun c => isspace c).reverse

theorem trim_eq (text : Bytes) : trim text = trimRight (text.dropWhile fun c => isspace c) := rfl

theorem trimRight_cons {c : UInt8} (hc : ¬ isspace c) (text : Bytes) :
    trimRight (c :: text) = c :: trimRight text := by
  rw [trimRight, List.reverse_cons, List.dropWhile_append]
  split_ifs with hempty
  · have hnil : text.reverse.dropWhile (fun c => isspace c) = [] := List.isEmpty_iff.mp hempty
    simp [trimRight, hnil, hc]
  · rw [List.reverse_append]
    rfl

/-- Nothing in front of a byte that is no blank is cut. -/
theorem trimRight_append {c : UInt8} (hc : ¬ isspace c) (s text : Bytes) :
    trimRight (s ++ c :: text) = s ++ c :: trimRight text := by
  have hne : ¬ ((c :: text).reverse.dropWhile fun c => isspace c).isEmpty = true := by
    intro hempty
    have hnil : trimRight (c :: text) = [] := by
      rw [trimRight, List.isEmpty_iff.mp hempty]
      rfl
    rw [trimRight_cons hc] at hnil
    cases hnil
  rw [trimRight, List.reverse_append, List.dropWhile_append, if_neg hne, List.reverse_append,
    List.reverse_reverse]
  exact congrArg (s ++ ·) (trimRight_cons hc text)

theorem spaces_takeWhile (text : Bytes) : Spaces (text.takeWhile fun c => isspace c) := by
  intro c hc
  simpa using List.mem_takeWhile_imp hc

theorem trimRight_split (text : Bytes) : ∃ w, Spaces w ∧ text = trimRight text ++ w := by
  refine ⟨(text.reverse.takeWhile fun c => isspace c).reverse, ?_, ?_⟩
  · intro c hc
    exact spaces_takeWhile _ c (List.mem_reverse.mp hc)
  · rw [trimRight, ← List.reverse_append, List.takeWhile_append_dropWhile, List.reverse_reverse]

/-- `trim` cuts blanks on both sides. -/
theorem trim_split (text : Bytes) :
    ∃ w w', Spaces w ∧ Spaces w' ∧ text = w ++ (trim text ++ w') := by
  obtain ⟨w', hw', heq⟩ := trimRight_split (text.dropWhile fun c => isspace c)
  refine ⟨_, w', spaces_takeWhile text, hw', ?_⟩
  rw [trim_eq, ← heq, List.takeWhile_append_dropWhile]

theorem dropWhile_spaces {w : Bytes} (hw : Spaces w) (text : Bytes) :
    (w ++ text).dropWhile (fun c => isspace c) = text.dropWhile fun c => isspace c :=
  List.dropWhile_append_of_pos fun c hc => decide_eq_true (hw c hc)

theorem trimRight_spaces {w : Bytes} (hw : Spaces w) (text : Bytes) :
    trimRight (text ++ w) = trimRight text := by
  have hreverse : Spaces w.reverse := fun c hc => hw c (List.mem_reverse.mp hc)
  rw [trimRight, List.reverse_append, dropWhile_spaces hreverse]
  rfl

theorem trim_spaces {w : Bytes} (hw : Spaces w) (text : Bytes) : trim (w ++ text) = trim text := by
  rw [trim_eq, dropWhile_spaces hw]
  rfl

/-- Blanks at the end are cut in any case. -/
theorem trim_trimRight (text : Bytes) : trim (trimRight text) = trim text := by
  obtain ⟨w, hw, heq⟩ := trimRight_split text
  conv_rhs => rw [heq, trim_eq, List.dropWhile_append]
  split_ifs with hempty
  · rw [trim_eq, List.isEmpty_iff.mp hempty]
    have hnil : w.dropWhile (fun c => isspace c) = [] :=
      List.dropWhile_eq_nil_iff.mpr fun c hc => decide_eq_true (hw c hc)
    rw [hnil]
  · rw [trimRight_spaces hw]
    rfl

/-! ## Numbers -/

/-- `strtol` at the ends of its range. -/
def clampLong (k : ℤ) : ℤ := max (-2 ^ 63) (min (2 ^ 63 - 1) k)

theorem digit_not_space {c : UInt8} (h : IsDigit c) : ¬ isspace c := by
  rintro (rfl | ⟨-, hle⟩)
  · exact absurd h.1 (by decide)
  · exact absurd (UInt8.le_trans h.1 hle) (by decide)

theorem spanDigits_append {digits r : Bytes} (hd : ∀ c ∈ digits, IsDigit c)
    (hr : ¬ IsDigit (deref r)) : spanDigits (digits ++ r) = (digits, r) := by
  have hdigit : ∀ c ∈ digits, decide (0x30 ≤ c ∧ c ≤ 0x39) = true :=
    fun c hc => decide_eq_true (hd c hc)
  have hstop : r.takeWhile (fun c => 0x30 ≤ c ∧ c ≤ 0x39) = [] ∧
      r.dropWhile (fun c => 0x30 ≤ c ∧ c ≤ 0x39) = r := by
    cases r with
    | nil => exact ⟨rfl, rfl⟩
    | cons c t =>
        have hc : ¬ (0x30 ≤ c ∧ c ≤ 0x39) := hr
        exact ⟨List.takeWhile_cons_of_neg (by simpa using hc),
          List.dropWhile_cons_of_neg (by simpa using hc)⟩
  rw [spanDigits, List.takeWhile_append_of_pos hdigit, List.dropWhile_append_of_pos hdigit,
    hstop.1, hstop.2, List.append_nil]

/-- The sign and the digits of a number. -/
theorem scanInteger_number {number : Bytes} {k : ℤ} (h : DecimalNumber number k) {r : Bytes}
    (hr : ¬ IsDigit (deref r)) :
    ∃ negative digits, scanInteger (number ++ r) = some (negative, digits, r) ∧
      k = if negative then -(digitsValue digits : ℤ) else digitsValue digits := by
  have hsigns : ¬ isspace 0x2B ∧ ¬ isspace 0x2D := by decide
  cases h with
  | plain h =>
      obtain ⟨c, t, rfl⟩ := List.exists_cons_of_ne_nil h.1
      have hc := h.2 c List.mem_cons_self
      have hspace := digit_not_space hc
      have hminus : c ≠ 0x2D := by
        rintro rfl
        exact absurd hc.1 (by decide)
      have hplus : c ≠ 0x2B := by
        rintro rfl
        exact absurd hc.1 (by decide)
      have hspan := spanDigits_append h.2 hr
      rw [List.cons_append] at hspan
      exact ⟨false, c :: t, by simp [scanInteger, hspace, hminus, hplus, hspan], rfl⟩
  | @plus digits h =>
      have hspan := spanDigits_append h.2 hr
      obtain ⟨c, t, rfl⟩ := List.exists_cons_of_ne_nil h.1
      rw [List.cons_append] at hspan
      exact ⟨false, c :: t, by simp [scanInteger, hsigns.1, hspan], rfl⟩
  | @minus digits h =>
      have hspan := spanDigits_append h.2 hr
      obtain ⟨c, t, rfl⟩ := List.exists_cons_of_ne_nil h.1
      rw [List.cons_append] at hspan
      exact ⟨true, c :: t, by simp [scanInteger, hsigns.2, hspan], rfl⟩

/-- `strtol` reads a number up to a byte that is no digit. -/
theorem strtol_number {number : Bytes} {k : ℤ} (h : DecimalNumber number k) {r : Bytes}
    (hr : ¬ IsDigit (deref r)) : strtol (number ++ r) = some (clampLong k, r) := by
  obtain ⟨negative, digits, hscan, rfl⟩ := scanInteger_number h hr
  rw [strtol, hscan]
  rfl

/-- The digits behind the sign. -/
theorem digits_of_spanDigits {q digits rest : Bytes} {sign negative : Bool}
    (h : (match spanDigits q with
      | ([], _) => none
      | (digits, rest) => some (sign, digits, rest)) = some (negative, digits, rest)) :
    sign = negative ∧ Digits digits ∧ q = digits ++ rest := by
  have hspan : (spanDigits q).1 ++ (spanDigits q).2 = q := List.takeWhile_append_dropWhile
  have hdigits : ∀ c ∈ (spanDigits q).1, IsDigit c := by
    intro c hc
    have hmem := List.mem_takeWhile_imp hc
    exact of_decide_eq_true hmem
  split at h
  · cases h
  · rename_i digits' rest' hne heq
    obtain ⟨rfl, rfl, rfl⟩ : sign = negative ∧ digits' = digits ∧ rest' = rest := by
      simpa using Option.some.inj h
    rw [heq] at hspan hdigits
    exact ⟨rfl, ⟨hne, hdigits⟩, hspan.symm⟩

/-- What `strtol` has read is a number. -/
theorem number_of_scanInteger {p digits rest : Bytes} {negative : Bool}
    (h : scanInteger p = some (negative, digits, rest)) :
    ∃ w number, Spaces w ∧ p = w ++ (number ++ rest) ∧
      DecimalNumber number
        (if negative then -(digitsValue digits : ℤ) else digitsValue digits) := by
  have hsplit : p = p.takeWhile (fun c => isspace c) ++ p.dropWhile (fun c => isspace c) :=
    List.takeWhile_append_dropWhile.symm
  have hsigned : ∀ {q : Bytes} {c : UInt8}, deref q = c → c ≠ 0 → q = c :: q.tail := by
    rintro q c rfl hne
    cases q with
    | nil => exact absurd rfl hne
    | cons b t => rfl
  obtain ⟨hsign, hd, hrest⟩ := digits_of_spanDigits h
  by_cases hminus : deref (p.dropWhile fun c => isspace c) = 0x2D
  · rw [if_pos (.inl hminus)] at hrest
    rw [decide_eq_true hminus] at hsign
    rw [hsigned hminus (by decide), hrest] at hsplit
    rw [← hsign]
    exact ⟨_, 0x2D :: digits, spaces_takeWhile p, hsplit, .minus hd⟩
  rw [decide_eq_false hminus] at hsign
  rw [← hsign]
  by_cases hplus : deref (p.dropWhile fun c => isspace c) = 0x2B
  · rw [if_pos (.inr hplus)] at hrest
    rw [hsigned hplus (by decide), hrest] at hsplit
    exact ⟨_, 0x2B :: digits, spaces_takeWhile p, hsplit, .plus hd⟩
  · rw [if_neg (by simp [hminus, hplus])] at hrest
    rw [hrest] at hsplit
    exact ⟨_, digits, spaces_takeWhile p, hsplit, .plain hd⟩

/-- What `strtol` has read is a number. -/
theorem number_of_strtol {p stop : Bytes} {v : ℤ} (h : strtol p = some (v, stop)) :
    ∃ w number k, Spaces w ∧ p = w ++ (number ++ stop) ∧ DecimalNumber number k ∧
      v = clampLong k := by
  unfold strtol at h
  split at h
  · cases h
  · rename_i negative digits rest hscan
    obtain ⟨rfl, rfl⟩ := Prod.mk.inj (Option.some.inj h)
    obtain ⟨w, number, hw, hp, hnumber⟩ := number_of_scanInteger hscan
    exact ⟨w, number, _, hw, hp, hnumber, rfl⟩

/-! ## The parser -/

/-- The loop does not see blanks at the end. -/
theorem parseLongArrayLoop_trimRight (maxCount : ℕ) (out : List ℤ) (p : Bytes) :
    parseLongArrayLoop maxCount out (trimRight p) = parseLongArrayLoop maxCount out p := by
  by_cases hp : trimRight p = []
  · have htrim : trim p = [] := by
      rw [← trim_trimRight, hp]
      rfl
    have hnumber : strtol [] = none := by decide
    rw [hp, parseLongArrayLoop, if_pos rfl, parseLongArrayLoop, htrim]
    split_ifs with hnil hclose hfull
    · rfl
    · exact absurd hclose (by decide)
    · rfl
    · split
      · rfl
      · rename_i hsome
        rw [hnumber] at hsome
        cases hsome
  · have hne : p ≠ [] := by
      rintro rfl
      exact hp rfl
    rw [parseLongArrayLoop, if_neg hp, trim_trimRight]
    conv_rhs => rw [parseLongArrayLoop, if_neg hne]

theorem separator_facts : ¬ isspace comma ∧ ¬ isspace rbracket ∧ ¬ IsDigit comma ∧
    ¬ IsDigit rbracket := by
  refine ⟨by decide, by decide, ?_, ?_⟩
  · rintro ⟨hle, -⟩
    exact absurd hle (by decide)
  · rintro ⟨-, hle⟩
    exact absurd hle (by decide)

/-- A byte that is no digit follows a number. -/
theorem not_digit_after {w : Bytes} (hw : Spaces w) {c : UInt8} (hc : ¬ IsDigit c) (t : Bytes) :
    ¬ IsDigit (deref (w ++ c :: t)) := by
  cases w with
  | nil => exact hc
  | cons b w =>
      intro hb
      exact digit_not_space hb (hw b List.mem_cons_self)

/-- One number and the separator behind it, as the loop sees them. -/
theorem trim_item {w number w' : Bytes} {k : ℤ} {c : UInt8} (hw : Spaces w)
    (hk : DecimalNumber number k) (hc : ¬ isspace c) (text : Bytes) :
    trim (w ++ (number ++ (w' ++ c :: text))) = number ++ (w' ++ c :: trimRight text) := by
  have hfirst : (number ++ (w' ++ c :: text)).dropWhile (fun c => isspace c) =
      number ++ (w' ++ c :: text) := by
    have hsigns : ¬ isspace 0x2B ∧ ¬ isspace 0x2D := by decide
    cases hk with
    | plain h =>
        obtain ⟨b, t, rfl⟩ := List.exists_cons_of_ne_nil h.1
        have hb := digit_not_space (h.2 b List.mem_cons_self)
        exact List.dropWhile_cons_of_neg (by simpa using hb)
    | plus h => exact List.dropWhile_cons_of_neg (by simpa using hsigns.1)
    | minus h => exact List.dropWhile_cons_of_neg (by simpa using hsigns.2)
  rw [trim_spaces hw, trim_eq, hfirst, ← List.append_assoc, trimRight_append hc,
    List.append_assoc]

theorem DecimalNumber.ne_nil {number : Bytes} {k : ℤ} (h : DecimalNumber number k) :
    number ≠ [] := by
  cases h with
  | plain h => exact h.1
  | plus h => exact List.cons_ne_nil _ _
  | minus h => exact List.cons_ne_nil _ _

/-- A number does not start like the end of a list. -/
theorem DecimalNumber.deref_ne {number : Bytes} {k : ℤ} (h : DecimalNumber number k)
    (rest : Bytes) : deref (number ++ rest) ≠ rbracket := by
  cases h with
  | plain h =>
      obtain ⟨b, t, rfl⟩ := List.exists_cons_of_ne_nil h.1
      intro hb
      rw [List.cons_append, deref_cons] at hb
      exact separator_facts.2.2.2 (hb ▸ h.2 b List.mem_cons_self)
  | plus h => exact (by decide : (0x2B : UInt8) ≠ rbracket)
  | minus h => exact (by decide : (0x2D : UInt8) ≠ rbracket)

/-- One iteration on a number that a separator follows. -/
theorem parseLongArrayLoop_item {maxCount : ℕ} {out : List ℤ} {w number w' : Bytes} {k : ℤ}
    {c : UInt8} (hw : Spaces w) (hk : DecimalNumber number k) (hw' : Spaces w')
    (hspace : ¬ isspace c) (hdigit : ¬ IsDigit c) (text : Bytes) :
    parseLongArrayLoop maxCount out (w ++ (number ++ (w' ++ c :: text))) =
      if out.length ≥ maxCount then none
      else if c = comma then parseLongArrayLoop maxCount (out ++ [clampLong k]) text
      else if c = rbracket then some (out ++ [clampLong k])
      else none := by
  have hne : w ++ (number ++ (w' ++ c :: text)) ≠ [] := by simp [hk.ne_nil]
  have hnumber : strtol (trim (w ++ (number ++ (w' ++ c :: text)))) =
      some (clampLong k, w' ++ c :: trimRight text) := by
    rw [trim_item hw hk hspace]
    exact strtol_number hk (not_digit_after hw' hdigit _)
  have hopen : deref (trim (w ++ (number ++ (w' ++ c :: text)))) ≠ rbracket := by
    rw [trim_item hw hk hspace]
    exact hk.deref_ne _
  have hstop : (w' ++ c :: trimRight text).dropWhile (fun c => isspace c) =
      c :: trimRight text := by
    rw [dropWhile_spaces hw', List.dropWhile_cons_of_neg (by simpa using hspace)]
  rw [parseLongArrayLoop, if_neg hne, if_neg hopen]
  by_cases hfull : out.length ≥ maxCount
  · rw [if_pos hfull, if_pos hfull]
  rw [if_neg hfull, if_neg hfull]
  split
  · rename_i hnone
    rw [hnumber] at hnone
    cases hnone
  · rename_i parsed stop hsome
    rw [hnumber] at hsome
    obtain ⟨rfl, rfl⟩ := Prod.mk.inj (Option.some.inj hsome)
    split
    · rename_i hnil
      rw [hstop] at hnil
      cases hnil
    · rename_i c' q hcons
      rw [hstop] at hcons
      obtain ⟨rfl, rfl⟩ := List.cons.inj hcons
      rw [parseLongArrayLoop_trimRight]

/-- A list is read when it has no more numbers than there is room for. -/
theorem parseLongArrayLoop_items {ids : List ℤ} {p : Bytes} (h : IdItems ids p) {maxCount : ℕ}
    {out : List ℤ} (hout : out.length ≤ maxCount) :
    parseLongArrayLoop maxCount out p =
      if out.length + ids.length ≤ maxCount then some (out ++ ids.map clampLong) else none := by
  obtain ⟨hcomma, hclose, hcomma', hclose'⟩ := separator_facts
  induction h generalizing out with
  | @close w rest hw =>
      have htrim : trim (w ++ rbracket :: rest) = rbracket :: trimRight rest := by
        rw [trim_spaces hw, trim_eq, List.dropWhile_cons_of_neg (by simpa using hclose),
          trimRight_cons hclose]
      rw [parseLongArrayLoop, if_neg (by simp), htrim, deref_cons, if_pos rfl]
      simp [hout]
  | last hw hk hw' =>
      have hne : rbracket ≠ comma := by decide
      rw [parseLongArrayLoop_item hw hk hw' hclose hclose', if_neg hne, if_pos rfl]
      simp only [List.length_singleton, List.map_singleton]
      split_ifs with hfull hfits
      · omega
      · rfl
      · rfl
      · omega
  | more hw hk hw' _ ih =>
      rw [parseLongArrayLoop_item hw hk hw' hcomma hcomma', if_pos rfl]
      by_cases hfull : out.length ≥ maxCount
      · rw [if_pos hfull, if_neg]
        rw [List.length_cons]
        omega
      · rw [if_neg hfull, ih (by rw [List.length_append, List.length_singleton]; omega)]
        simp only [List.length_append, List.length_cons, List.length_nil, List.map_cons,
          List.append_assoc, List.singleton_append]
        congr 1
        rw [eq_iff_iff]
        omega

/-- The number `strtol` has found in a trimmed text, and the separator behind it. -/
theorem item_of_strtol {p stop q : Bytes} {parsed : ℤ} {c : UInt8}
    (h : strtol (trim p) = some (parsed, stop))
    (hq : stop.dropWhile (fun c => isspace c) = c :: q) :
    ∃ w, Spaces w ∧ ∃ number k, DecimalNumber number k ∧ ∃ w', Spaces w' ∧
      ∃ u, p = w ++ (number ++ (w' ++ c :: (q ++ u))) := by
  obtain ⟨w, u, hw, -, hp⟩ := trim_split p
  obtain ⟨v, number, k, hv, htrim, hk, -⟩ := number_of_strtol h
  have hstop : stop = stop.takeWhile (fun c => isspace c) ++ c :: q := by
    rw [← hq, List.takeWhile_append_dropWhile]
  refine ⟨w ++ v, hw.append hv, number, k, hk, _, spaces_takeWhile stop, u, ?_⟩
  rw [hp, htrim]
  conv_lhs => rw [hstop]
  simp only [List.append_assoc, List.cons_append]

/-- Whatever is read is a list. -/
theorem items_of_parseLongArrayLoop {maxCount : ℕ} {out res : List ℤ} {p : Bytes}
    (h : parseLongArrayLoop maxCount out p = some res) : ∃ ids, IdItems ids p := by
  fun_induction parseLongArrayLoop maxCount out p with
  | case1 => cases h
  | case2 out p hne hclose =>
      obtain ⟨w, w', hw, hw', hp⟩ := trim_split p
      obtain ⟨t, ht⟩ : ∃ t, trim p = rbracket :: t := by
        cases htrim : trim p with
        | nil =>
            rw [htrim] at hclose
            exact absurd hclose (by decide)
        | cons c t =>
            rw [htrim, deref_cons] at hclose
            exact ⟨t, by rw [hclose]⟩
      rw [hp, ht]
      exact ⟨[], .close hw⟩
  | case3 => cases h
  | case4 => cases h
  | case5 => cases h
  | case6 out p hne hopen hfull parsed stop hnumber q hq ih =>
      obtain ⟨ids, hids⟩ := ih h
      obtain ⟨w, hw, number, k, hk, v, hv, u, hp⟩ := item_of_strtol hnumber hq
      rw [hp]
      exact ⟨k :: ids, .more hw hk hv (hids.append u)⟩
  | case7 out p hne hopen hfull parsed stop hnumber q hq hcomma =>
      obtain ⟨w, hw, number, k, hk, v, hv, u, hp⟩ := item_of_strtol hnumber hq
      rw [hp]
      exact ⟨[k], .last hw hk hv⟩
  | case8 => cases h

/-- `strchr` finds the first occurrence. -/
theorem strchr_eq_some {c : UInt8} {text found : Bytes} :
    strchr c text = some found ↔
      ∃ before rest, c ∉ before ∧ text = before ++ c :: rest ∧ found = c :: rest := by
  have hskip : ∀ before rest, c ∉ before →
      (before ++ c :: rest).dropWhile (· ≠ c) = c :: rest := by
    intro before rest hbefore
    have hpos : ∀ b ∈ before, decide (b ≠ c) = true :=
      fun b hb => decide_eq_true fun heq => hbefore (heq ▸ hb)
    rw [List.dropWhile_append_of_pos hpos, List.dropWhile_cons_of_neg (by simp)]
  constructor
  · intro h
    have hsplit : text = text.takeWhile (· ≠ c) ++ text.dropWhile (· ≠ c) :=
      List.takeWhile_append_dropWhile.symm
    unfold strchr at h
    split at h
    · cases h
    · rename_i d rest hd
      obtain rfl := Option.some.inj h
      have hc : d = c := by
        have hnot := List.head?_dropWhile_not (fun b => decide (b ≠ c)) text
        rw [hd] at hnot
        simpa using hnot
      rw [hd, hc] at hsplit
      refine ⟨_, rest, ?_, hsplit, by rw [hc]⟩
      intro hmem
      simpa using List.mem_takeWhile_imp hmem
  · rintro ⟨before, rest, hbefore, rfl, rfl⟩
    rw [strchr, hskip before rest hbefore]

/-- The lists that `parse_long_array` accepts, and what it makes of them. -/
theorem parseLongArray_eq_some {value : Bytes} {maxCount : ℕ} {res : List ℤ} :
    parseLongArray value maxCount = some res ↔
      ∃ before ids text, lbracket ∉ before ∧ value = before ++ lbracket :: text ∧
        IdItems ids text ∧ ids.length ≤ maxCount ∧ res = ids.map clampLong := by
  have hitems : ∀ {ids text}, IdItems ids text →
      (parseLongArrayLoop maxCount [] text = some res ↔
        ids.length ≤ maxCount ∧ res = ids.map clampLong) := by
    intro ids text hids
    rw [parseLongArrayLoop_items hids (Nat.zero_le maxCount), List.length_nil, Nat.zero_add,
      List.nil_append]
    split_ifs with hroom
    · rw [Option.some.injEq]
      exact ⟨fun h => ⟨hroom, h.symm⟩, fun h => h.2.symm⟩
    · exact ⟨nofun, fun h => absurd h.1 hroom⟩
  unfold parseLongArray
  constructor
  · intro h
    split at h
    · cases h
    · rename_i start hstart
      obtain ⟨before, text, hbefore, hvalue, rfl⟩ := strchr_eq_some.mp hstart
      obtain ⟨ids, hids⟩ := items_of_parseLongArrayLoop h
      obtain ⟨hroom, hres⟩ := (hitems hids).mp h
      exact ⟨before, ids, text, hbefore, hvalue, hids, hroom, hres⟩
  · rintro ⟨before, ids, text, hbefore, hvalue, hids, hroom, hres⟩
    rw [strchr_eq_some.mpr ⟨before, text, hbefore, hvalue, rfl⟩]
    exact (hitems hids).mpr ⟨hroom, hres⟩

/-! ## Ids in a list -/

/-- The number is one of those in the bracketed list of a value. -/
def Lists (value : Bytes) (k : ℤ) : Prop :=
  ∃ before ids text, lbracket ∉ before ∧ value = before ++ lbracket :: text ∧
    IdItems ids text ∧ k ∈ ids

/-- A number in the range of a `long` is not clamped, and no other becomes it. -/
theorem clampLong_eq_iff {k j : ℤ} (hlow : -2 ^ 63 < j) (hhigh : j < 2 ^ 63 - 1) :
    clampLong k = j ↔ k = j := by
  unfold clampLong
  omega

/-- The ids that were read are those in the list. -/
theorem mem_parseLongArray_iff {value : Bytes} {maxCount : ℕ} {res : List ℤ}
    (h : parseLongArray value maxCount = some res) (id : UInt32) :
    (id.toNat : ℤ) ∈ res ↔ Lists value id.toNat := by
  have hid := id.toNat_lt
  have hclamp : ∀ k : ℤ, clampLong k = id.toNat ↔ k = id.toNat :=
    fun k => clampLong_eq_iff (by omega) (by omega)
  have hmem : ∀ ids : List ℤ, (id.toNat : ℤ) ∈ ids.map clampLong ↔ (id.toNat : ℤ) ∈ ids := by
    intro ids
    rw [List.mem_map]
    constructor
    · rintro ⟨k, hk, heq⟩
      rwa [(hclamp k).mp heq] at hk
    · intro hk
      exact ⟨_, hk, (hclamp _).mpr rfl⟩
  constructor
  · intro hres
    obtain ⟨before, ids, text, hbefore, hvalue, hids, -, rfl⟩ := parseLongArray_eq_some.mp h
    exact ⟨before, ids, text, hbefore, hvalue, hids, (hmem ids).mp hres⟩
  · rintro ⟨before, ids, text, hbefore, hvalue, hids, hk⟩
    have hstart : strchr lbracket value = some (lbracket :: text) :=
      strchr_eq_some.mpr ⟨before, text, hbefore, hvalue, rfl⟩
    rw [parseLongArray, hstart] at h
    simp only [List.tail_cons] at h
    rw [parseLongArrayLoop_items hids (Nat.zero_le maxCount)] at h
    split_ifs at h
    obtain rfl := Option.some.inj h
    exact (hmem ids).mpr hk

end AnythingTool
