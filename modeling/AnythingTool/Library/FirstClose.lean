import AnythingTool.Library.BracketDepth
import AnythingTool.Library.PrefixCode

/-!
# Where a bracket is closed

The reader of `BracketDepth` with one kind of bracket only; the depth there is the sum of
the two kinds (`Lex.scan_eq_counts`). A text that starts with an
opening bracket is closed at the end of its shortest prefix in which as many brackets are
closed as opened, outside of literals. Literals are read leniently here: a backslash
protects any byte.
-/

namespace JsonText

open CText PrefixCode

namespace Lex

variable (op cl : UInt8)

/-- One byte, where only the brackets `op` and `cl` count. -/
def count (s : Lex) (c : UInt8) : Lex :=
  match s.mode with
  | .escaped => { s with mode := .inside }
  | .inside =>
      if c = backslash then { s with mode := .escaped }
      else if c = quote then { s with mode := .outside }
      else s
  | .outside =>
      if c = quote then { s with mode := .inside }
      else if c = op then { s with depth := s.depth + 1 }
      else if c = cl then { s with depth := s.depth - 1 }
      else s

/-- The reader after a text. -/
def counts (s : Lex) (t : Bytes) : Lex := t.foldl (count op cl) s

@[simp] theorem counts_nil (s : Lex) : s.counts op cl [] = s := rfl

@[simp] theorem counts_cons (s : Lex) (c : UInt8) (t : Bytes) :
    s.counts op cl (c :: t) = (s.count op cl c).counts op cl t := rfl

/-- Neither the depth nor the brackets that count matter for the literals. -/
theorem count_mode (d e : ℤ) (m : Mode) (c : UInt8) :
    ((Lex.mk d m).count op cl c).mode = ((Lex.mk e m).step c).mode := by
  cases m with
  | escaped => rfl
  | inside =>
      simp only [count, step]
      split_ifs <;> rfl
  | outside =>
      simp only [count, step]
      split_ifs <;> rfl

/-- Each byte is counted with the brackets of its own kind. -/
theorem step_depth (d e : ℤ) (m : Mode) (c : UInt8) :
    ((Lex.mk (d + e) m).step c).depth =
      ((Lex.mk d m).count lbrace rbrace c).depth +
        ((Lex.mk e m).count lbracket rbracket c).depth := by
  cases m with
  | escaped => rfl
  | inside =>
      simp only [count, step]
      split_ifs <;> rfl
  | outside =>
      by_cases hbrace : c = lbrace
      · subst hbrace
        exact add_right_comm d e 1
      by_cases hbracket : c = lbracket
      · subst hbracket
        exact add_assoc d e 1
      by_cases hclose : c = rbrace
      · subst hclose
        exact (sub_add_eq_add_sub d 1 e).symm
      by_cases hclose' : c = rbracket
      · subst hclose'
        exact add_sub_assoc d e 1
      · simp only [count, step, hbrace, hbracket, hclose, hclose', or_self, if_false]
        split_ifs <;> rfl

/-- Braces and square brackets can be counted one after the other. -/
theorem scan_eq_counts (d e : ℤ) (m : Mode) (t : Bytes) :
    (Lex.mk (d + e) m).scan t =
        ⟨((Lex.mk d m).counts lbrace rbrace t).depth +
          ((Lex.mk e m).counts lbracket rbracket t).depth,
          ((Lex.mk d m).counts lbrace rbrace t).mode⟩ ∧
      ((Lex.mk d m).counts lbrace rbrace t).mode =
        ((Lex.mk e m).counts lbracket rbracket t).mode := by
  induction t generalizing d e m with
  | nil => exact ⟨rfl, rfl⟩
  | cons c t ih =>
      have hstep : (Lex.mk (d + e) m).step c =
          ⟨((Lex.mk d m).count lbrace rbrace c).depth +
            ((Lex.mk e m).count lbracket rbracket c).depth,
            ((Lex.mk d m).count lbrace rbrace c).mode⟩ :=
        Lex.ext (step_depth d e m c) (count_mode lbrace rbrace d (d + e) m c).symm
      have hmode : ((Lex.mk d m).count lbrace rbrace c).mode =
          ((Lex.mk e m).count lbracket rbracket c).mode :=
        (count_mode lbrace rbrace d e m c).trans (count_mode lbracket rbracket e e m c).symm
      have hrest := ih ((Lex.mk d m).count lbrace rbrace c).depth
        ((Lex.mk e m).count lbracket rbracket c).depth ((Lex.mk d m).count lbrace rbrace c).mode
      rw [hmode] at hrest hstep
      rw [Lex.scan_cons, hstep, counts_cons, counts_cons, hrest.1]
      have heta : Lex.mk ((Lex.mk d m).count lbrace rbrace c).depth
          ((Lex.mk e m).count lbracket rbracket c).mode = (Lex.mk d m).count lbrace rbrace c :=
        Lex.ext rfl hmode.symm
      rw [heta] at hrest ⊢
      exact ⟨rfl, hrest.2⟩

end Lex

/-- Reading the text from `s` on ends outside literals with nothing open. -/
def Closes (op cl : UInt8) (s : Lex) (t : Bytes) : Prop := s.counts op cl t = ⟨0, .outside⟩

/-- A literal starts at each quote outside literals; the reader has seen what is in front
of `i`. -/
def LiteralStarts (op cl : UInt8) (s : Lex) (p : Bytes) (i : ℕ) : Prop :=
  (s.counts op cl (p.take i)).mode = .outside ∧ deref (p.drop i) = quote

/-- The literals of `p` that start within its first `k` bytes are accepted. -/
def LiteralsAccepted (accepts : Bytes → Prop) (op cl : UInt8) (s : Lex) (p : Bytes) (k : ℕ) :
    Prop :=
  ∀ i < k, LiteralStarts op cl s p i → accepts (p.drop i)

section Close

variable {op cl : UInt8} {d : ℤ} {s : Lex} {c : UInt8} {p t u : Bytes}

theorem not_closes_nil (h : s.depth ≠ 0) : ¬ Closes op cl s [] := by
  intro hcloses
  exact h (congrArg Lex.depth hcloses)

/-- Where something is open, the first byte is part of the shortest prefix that closes it. -/
theorem shortestClose_cons (h : s.depth ≠ 0) :
    ShortestPrefix (Closes op cl s) (c :: u) t ↔
      ∃ t', t = c :: t' ∧ ShortestPrefix (Closes op cl (s.count op cl c)) u t' :=
  shortestPrefix_cons (not_closes_nil h)

theorem literalsAccepted_cons {accepts : Bytes → Prop} {k : ℕ} :
    LiteralsAccepted accepts op cl s (c :: p) (k + 1) ↔
      (s.mode = .outside → c = quote → accepts (c :: p)) ∧
        LiteralsAccepted accepts op cl (s.count op cl c) p k := by
  constructor
  · intro h
    refine ⟨fun hmode hc => h 0 (Nat.succ_pos k) ⟨hmode, hc⟩, ?_⟩
    intro i hi hstarts
    exact h (i + 1) (Nat.succ_lt_succ hi) hstarts
  · rintro ⟨hfirst, hrest⟩ i hi hstarts
    cases i with
    | zero => exact hfirst hstarts.1 hstarts.2
    | succ i => exact hrest i (Nat.lt_of_succ_lt_succ hi) hstarts

theorem Lex.count_inside (hc : Unescaped c) :
    (Lex.mk d .inside).count op cl c = ⟨d, .inside⟩ := by
  simp only [Lex.count]
  rw [if_neg hc.2.2, if_neg hc.2.1]

/-- Brackets in a literal do not count. -/
theorem counts_literal {raw dec : Bytes} (hraw : StringBody raw dec) :
    (Lex.mk d .outside).counts op cl (literal raw ++ t) = (Lex.mk d .outside).counts op cl t := by
  have hbody : (Lex.mk d .inside).counts op cl (raw ++ quote :: t) =
      (Lex.mk d .outside).counts op cl t := by
    induction hraw with
    | nil => rfl
    | plain hc _ ih => rw [List.cons_append, Lex.counts_cons, Lex.count_inside hc, ih]
    | escape _ _ ih => exact ih
  have htext : literal raw ++ t = quote :: (raw ++ quote :: t) := by simp [literal]
  rw [htext, Lex.counts_cons]
  exact hbody

/-- The string at `p` is closed in front of `r`: what stands before `r` is the shortest
prefix that closes what is open in `s`, and its literals are accepted. -/
def ClosedAt (accepts : Bytes → Prop) (op cl : UInt8) (s : Lex) (p r : Bytes) : Prop :=
  ∃ t, p = t ++ r ∧ ShortestPrefix (Closes op cl s) (cstr p) t ∧
    LiteralsAccepted accepts op cl s p t.length

variable {accepts : Bytes → Prop} {r : Bytes}

theorem not_closedAt_of_end (hs : s.depth ≠ 0) (hp : deref p = 0) :
    ¬ ClosedAt accepts op cl s p r := by
  have hend : cstr p = [] := by
    cases p with
    | nil => rfl
    | cons c p =>
        obtain rfl : c = 0 := hp
        rfl
  rintro ⟨t, -, hshort, -⟩
  rw [hend] at hshort
  exact shortestPrefix_nil (not_closes_nil hs) hshort

/-- One byte of the string is read, with the literal that may start at it. -/
theorem closedAt_cons (hs : s.depth ≠ 0) (hc : c ≠ 0) :
    ClosedAt accepts op cl s (c :: p) r ↔
      (s.mode = .outside → c = quote → accepts (c :: p)) ∧
        ClosedAt accepts op cl (s.count op cl c) p r := by
  have hcstr : cstr (c :: p) = c :: cstr p := by
    simp [cstr, hc]
  constructor
  · rintro ⟨t, hp, hshort, hliterals⟩
    rw [hcstr] at hshort
    obtain ⟨t, rfl, hrest⟩ := (shortestClose_cons hs).mp hshort
    obtain ⟨hfirst, hliterals⟩ := literalsAccepted_cons.mp hliterals
    exact ⟨hfirst, t, (List.cons.inj hp).2, hrest, hliterals⟩
  · rintro ⟨hfirst, t, rfl, hshort, hliterals⟩
    refine ⟨c :: t, rfl, ?_, literalsAccepted_cons.mpr ⟨hfirst, hliterals⟩⟩
    rw [hcstr]
    exact (shortestClose_cons hs).mpr ⟨t, rfl, hshort⟩

theorem closedAt_other (hs : s.depth ≠ 0) (hc : c ≠ 0) (hquote : c ≠ quote) :
    ClosedAt accepts op cl s (c :: p) r ↔ ClosedAt accepts op cl (s.count op cl c) p r := by
  rw [closedAt_cons hs hc]
  exact and_iff_right fun _ heq => absurd heq hquote

/-- When nothing is open any more, the string is closed here. -/
theorem closedAt_zero : ClosedAt accepts op cl ⟨0, .outside⟩ p r ↔ p = r := by
  have hnil : Closes op cl ⟨0, .outside⟩ [] := rfl
  constructor
  · rintro ⟨t, hp, hshort, -⟩
    rw [hp, (shortestPrefix_of_nil hnil).mp hshort, List.nil_append]
  · rintro rfl
    refine ⟨[], rfl, (shortestPrefix_of_nil hnil).mpr rfl, ?_⟩
    intro i hi
    cases hi

/-- The reader passes over the rest of a literal. -/
theorem closedAt_body {raw dec : Bytes} (hbody : StringBody raw dec) (hd : d ≠ 0) :
    ClosedAt accepts op cl ⟨d, .inside⟩ (raw ++ quote :: p) r ↔
      ClosedAt accepts op cl ⟨d, .outside⟩ p r := by
  have hinside : ∀ {c : UInt8} {p : Bytes} {m : Mode}, m ≠ .outside → c ≠ 0 →
      (ClosedAt accepts op cl ⟨d, m⟩ (c :: p) r ↔
        ClosedAt accepts op cl ((Lex.mk d m).count op cl c) p r) := by
    intro c p m hm hc
    rw [closedAt_cons hd hc]
    exact and_iff_right fun hmode => absurd hmode hm
  induction hbody with
  | nil => exact hinside (by decide) (by decide)
  | plain hc _ ih =>
      rw [List.cons_append, hinside (by decide) hc.ne_zero, Lex.count_inside hc]
      exact ih
  | @escape e _ raw _ he _ ih =>
      have hescaped : (Lex.mk d .inside).count op cl backslash = ⟨d, .escaped⟩ := rfl
      have hstep : (Lex.mk d .escaped).count op cl e = ⟨d, .inside⟩ := rfl
      rw [List.cons_append, List.cons_append, hinside (by decide) (by decide), hescaped,
        hinside (by decide) (shortEscape_ne_zero he).1, hstep]
      exact ih

end Close

end JsonText
