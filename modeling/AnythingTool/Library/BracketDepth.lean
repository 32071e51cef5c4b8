import AnythingTool.Library.JsonText
import Mathlib.Tactic.Ring

/-!
# Bracket depth outside string literals

`scan` reads a text from left to right and keeps the number of brackets opened
and not yet closed, counting `{`, `}`, `[` and `]` outside string literals only.
A quote outside a literal opens one; inside, a backslash protects the next byte
and a quote closes it. The text may be malformed: the depth can become negative
and a literal can stay open.

`Flat t` says that reading `t` outside literals leaves the depth alone at every byte,
`Neutral t` that it does so on the whole: literals are flat, balanced texts neutral.
`ClosesAtEnd s t` says that what is open in `s` is closed by the last byte of `t` and
by none before it. Flat pieces of a text do not matter for that.
-/

namespace JsonText

open CText

/-- Where the reader stands with respect to string literals. -/
inductive Mode
  | outside
  | inside
  | escaped
deriving DecidableEq, Repr

/-- The state of the reader. -/
@[ext] structure Lex where
  depth : ℤ
  mode : Mode
deriving DecidableEq, Repr

namespace Lex

def step (s : Lex) (c : UInt8) : Lex :=
  match s.mode with
  | .escaped => { s with mode := .inside }
  | .inside =>
      if c = backslash then { s with mode := .escaped }
      else if c = quote then { s with mode := .outside }
      else s
  | .outside =>
      if c = quote then { s with mode := .inside }
      else if c = lbrace ∨ c = lbracket then { s with depth := s.depth + 1 }
      else if c = rbrace ∨ c = rbracket then { s with depth := s.depth - 1 }
      else s

/-- The reader after a text. -/
def scan (s : Lex) (t : Bytes) : Lex := t.foldl step s

@[simp] theorem scan_nil (s : Lex) : s.scan [] = s := rfl

@[simp] theorem scan_cons (s : Lex) (c : UInt8) (t : Bytes) :
    s.scan (c :: t) = (s.step c).scan t := rfl

theorem scan_append (s : Lex) (t u : Bytes) :
    s.scan (t ++ u) = (s.scan t).scan u := by
  simp [scan, List.foldl_append]

/-- Moving the starting depth moves the final depth by as much. -/
theorem step_shift (s : Lex) (k : ℤ) (c : UInt8) :
    (Lex.mk (s.depth + k) s.mode).step c =
      ⟨(s.step c).depth + k, (s.step c).mode⟩ := by
  obtain ⟨d, m⟩ := s
  cases m with
  | escaped => rfl
  | inside =>
      simp only [step]
      split_ifs <;> rfl
  | outside =>
      simp only [step]
      split_ifs
      · rfl
      · rw [Lex.mk.injEq]
        exact ⟨by ring, rfl⟩
      · rw [Lex.mk.injEq]
        exact ⟨by ring, rfl⟩
      · rfl

theorem scan_shift (s : Lex) (k : ℤ) (t : Bytes) :
    (Lex.mk (s.depth + k) s.mode).scan t =
      ⟨(s.scan t).depth + k, (s.scan t).mode⟩ := by
  induction t generalizing s with
  | nil => rfl
  | cons c t ih => rw [scan_cons, scan_cons, step_shift, ih (s.step c)]

/-- A text read outside literals, at any depth, from what it does at depth zero. -/
theorem scan_outside (d : ℤ) (t : Bytes) :
    (Lex.mk d .outside).scan t =
      ⟨((Lex.mk 0 .outside).scan t).depth + d, ((Lex.mk 0 .outside).scan t).mode⟩ := by
  have hshift := scan_shift ⟨0, .outside⟩ d t
  rwa [zero_add] at hshift

end Lex

/-- From `s` on, no byte moves the depth, and the text ends outside literals. -/
def FlatFrom : Lex → Bytes → Prop
  | s, [] => s.mode = .outside
  | s, c :: t => (s.step c).depth = s.depth ∧ FlatFrom (s.step c) t

/-- Outside literals, no byte of the text moves the depth. -/
def Flat (t : Bytes) : Prop := ∀ d, FlatFrom ⟨d, .outside⟩ t

theorem FlatFrom.scan {s : Lex} {t : Bytes} (h : FlatFrom s t) :
    s.scan t = ⟨s.depth, .outside⟩ := by
  induction t generalizing s with
  | nil => exact Lex.ext rfl h
  | cons c t ih => rw [Lex.scan_cons, ih h.2, h.1]

theorem FlatFrom.append {s : Lex} {t u : Bytes} (ht : FlatFrom s t) (hu : Flat u) :
    FlatFrom s (t ++ u) := by
  induction t generalizing s with
  | nil =>
      obtain ⟨d, m⟩ := s
      obtain rfl : m = .outside := ht
      exact hu d
  | cons c t ih => exact ⟨ht.1, ih ht.2⟩

namespace Flat

theorem nil : Flat [] := fun _ => rfl

theorem append {t u : Bytes} (ht : Flat t) (hu : Flat u) : Flat (t ++ u) :=
  fun d => (ht d).append hu

theorem plain {c : UInt8} (h : Plain c) : Flat [c] := by
  intro d
  obtain ⟨-, hq, hlb, hrb, hls, hrs⟩ := h
  simp [FlatFrom, Lex.step, hq, hlb, hrb, hls, hrs]

theorem of_plain {t : Bytes} (h : ∀ c ∈ t, Plain c) : Flat t := by
  induction t with
  | nil => exact nil
  | cons c t ih =>
      exact append (plain (h c (by simp))) (ih fun c hc => h c (by simp [hc]))

theorem cons {c : UInt8} {t : Bytes} (hc : Plain c) (ht : Flat t) : Flat (c :: t) :=
  append (plain hc) ht

end Flat

/-- Between two quotes the depth stays what it is. -/
theorem StringBody.flatFrom {raw dec : Bytes} (h : StringBody raw dec) (d : ℤ) :
    FlatFrom ⟨d, .inside⟩ (raw ++ [quote]) := by
  induction h with
  | nil => exact ⟨rfl, rfl⟩
  | @plain c _ _ hc _ ih =>
      have hstep : (Lex.mk d .inside).step c = ⟨d, .inside⟩ := by
        simp only [Lex.step]
        rw [if_neg hc.2.2, if_neg hc.2.1]
      refine ⟨by rw [hstep], ?_⟩
      rw [hstep]
      exact ih
  | escape _ _ ih => exact ⟨rfl, rfl, ih⟩

theorem Flat.literal {raw dec : Bytes} (h : StringBody raw dec) : Flat (literal raw) :=
  fun d => ⟨rfl, h.flatFrom d⟩

/-- Reading the text outside literals, at any depth, ends where it began. -/
def Neutral (t : Bytes) : Prop :=
  ∀ d, (Lex.mk d .outside).scan t = ⟨d, .outside⟩

theorem Flat.neutral {t : Bytes} (h : Flat t) : Neutral t := fun d => (h d).scan

theorem Balanced.neutral {t : Bytes} (h : Balanced t) : Neutral t := by
  induction h with
  | nil => exact Flat.nil.neutral
  | plain h => exact (Flat.plain h).neutral
  | literal h => exact (Flat.literal h).neutral
  | braces _ ih =>
      intro d
      have hopen : (Lex.mk d .outside).step lbrace = ⟨d + 1, .outside⟩ := rfl
      have hclose : (Lex.mk (d + 1) .outside).step rbrace = ⟨d + 1 - 1, .outside⟩ := rfl
      rw [List.cons_append, Lex.scan_cons, hopen, Lex.scan_append, ih (d + 1),
        Lex.scan_cons, hclose, add_sub_cancel_right, Lex.scan_nil]
  | brackets _ ih =>
      intro d
      have hopen : (Lex.mk d .outside).step lbracket = ⟨d + 1, .outside⟩ := rfl
      have hclose : (Lex.mk (d + 1) .outside).step rbracket = ⟨d + 1 - 1, .outside⟩ := rfl
      rw [List.cons_append, Lex.scan_cons, hopen, Lex.scan_append, ih (d + 1),
        Lex.scan_cons, hclose, add_sub_cancel_right, Lex.scan_nil]
  | append _ _ ih₁ ih₂ =>
      intro d
      rw [Lex.scan_append, ih₁ d, ih₂ d]

/-! ## Where everything is closed -/

/-- From `s` on something is open in front of each byte, and nothing behind the last. -/
def ClosesAtEnd : Lex → Bytes → Prop
  | s, [] => s = ⟨0, .outside⟩
  | s, c :: t => 0 < s.depth ∧ ClosesAtEnd (s.step c) t

instance decidableClosesAtEnd : ∀ (s : Lex) (t : Bytes), Decidable (ClosesAtEnd s t)
  | s, [] => inferInstanceAs (Decidable (s = ⟨0, .outside⟩))
  | s, c :: t =>
      haveI := decidableClosesAtEnd (s.step c) t
      inferInstanceAs (Decidable (0 < s.depth ∧ ClosesAtEnd (s.step c) t))

end JsonText
