import Mathlib.Data.List.Basic
import Mathlib.Data.Set.Basic

/-!
# Prefix-free texts and codes

A set of texts is prefix-free when a text of the set can be split off the front of any
longer text in one way only. A code gives each symbol a text; when the texts of different
symbols can be told apart at the front of a longer text, the texts of whole messages can
be told apart as well.

The shortest prefix of a text with some property is found in one way, too, and the texts
that are their own shortest prefixes are prefix-free.
-/

namespace PrefixCode

variable {α β : Type*}

/-- A text of the set is split off in one way. -/
def PrefixFree (S : Set (List β)) : Prop :=
  ∀ ⦃s⦄, s ∈ S → ∀ ⦃t⦄, t ∈ S → ∀ x y, s ++ x = t ++ y → s = t

/-- The code of a symbol is split off in one way. -/
def IsPrefixCode (f : α → List β) : Prop :=
  ∀ a b x y, f a ++ x = f b ++ y → a = b

/-- What stands behind a text of the set is determined, too. -/
theorem PrefixFree.append_inj {S : Set (List β)} (h : PrefixFree S) {s t x y : List β}
    (hs : s ∈ S) (ht : t ∈ S) (heq : s ++ x = t ++ y) : s = t ∧ x = y := by
  obtain rfl := h hs ht x y heq
  exact ⟨rfl, List.append_cancel_left heq⟩

/-- The texts that a scanner stops behind, whatever follows them. -/
theorem prefixFree_of_scan (scan : List β → Option (List β)) :
    PrefixFree {t | ∀ r, scan (t ++ r) = some r} := by
  intro s hs t ht x y heq
  have hscan := hs x
  rw [heq, ht y] at hscan
  obtain rfl := Option.some.inj hscan
  exact List.append_cancel_right heq

/-- Messages with the same text are the same. -/
theorem IsPrefixCode.flatMap_injective {f : α → List β} (h : IsPrefixCode f)
    (hne : ∀ a, f a ≠ []) : Function.Injective (List.flatMap f) := by
  intro s
  induction s with
  | nil =>
      intro t heq
      cases t with
      | nil => rfl
      | cons b t =>
          have hnil : f b ++ t.flatMap f = [] := heq.symm
          exact absurd (List.append_eq_nil_iff.mp hnil).1 (hne b)
  | cons a s ih =>
      intro t heq
      cases t with
      | nil =>
          have hnil : f a ++ s.flatMap f = [] := heq
          exact absurd (List.append_eq_nil_iff.mp hnil).1 (hne a)
      | cons b t =>
          have heq : f a ++ s.flatMap f = f b ++ t.flatMap f := heq
          obtain rfl := h a b _ _ heq
          rw [ih (List.append_cancel_left heq)]

/-! ## Shortest prefixes -/

/-- `t` is the shortest prefix of `u` with the property. -/
structure ShortestPrefix (P : List β → Prop) (u t : List β) : Prop where
  isPrefix : t <+: u
  holds : P t
  shortest : ∀ s, s <+: u → P s → t.length ≤ s.length

section ShortestPrefix

variable {P Q : List β → Prop} {u t : List β} {c : β}

theorem ShortestPrefix.unique {t' : List β} (h : ShortestPrefix P u t)
    (h' : ShortestPrefix P u t') : t = t' := by
  have hle := h.shortest t' h'.isPrefix h'.holds
  have hge := h'.shortest t h.isPrefix h.holds
  exact (List.prefix_of_prefix_length_le h.isPrefix h'.isPrefix hle).eq_of_length
    (le_antisymm hle hge)

theorem ShortestPrefix.congr (hPQ : ∀ s, P s ↔ Q s) :
    ShortestPrefix P u t ↔ ShortestPrefix Q u t := by
  have heq : P = Q := funext fun s => propext (hPQ s)
  rw [heq]

/-- The shortest prefix is also the shortest one of anything that begins with it. -/
theorem ShortestPrefix.of_prefix (h : ShortestPrefix P u t) {v : List β} (hv : t <+: v) :
    ShortestPrefix P v t := by
  refine ⟨hv, h.holds, ?_⟩
  intro s hs hP
  by_contra hlt
  have hst : s <+: t := List.prefix_of_prefix_length_le hs hv (by omega)
  exact hlt (h.shortest s (hst.trans h.isPrefix) hP)

theorem ShortestPrefix.self (h : ShortestPrefix P u t) : ShortestPrefix P t t :=
  h.of_prefix (List.prefix_refl t)

theorem prefixFree_shortest (P : List β → Prop) : PrefixFree {t | ShortestPrefix P t t} := by
  intro s hs t ht x y heq
  have hs' : ShortestPrefix P (t ++ y) s := hs.of_prefix (heq ▸ List.prefix_append s x)
  exact hs'.unique (ht.of_prefix (List.prefix_append t y))

theorem shortestPrefix_nil (h : ¬ P []) : ¬ ShortestPrefix P [] t := by
  intro hshort
  obtain rfl := List.prefix_nil.mp hshort.isPrefix
  exact h hshort.holds

theorem shortestPrefix_of_nil (h : P []) : ShortestPrefix P u t ↔ t = [] := by
  constructor
  · intro hshort
    exact List.length_eq_zero_iff.mp
      (Nat.le_zero.mp (hshort.shortest [] List.nil_prefix h))
  · rintro rfl
    exact ⟨List.nil_prefix, h, fun s _ _ => Nat.zero_le _⟩

/-- A shortest prefix that is not empty begins with the first symbol. -/
theorem shortestPrefix_cons (h : ¬ P []) :
    ShortestPrefix P (c :: u) t ↔
      ∃ t', t = c :: t' ∧ ShortestPrefix (fun s => P (c :: s)) u t' := by
  constructor
  · intro hshort
    rcases List.prefix_cons_iff.mp hshort.isPrefix with rfl | ⟨t', rfl, ht'⟩
    · exact absurd hshort.holds h
    · refine ⟨t', rfl, ht', hshort.holds, ?_⟩
      intro s hs hP
      have hle := hshort.shortest (c :: s) (List.cons_prefix_cons.mpr ⟨rfl, hs⟩) hP
      simpa using hle
  · rintro ⟨t', rfl, hshort⟩
    refine ⟨List.cons_prefix_cons.mpr ⟨rfl, hshort.isPrefix⟩, hshort.holds, ?_⟩
    intro s hs hP
    rcases List.prefix_cons_iff.mp hs with rfl | ⟨s', rfl, hs'⟩
    · exact absurd hP h
    · simpa using hshort.shortest s' hs' hP

end ShortestPrefix

end PrefixCode
