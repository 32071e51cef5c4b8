import Mathlib.Logic.Function.Basic
import Mathlib.Data.List.Basic

/-!
# Checksums that are folded over a text

A checksum that takes a text letter by letter, each step of which can be undone both in the
state and in the letter, differs for two texts that differ in one letter. It promises nothing
for texts that differ in two.
-/

namespace Checksum

variable {σ α : Type*}

/-- A step loses neither the state nor the letter. -/
structure Lossless (step : σ → α → σ) : Prop where
  state : ∀ a, Function.Injective fun s => step s a
  letter : ∀ s, Function.Injective (step s)

/-- The texts have the same letters but for one. -/
def OneLetter (s t : List α) : Prop :=
  ∃ front a b back, s = front ++ a :: back ∧ t = front ++ b :: back ∧ a ≠ b

variable {step : σ → α → σ} {s t : List α}

theorem Lossless.foldl_injective (h : Lossless step) (s : List α) :
    Function.Injective fun init => s.foldl step init := by
  induction s with
  | nil => exact Function.injective_id
  | cons a s ih => exact ih.comp (h.state a)

theorem Lossless.detects (h : Lossless step) (init : σ) (hst : OneLetter s t) :
    s.foldl step init ≠ t.foldl step init := by
  obtain ⟨front, a, b, back, rfl, rfl, hab⟩ := hst
  rw [List.foldl_append, List.foldl_append, List.foldl_cons, List.foldl_cons]
  intro heq
  exact hab (h.letter _ (h.foldl_injective back heq))

theorem OneLetter.append_left (h : OneLetter s t) (r : List α) : OneLetter (r ++ s) (r ++ t) := by
  obtain ⟨front, a, b, back, rfl, rfl, hab⟩ := h
  exact ⟨r ++ front, a, b, back, by simp, by simp, hab⟩

theorem OneLetter.append_right (h : OneLetter s t) (r : List α) :
    OneLetter (s ++ r) (t ++ r) := by
  obtain ⟨front, a, b, back, rfl, rfl, hab⟩ := h
  exact ⟨front, a, b, back ++ r, by simp, by simp, hab⟩

end Checksum
