import Mathlib.Data.List.Induction

/-!
# Deterministic machines and their histories

A machine takes one input at a time, moves its state and gives an output.
Every choice of the environment is part of the input, so a run is a list of
inputs and everything about it is a function of that list. The history of a run
keeps one record per step. The rules below reduce a statement about every run
to one about a single step: `invariant` for the state, `historyInvariant` for
the state together with what happened before it, and `related_runFrom` for the
two ends of a run.

`Since P Q h` is the past-time operator on histories: at some step `P` held, and
at every later one `Q` did.
-/

namespace Transition

/-- A deterministic machine with states `σ`, inputs `ι` and outputs `ο`. -/
structure Machine (σ ι ο : Type*) where
  init : σ
  step : σ → ι → σ × ο

/-- One step of a run: what it started from, what it was given, what it did. -/
structure Record (σ ι ο : Type*) where
  before : σ
  input : ι
  after : σ
  output : ο

namespace Machine

variable {σ ι ο : Type*} (M : Machine σ ι ο)

def record (s : σ) (i : ι) : Record σ ι ο :=
  ⟨s, i, (M.step s i).1, (M.step s i).2⟩

/-- The state after a run from `s`. -/
def runFrom (s : σ) (is : List ι) : σ :=
  is.foldl (fun s i => (M.step s i).1) s

def run (is : List ι) : σ := M.runFrom M.init is

/-- The records of a run from `s`, oldest first. -/
def historyFrom : σ → List ι → List (Record σ ι ο)
  | _, [] => []
  | s, i :: is => M.record s i :: historyFrom (M.step s i).1 is

def history (is : List ι) : List (Record σ ι ο) := M.historyFrom M.init is

@[simp] theorem runFrom_nil (s : σ) : M.runFrom s [] = s := rfl

@[simp] theorem run_nil : M.run [] = M.init := rfl

@[simp] theorem runFrom_cons (s : σ) (i : ι) (is : List ι) :
    M.runFrom s (i :: is) = M.runFrom (M.step s i).1 is := rfl

@[simp] theorem historyFrom_nil (s : σ) : M.historyFrom s [] = [] := rfl

@[simp] theorem history_nil : M.history [] = [] := rfl

@[simp] theorem historyFrom_cons (s : σ) (i : ι) (is : List ι) :
    M.historyFrom s (i :: is) = M.record s i :: M.historyFrom (M.step s i).1 is := rfl

theorem runFrom_append (s : σ) (is js : List ι) :
    M.runFrom s (is ++ js) = M.runFrom (M.runFrom s is) js := by
  simp [runFrom, List.foldl_append]

theorem run_append (is js : List ι) :
    M.run (is ++ js) = M.runFrom (M.run is) js :=
  M.runFrom_append _ is js

@[simp] theorem run_append_singleton (is : List ι) (i : ι) :
    M.run (is ++ [i]) = (M.step (M.run is) i).1 := by
  rw [run_append, runFrom_cons, runFrom_nil]

theorem historyFrom_append (s : σ) (is js : List ι) :
    M.historyFrom s (is ++ js) =
      M.historyFrom s is ++ M.historyFrom (M.runFrom s is) js := by
  induction is generalizing s with
  | nil => rfl
  | cons i is ih =>
      rw [List.cons_append, historyFrom_cons, historyFrom_cons, ih, runFrom_cons,
        List.cons_append]

@[simp] theorem history_append_singleton (is : List ι) (i : ι) :
    M.history (is ++ [i]) = M.history is ++ [M.record (M.run is) i] :=
  M.historyFrom_append _ is [i]

/-- A record of a run stands where the inputs before it lead. -/
theorem mem_history {is : List ι} {r : Record σ ι ο} (h : r ∈ M.history is) :
    ∃ pre i post, is = pre ++ i :: post ∧ r = M.record (M.run pre) i := by
  induction is using List.reverseRecOn with
  | nil => simp at h
  | append_singleton is i ih =>
      rw [history_append_singleton, List.mem_append, List.mem_singleton] at h
      rcases h with h | rfl
      · obtain ⟨pre, j, post, rfl, hr⟩ := ih h
        exact ⟨pre, j, post ++ [i], by simp, hr⟩
      · exact ⟨is, i, [], rfl, rfl⟩

/-! ## Invariant rules -/

/-- What holds initially and is kept by every step holds after every run. -/
theorem invariant {P : σ → Prop} (h0 : P M.init)
    (hstep : ∀ s i, P s → P (M.step s i).1) (is : List ι) : P (M.run is) := by
  induction is using List.reverseRecOn with
  | nil => exact h0
  | append_singleton is i ih =>
      rw [run_append_singleton]
      exact hstep _ i ih

/-- The same for a property of the state and of the history that led to it. The
steps may be restricted to the ones that meet a condition `A` on the state and
the input, and then so are the runs. -/
theorem historyInvariant {A : σ → ι → Prop} {P : List (Record σ ι ο) → σ → Prop}
    (h0 : P [] M.init)
    (hstep : ∀ h s i, A s i → P h s → P (h ++ [M.record s i]) (M.step s i).1)
    (is : List ι) (hA : ∀ r ∈ M.history is, A r.before r.input) :
    P (M.history is) (M.run is) := by
  induction is using List.reverseRecOn with
  | nil => exact h0
  | append_singleton is i ih =>
      rw [history_append_singleton, run_append_singleton]
      rw [history_append_singleton] at hA
      refine hstep _ _ _ (hA _ (by simp : M.record (M.run is) i ∈ _)) (ih ?_)
      intro r hr
      exact hA r (List.mem_append_left _ hr)

/-- A reflexive and transitive relation that every allowed step respects relates
the two ends of every allowed run. -/
theorem related_runFrom {A : σ → ι → Prop} {R : σ → σ → Prop}
    (hrefl : ∀ s, R s s) (htrans : ∀ s t u, R s t → R t u → R s u)
    (hstep : ∀ s i, A s i → R s (M.step s i).1) (s : σ) (is : List ι)
    (hA : ∀ r ∈ M.historyFrom s is, A r.before r.input) :
    R s (M.runFrom s is) := by
  induction is generalizing s with
  | nil => exact hrefl s
  | cons i is ih =>
      rw [historyFrom_cons] at hA
      rw [runFrom_cons]
      refine htrans _ _ _ (hstep s i (hA _ List.mem_cons_self : A s i)) (ih _ ?_)
      intro r hr
      exact hA r (List.mem_cons_of_mem _ hr)

end Machine

/-! ## Past-time operators -/

/-- `P` held at some step, and `Q` at every later one. -/
def Since {α : Type*} (P Q : α → Prop) (h : List α) : Prop :=
  ∃ h₁ r h₂, h = h₁ ++ r :: h₂ ∧ P r ∧ ∀ r' ∈ h₂, Q r'

theorem since_append_singleton {α : Type*} {P Q : α → Prop} {h : List α} {r : α} :
    Since P Q (h ++ [r]) ↔ P r ∨ (Since P Q h ∧ Q r) := by
  constructor
  · rintro ⟨h₁, r₀, h₂, heq, hP, hQ⟩
    rcases List.eq_nil_or_concat h₂ with rfl | ⟨h₂, r', rfl⟩
    · obtain ⟨-, hr⟩ := List.append_inj' heq rfl
      rw [List.cons.injEq] at hr
      exact .inl (hr.1 ▸ hP)
    · have heq' : h ++ [r] = (h₁ ++ r₀ :: h₂) ++ [r'] := by simpa using heq
      obtain ⟨hh, hr⟩ := List.append_inj' heq' rfl
      rw [List.cons.injEq] at hr
      exact .inr ⟨⟨h₁, r₀, h₂, hh, hP, fun q hq => hQ q (by simp [hq])⟩,
        hr.1 ▸ hQ r' (by simp)⟩
  · rintro (hP | ⟨⟨h₁, r₀, h₂, rfl, hP, hQ⟩, hr⟩)
    · exact ⟨h, r, [], rfl, hP, by simp⟩
    · refine ⟨h₁, r₀, h₂ ++ [r], by simp, hP, ?_⟩
      intro q hq
      rcases List.mem_append.mp hq with hq | hq
      · exact hQ q hq
      · rw [List.mem_singleton.mp hq]
        exact hr

end Transition
