import AnythingTool.Library.Machine

/-!
# Refinement between machines

One step of a concrete machine stands for some steps of an abstract one: `abs` reads the
abstract state off the concrete one, `feed` says for which inputs a step stands, and
`reports` which outputs of the abstract machine show in the concrete output. What is checked
for one step holds of whole runs: they lead to the state of the abstract run (`abs_run`) and
report its outputs (`outputs_run`), so what is known of all runs of the abstract machine is
known of the concrete one. Refinements compose.
-/

namespace Transition

variable {σ ι ο τ κ π υ μ ν : Type*}

/-- The steps of `C`, from states that satisfy an invariant, are steps of `A`. -/
structure Refinement (C : Machine σ ι ο) (A : Machine τ κ π) where
  Inv : σ → Prop
  abs : σ → τ
  feed : σ → ι → List κ
  reports : ο → List π
  inv_init : Inv C.init
  inv_step : ∀ s i, Inv s → Inv (C.step s i).1
  abs_init : abs C.init = A.init
  abs_step : ∀ s i, Inv s → abs (C.step s i).1 = A.runFrom (abs s) (feed s i)
  outputs_step : ∀ s i, Inv s →
    reports (C.step s i).2 = (A.historyFrom (abs s) (feed s i)).map Record.output

namespace Refinement

variable {C : Machine σ ι ο} {A : Machine τ κ π} {B : Machine υ μ ν} (R : Refinement C A)

/-- The inputs of the abstract machine that a run stands for. -/
def inputsFrom (s : σ) (is : List ι) : List κ :=
  (C.historyFrom s is).flatMap fun r => R.feed r.before r.input

def inputs (is : List ι) : List κ := R.inputsFrom C.init is

theorem inputsFrom_cons (s : σ) (i : ι) (is : List ι) :
    R.inputsFrom s (i :: is) = R.feed s i ++ R.inputsFrom (C.step s i).1 is :=
  rfl

theorem inv_runFrom {s : σ} (h : R.Inv s) (is : List ι) : R.Inv (C.runFrom s is) := by
  induction is generalizing s with
  | nil => exact h
  | cons i is ih => exact ih (R.inv_step s i h)

theorem abs_runFrom {s : σ} (h : R.Inv s) (is : List ι) :
    R.abs (C.runFrom s is) = A.runFrom (R.abs s) (R.inputsFrom s is) := by
  induction is generalizing s with
  | nil => rfl
  | cons i is ih =>
      rw [inputsFrom_cons, Machine.runFrom_append, Machine.runFrom_cons,
        ih (R.inv_step s i h), R.abs_step s i h]

theorem abs_run (is : List ι) : R.abs (C.run is) = A.run (R.inputs is) := by
  rw [Machine.run, R.abs_runFrom R.inv_init is, R.abs_init]
  rfl

theorem outputs_runFrom {s : σ} (h : R.Inv s) (is : List ι) :
    ((C.historyFrom s is).flatMap fun r => R.reports r.output) =
      (A.historyFrom (R.abs s) (R.inputsFrom s is)).map Record.output := by
  induction is generalizing s with
  | nil => rfl
  | cons i is ih =>
      rw [inputsFrom_cons, Machine.historyFrom_append, List.map_append,
        ← R.outputs_step s i h, ← R.abs_step s i h, ← ih (R.inv_step s i h)]
      rfl

theorem outputs_run (is : List ι) :
    ((C.history is).flatMap fun r => R.reports r.output) =
      (A.history (R.inputs is)).map Record.output := by
  rw [Machine.history, R.outputs_runFrom R.inv_init is, R.abs_init]
  rfl

/-- A refinement of a refinement. -/
def trans (S : Refinement A B) : Refinement C B where
  Inv s := R.Inv s ∧ S.Inv (R.abs s)
  abs s := S.abs (R.abs s)
  feed s i := S.inputsFrom (R.abs s) (R.feed s i)
  reports o := (R.reports o).flatMap S.reports
  inv_init := ⟨R.inv_init, R.abs_init ▸ S.inv_init⟩
  inv_step s i h := by
    refine ⟨R.inv_step s i h.1, ?_⟩
    rw [R.abs_step s i h.1]
    exact S.inv_runFrom h.2 _
  abs_init := by rw [R.abs_init, S.abs_init]
  abs_step s i h := by rw [R.abs_step s i h.1, S.abs_runFrom h.2]
  outputs_step s i h := by
    rw [R.outputs_step s i h.1, ← S.outputs_runFrom h.2, List.flatMap_map]

end Refinement

end Transition
