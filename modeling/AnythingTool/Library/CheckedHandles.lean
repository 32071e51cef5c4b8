import Mathlib.Data.Finset.Basic

/-!
# Runs that hold handles

A process asks the system for handles, uses them and gives them back. A run goes over the
set of handles that are held: to use or to give back a handle that is not held stops it, and
so does reading a buffer that was never filled. A run that is not stopped and leaves the set
as it was has given back all it took, each handle once.

How the system picks the handles is a parameter; all that is known is that a picked handle is
not held already.
-/

namespace CheckedHandles

/-- Why a run is stopped. -/
inductive Stop
  | notHeld
  | notFilled
deriving DecidableEq, Repr

abbrev Sys (η α : Type) := StateT (Finset η) (Except Stop) α

/-- How the system picks a handle to give out. -/
structure Allocator (η : Type) where
  pick : Finset η → η
  fresh : ∀ held, pick held ∉ held

section Calls

variable {η : Type}

/-- What is in a buffer that may have been left unfilled. -/
def filled {α : Type} (buffer : Option α) : Sys η α :=
  fun held =>
    match buffer with
    | some a => .ok (a, held)
    | none => .error .notFilled

/-- The process is gone, and the system takes back what it held. -/
def abandon : Sys η Unit := fun _ => .ok ((), ∅)

variable [DecidableEq η]

def acquire (A : Allocator η) : Sys η η :=
  fun held => .ok (A.pick held, insert (A.pick held) held)

def use (h : η) : Sys η Unit :=
  fun held => if h ∈ held then .ok ((), held) else .error .notHeld

def release (h : η) : Sys η Unit :=
  fun held => if h ∈ held then .ok ((), held.erase h) else .error .notHeld

end Calls

section Rules

variable {η α β : Type} {held : Finset η}

@[simp] theorem pure_run (a : α) : (pure a : Sys η α) held = .ok (a, held) := rfl

/-- A run that is not stopped goes on with its value. -/
theorem bind_run {p : Sys η α} {f : α → Sys η β} {a : α} {held' : Finset η}
    (hp : p held = .ok (a, held')) : (p >>= f) held = f a held' := by
  change (p held >>= fun r => f r.1 r.2) = _
  rw [hp]
  rfl

theorem filled_bind (a : α) (f : α → Sys η β) : (filled (some a) >>= f) held = f a held := rfl

variable [DecidableEq η] {h : η} {A : Allocator η}

theorem acquire_bind (f : η → Sys η β) :
    (acquire A >>= f) held = f (A.pick held) (insert (A.pick held) held) :=
  rfl

theorem use_run (hh : h ∈ held) : use h held = .ok ((), held) := if_pos hh

theorem use_bind (hh : h ∈ held) (f : Unit → Sys η β) : (use h >>= f) held = f () held :=
  bind_run (use_run hh)

theorem release_run (hh : h ∉ held) : release h (insert h held) = .ok ((), held) := by
  rw [release, if_pos (Finset.mem_insert_self h held), Finset.erase_insert hh]

theorem release_bind (hh : h ∉ held) (f : Unit → Sys η β) :
    (release h >>= f) (insert h held) = f () held :=
  bind_run (release_run hh)

end Rules

end CheckedHandles
