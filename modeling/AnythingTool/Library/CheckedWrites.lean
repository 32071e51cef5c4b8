import AnythingTool.Library.CString

/-!
# Runs that write into a buffer in memory

A buffer in memory is a list of bytes of fixed length, and a write outside of it stops a run.
`CString` has the string of such a buffer without the bytes behind the NUL; a run of a writer
`Leaves` what an operation on `CString` says when it is not stopped, answers alike and has
the string of the result in the buffer. When the operation fails, some string is left: the
buffer still has its NUL. `Leaves.next` and `Leaves.stop` are the rules for one writer behind another.
-/

namespace CheckedWrites

open CText

inductive Stop
  | outside
deriving DecidableEq, Repr

abbrev Run (α : Type) := StateT Bytes (Except Stop) α

/-- `out[k] = c` -/
def store (k : ℕ) (c : UInt8) : Run Unit := fun memory =>
  if k < memory.length then .ok ((), memory.set k c) else .error .outside

/-- `memcpy(out + k, s, len)` -/
def storeBytes : ℕ → Bytes → Run Unit
  | _, [] => pure ()
  | k, c :: s => do
      store k c
      storeBytes (k + 1) s

/-- `storeBytes` and the NUL behind the bytes. -/
def storeText (k : ℕ) (s : Bytes) : Run Unit := do
  storeBytes k s
  store (k + s.length) 0

/-- `snprintf(out + k, size, ...)` of a formatted text, with the length it returns. -/
def snprintf (k size : ℕ) (text : Bytes) : Run ℕ :=
  if size = 0 then pure text.length
  else do
    storeText k (text.take (size - 1))
    pure text.length

/-- The string in a buffer. -/
def Text (s memory : Bytes) : Prop := ∃ rest, memory = s ++ 0 :: rest

section Rules

variable {α β : Type} {memory memory' s t d rest : Bytes} {c : UInt8}

@[simp] theorem pure_run (a : α) : (pure a : Run α) memory = .ok (a, memory) := rfl

theorem bind_run {p : Run α} {f : α → Run β} {a : α} (hp : p memory = .ok (a, memory')) :
    (p >>= f) memory = f a memory' := by
  change (p memory >>= fun r => f r.1 r.2) = _
  rw [hp]
  rfl

theorem Text.length_lt (h : Text s memory) : s.length < memory.length := by
  obtain ⟨rest, rfl⟩ := h
  rw [List.length_append, List.length_cons]
  omega

theorem store_run (b : UInt8) : store s.length c (s ++ b :: rest) = .ok ((), s ++ c :: rest) := by
  have hlt : s.length < (s ++ b :: rest).length := by
    rw [List.length_append, List.length_cons]
    omega
  rw [store, if_pos hlt, List.set_append_right _ _ le_rfl, Nat.sub_self, List.set_cons_zero]

/-- A text is copied over as many bytes. -/
theorem storeBytes_run (h : d.length = t.length) :
    storeBytes s.length t (s ++ (d ++ rest)) = .ok ((), s ++ (t ++ rest)) := by
  induction t generalizing s d with
  | nil =>
      rw [List.length_eq_zero_iff.mp h]
      rfl
  | cons c t ih =>
      cases d with
      | nil => cases h
      | cons b d =>
          have hrest := ih (s := s ++ [c]) (Nat.succ.inj h)
          rw [List.length_append, List.length_singleton] at hrest
          rw [storeBytes, List.cons_append, bind_run (store_run b)]
          simpa using hrest

theorem storeBytes_over (h : t.length ≤ d.length) :
    storeBytes s.length t (s ++ d) = .ok ((), s ++ t ++ d.drop t.length) := by
  have htake : (d.take t.length).length = t.length := by
    rw [List.length_take, Nat.min_eq_left h]
  have hrun := @storeBytes_run s t (d.take t.length) (d.drop t.length) htake
  rwa [List.take_append_drop, ← List.append_assoc] at hrun

/-- A text and its NUL take the place of what was there. -/
theorem storeText_run (h : t.length < d.length) :
    ∃ rest, storeText s.length t (s ++ d) = .ok ((), s ++ t ++ 0 :: rest) ∧
      (s ++ t ++ 0 :: rest).length = (s ++ d).length := by
  obtain ⟨b, rest, hdrop⟩ : ∃ b rest, d.drop t.length = b :: rest :=
    List.exists_cons_of_ne_nil fun hnil => by
      have hle := List.drop_eq_nil_iff.mp hnil
      omega
  have hcopy : storeBytes s.length t (s ++ d) = .ok ((), s ++ t ++ b :: rest) := by
    rw [storeBytes_over h.le, hdrop]
  have hend : store (s.length + t.length) 0 (s ++ t ++ b :: rest) =
      .ok ((), s ++ t ++ 0 :: rest) := by
    rw [← List.length_append]
    exact store_run b
  refine ⟨rest, ?_, ?_⟩
  · rw [storeText, bind_run hcopy, hend]
  · have hlen := congrArg List.length hdrop
    rw [List.length_drop, List.length_cons] at hlen
    simp only [List.length_append, List.length_cons]
    omega

/-- What is printed behind a text is cut to the rest of the buffer. -/
theorem snprintf_run (hne : d ≠ []) :
    ∃ memory', snprintf s.length d.length t (s ++ d) = .ok (t.length, memory') ∧
      memory'.length = (s ++ d).length ∧ Text (s ++ t.take (d.length - 1)) memory' := by
  have hpos : 0 < d.length := List.length_pos_iff.mpr hne
  have hcut : (t.take (d.length - 1)).length < d.length := by
    rw [List.length_take]
    omega
  obtain ⟨rest, hrun, hlen⟩ := storeText_run (s := s) hcut
  refine ⟨_, ?_, hlen, rest, rfl⟩
  rw [snprintf, if_neg hpos.ne', bind_run hrun, pure_run]

end Rules

/-! ## Writers -/

section Leaves

variable {n : ℕ} {β β' γ γ' : Type}

/-- A run has the string of a result in the buffer, or some string when there is none. -/
def Leaves (run : Run (Option γ)) (memory : Bytes) (result : Option β) (text : β → CString n)
    (answer : β → γ) : Prop :=
  ∃ memory', ∃ s : CString n, run memory = .ok (result.map answer, memory') ∧
    memory'.length = n ∧ Text s.bytes memory' ∧ ∀ b ∈ result, s = text b

/-- A run that is not stopped: it fails before it has written anything, or it leaves what the
result says. -/
def Writes (run : Run (Option γ)) (memory : Bytes) (result : Option β) (text : β → CString n)
    (answer : β → γ) : Prop :=
  (run memory = .ok (none, memory) ∧ result = none) ∨ Leaves run memory result text answer

variable {run : Run (Option γ)} {memory : Bytes} {result : Option β} {text : β → CString n}
  {answer : β → γ}

/-- A writer goes on where the one before it has succeeded. -/
theorem Leaves.next {b : β} {result' : Option β'} {text' : β' → CString n} {answer' : β' → γ'}
    {f : Option γ → Run (Option γ')} (h : Leaves run memory (some b) text answer)
    (hnext : ∀ memory', memory'.length = n → Text (text b).bytes memory' →
      Leaves (f (some (answer b))) memory' result' text' answer') :
    Leaves (run >>= f) memory result' text' answer' := by
  obtain ⟨memory', s, hrun, hlen, hs, htext⟩ := h
  obtain ⟨memory'', s', hrun', hleft⟩ := hnext memory' hlen (htext b rfl ▸ hs)
  exact ⟨memory'', s', (bind_run hrun).trans hrun', hleft⟩

/-- It does not when the one before it has failed. -/
theorem Leaves.stop {text' : β' → CString n} {answer' : β' → γ'} {f : Option γ → Run (Option γ')}
    (h : Leaves run memory none text answer) (hf : f none = Pure.pure none) :
    Leaves (run >>= f) memory none text' answer' := by
  obtain ⟨memory', s, hrun, hlen, hs, -⟩ := h
  refine ⟨memory', s, ?_, hlen, hs, by simp⟩
  rw [bind_run hrun, Option.map_none, hf]
  rfl

/-- Nothing more is written. -/
theorem Leaves.pure (text : β → CString n) (answer : β → γ) (b : β) (hlen : memory.length = n)
    (htext : Text (text b).bytes memory) :
    Leaves (Pure.pure (some (answer b))) memory (some b) text answer :=
  ⟨memory, text b, rfl, hlen, htext, fun b' hb' => by rw [Option.some.inj hb']⟩

theorem Leaves.fail {s : CString n} (hlen : memory.length = n) (htext : Text s.bytes memory) :
    Leaves (Pure.pure none) memory none text answer :=
  ⟨memory, s, rfl, hlen, htext, by simp⟩

end Leaves

end CheckedWrites
