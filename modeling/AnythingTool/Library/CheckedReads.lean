import AnythingTool.Library.CString

/-!
# Runs that read a text in memory

A text in memory is a list of bytes with a NUL behind it, and a cursor into it is a
position. Reading behind the first NUL stops a run, and so does a loop that is not left
within the rounds it was given; a run that is not stopped has read inside of the text and
has ended. `repeatRounds_spec` is the rule for loops: when each round follows a recursion, the
loop returns a result of the recursion.

`At text p t` says that the cursor `p` stands in front of `t`, inside of the text.
-/

namespace CheckedReads

open CText

/-- Why a run is stopped. -/
inductive Stop
  | outside
  | rounds
deriving DecidableEq, Repr

abbrev Run (α : Type) := Except Stop α

/-- How a round of a loop ends. -/
inductive Round (σ α : Type)
  | next (s : σ)
  | done (a : α)
deriving DecidableEq

/-- A loop, for at most so many rounds. -/
def repeatRounds {σ α : Type} (round : σ → Run (Round σ α)) : ℕ → σ → Run α
  | 0, _ => .error .rounds
  | k + 1, s => do
      match ← round s with
      | .next s => repeatRounds round k s
      | .done a => pure a

/-- `*p` -/
def load (text : Bytes) (p : ℕ) : Run UInt8 :=
  if p ≤ (cstr text).length then .ok (deref (text.drop p)) else .error .outside

/-- The bytes `memcpy` reads. -/
def loadBytes (text : Bytes) : ℕ → (len : ℕ) → Run { s : Bytes // s.length = len }
  | _, 0 => pure ⟨[], rfl⟩
  | p, len + 1 => do
      let c ← load text p
      let s ← loadBytes text (p + 1) len
      pure ⟨c :: s.1, congrArg (· + 1) s.2⟩

@[simp] theorem ok_bind {ε α β : Type} (a : α) (f : α → Except ε β) :
    (Except.ok a >>= f) = f a :=
  rfl

/-! ## Loops -/

section Loop

variable {σ τ α : Type}

/-- A round follows a recursion at `t`: it is done with a result for `t`, or goes on at a
smaller `t'` whose results are results for `t`. -/
inductive Follows (P : σ → τ → Prop) (R : τ → α → Prop) (μ : τ → ℕ) (t : τ) :
    Run (Round σ α) → Prop
  | done {a : α} (h : R t a) : Follows P R μ t (.ok (.done a))
  | next {s : σ} (t' : τ) (h : P s t') (hμ : μ t' < μ t) (hback : ∀ a, R t' a → R t a) :
      Follows P R μ t (.ok (.next s))

variable {round : σ → Run (Round σ α)} {P : σ → τ → Prop} {R : τ → α → Prop} {μ : τ → ℕ}

theorem repeatRounds_spec (hround : ∀ s t, P s t → Follows P R μ t (round s)) {s : σ} {t : τ}
    (h : P s t) {k : ℕ} (hk : μ t < k) : ∃ a, repeatRounds round k s = .ok a ∧ R t a := by
  induction k generalizing s t with
  | zero => omega
  | succ k ih =>
      have hfollows := hround s t h
      rw [repeatRounds]
      cases hrun : round s with
      | error e =>
          rw [hrun] at hfollows
          cases hfollows
      | ok r =>
          rw [hrun] at hfollows
          cases hfollows with
          | done ha => exact ⟨_, rfl, ha⟩
          | next t' h' hμ hback =>
              obtain ⟨a, hrest, ha⟩ := ih h' (by omega)
              exact ⟨a, hrest, hback a ha⟩

end Loop

/-! ## Positions in a text -/

/-- The cursor `p` stands in front of `t`, at the NUL at most. -/
structure At (text : Bytes) (p : ℕ) (t : Bytes) : Prop where
  inside : p ≤ (cstr text).length
  drop : text.drop p = t

theorem cstr_append {u : Bytes} (h : (0 : UInt8) ∉ u) (t : Bytes) :
    cstr (u ++ t) = u ++ cstr t := by
  refine List.takeWhile_append_of_pos ?_
  intro c hc
  have hne : c ≠ 0 := fun h0 => h (h0 ▸ hc)
  simpa using hne

theorem cstr_isPrefix (text : Bytes) : cstr text <+: text := List.takeWhile_prefix _

section At

variable {text t u : Bytes} {p q : ℕ}

/-- In front of a position inside of the text there is no NUL. -/
theorem cstr_split (h : p ≤ (cstr text).length) :
    cstr text = text.take p ++ cstr (text.drop p) := by
  obtain ⟨r, hr⟩ := cstr_isPrefix text
  have htake : (0 : UInt8) ∉ text.take p := by
    rw [← hr, List.take_append_of_le_length h]
    exact fun hmem => zero_notMem_cstr text (List.mem_of_mem_take hmem)
  conv_lhs => rw [← List.take_append_drop p text]
  exact cstr_append htake _

theorem at_start (text : Bytes) : At text 0 text := ⟨Nat.zero_le _, rfl⟩

theorem at_drop (h : p ≤ (cstr text).length) : At text p (text.drop p) := ⟨h, rfl⟩

theorem At.length (h : At text p t) : p + t.length = text.length := by
  have hle := h.inside.trans (cstr_isPrefix text).length_le
  rw [← h.drop, List.length_drop]
  omega

theorem At.lt_rounds (h : At text p t) {rounds : ℕ} (hrounds : text.length < rounds) :
    t.length < rounds := by
  have hlen := h.length
  omega

theorem At.load (h : At text p t) : load text p = .ok (deref t) := by
  rw [CheckedReads.load, if_pos h.inside, h.drop]

/-- The cursor moves over bytes that are not NUL. -/
theorem At.advance (h : At text p (u ++ t)) (hu : (0 : UInt8) ∉ u) : At text (p + u.length) t := by
  have hdrop : text.drop (p + u.length) = t := by
    rw [← List.drop_drop, h.drop, List.drop_left]
  refine ⟨?_, hdrop⟩
  rw [cstr_split h.inside, h.drop, cstr_append hu, List.length_append, List.length_append,
    List.length_take]
  have hlen := h.length
  rw [List.length_append] at hlen
  omega

theorem At.next {c : UInt8} (h : At text p (c :: t)) (hc : c ≠ 0) : At text (p + 1) t :=
  At.advance (u := [c]) h (by simpa using hc.symm)

/-- Of two positions, the later one has less in front of it. -/
theorem At.le (h : At text p t) (h' : At text q u) (hle : u.length ≤ t.length) : p ≤ q := by
  have hp := h.length
  have hq := h'.length
  omega

theorem At.lt (h : At text p t) (h' : At text q u) (hlt : u.length < t.length) : p < q := by
  have hp := h.length
  have hq := h'.length
  omega

/-- Two positions in front of as much are the same. -/
theorem At.unique (h : At text p t) (h' : At text q t) : p = q :=
  le_antisymm (h.le h' le_rfl) (h'.le h le_rfl)

theorem At.sub_eq (h : At text p (u ++ t)) (h' : At text q t) : q - p = u.length := by
  have hp := h.length
  have hq := h'.length
  rw [List.length_append] at hp
  omega

/-- What stands between two positions. -/
theorem At.between (h : At text p (u ++ t)) (h' : At text q t) :
    (text.drop p).take (q - p) = u := by
  rw [h.drop, h.sub_eq h', List.take_left]

theorem At.loadBytes (h : At text p (u ++ t)) (hu : (0 : UInt8) ∉ u) :
    loadBytes text p u.length = .ok ⟨u, rfl⟩ := by
  induction u generalizing p with
  | nil => rfl
  | cons c u ih =>
      rw [List.mem_cons, not_or] at hu
      have hnext : At text (p + 1) (u ++ t) := At.next h (Ne.symm hu.1)
      change loadBytes text p (u.length + 1) = _
      rw [CheckedReads.loadBytes, h.load, List.cons_append, deref_cons, ok_bind, ih hnext hu.2,
        ok_bind]
      rfl

end At

end CheckedReads
