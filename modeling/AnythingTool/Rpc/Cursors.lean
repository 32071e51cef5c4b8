import AnythingTool.Library.CheckedReads
import AnythingTool.Rpc.Scan

/-!
# The scanners in memory

The static functions of `rpc.c` once more, now on a text in memory: every `*p` is a
checked read, every loop has a number of rounds, and a call says what the caller's cursor
is afterwards. Each of them answers as the scanner on the list of the bytes from its
cursor on (`skipJsonStringAt_follows` and the ones like it), so it never reads behind the
NUL and ends within as many rounds as the text has bytes, and one more.
-/

namespace AnythingTool

open CText JsonText CheckedReads

/-- What a call leaves: its answer, which is `none` for `-1`, and the caller's cursor. -/
structure Call (α : Type) where
  answer : Option α
  cursor : ℕ
deriving DecidableEq

/-- The buffer after `memcpy` of these bytes and the NUL behind them. -/
def copied {n : ℕ} (s : Bytes) (h : s.length < n) : CString n :=
  ⟨cstr s, zero_notMem_cstr s, (cstr_isPrefix s).length_le.trans_lt h⟩

theorem copied_bytes {n : ℕ} {s : Bytes} (h0 : (0 : UInt8) ∉ s) {h : s.length < n} :
    (copied s h).bytes = s :=
  cstr_of_notMem h0

section Scanners

variable (text : Bytes) (rounds : ℕ)

def skipWsRound (p : ℕ) : Run (Round ℕ ℕ) := do
  let c ← load text p
  if c ≠ 0 ∧ isspace c then pure (.next (p + 1)) else pure (.done p)

/-- `skip_ws` -/
def skipWsAt (p : ℕ) : Run ℕ := repeatRounds (skipWsRound text) rounds p

/-- A round of the loop of `parse_json_string`. -/
def parseJsonStringRound {n : ℕ} (cursor : ℕ) :
    ℕ × CString n → Run (Round (ℕ × CString n) (Call (CString n)))
  | (p, out) => do
      let c ← load text p
      if hc : c = 0 then pure (.done ⟨none, cursor⟩)
      else if c = quote then pure (.done ⟨some out, p + 1⟩)
      else if c < 0x20 then pure (.done ⟨none, cursor⟩)
      else if c = backslash then do
        let e ← load text (p + 1)
        match he : unescape e with
        | none => pure (.done ⟨none, cursor⟩)
        | some d =>
            match appendDecoded out d (unescape_ne_zero he) with
            | none => pure (.done ⟨none, cursor⟩)
            | some out' => pure (.next (p + 2, out'))
      else
        match appendDecoded out c hc with
        | none => pure (.done ⟨none, cursor⟩)
        | some out' => pure (.next (p + 1, out'))

/-- `parse_json_string` -/
def parseJsonStringAt (n cursor : ℕ) : Run (Call (CString n)) := do
  let c ← load text cursor
  if c ≠ quote then pure ⟨none, cursor⟩
  else if hn : n = 0 then pure ⟨none, cursor⟩
  else
    haveI : HasRoom n := ⟨Nat.pos_of_ne_zero hn⟩
    repeatRounds (parseJsonStringRound text cursor) rounds (cursor + 1, CString.empty)

/-- A round of the loop of `skip_json_string`. -/
def skipJsonStringRound (cursor p : ℕ) : Run (Round ℕ (Call Unit)) := do
  let c ← load text p
  if c = 0 then pure (.done ⟨none, cursor⟩)
  else if c = quote then pure (.done ⟨some (), p + 1⟩)
  else if c < 0x20 then pure (.done ⟨none, cursor⟩)
  else if c = backslash then do
    let e ← load text (p + 1)
    if (unescape e).isSome then pure (.next (p + 2)) else pure (.done ⟨none, cursor⟩)
  else pure (.next (p + 1))

/-- `skip_json_string` -/
def skipJsonStringAt (cursor : ℕ) : Run (Call Unit) := do
  let c ← load text cursor
  if c ≠ quote then pure ⟨none, cursor⟩
  else repeatRounds (skipJsonStringRound text cursor) rounds (cursor + 1)

/-- A round of the bracket loop, which ends with the cursor past the last `cl`. -/
def scanToCloseRound (op cl : UInt8) : ℕ × ℤ → Run (Round (ℕ × ℤ) (Option ℕ))
  | (p, depth) => do
      let c ← load text p
      if c = 0 then pure (.done none)
      else if c = quote then do
        let call ← skipJsonStringAt text rounds p
        match call.answer with
        | none => pure (.done none)
        | some () => pure (.next (call.cursor, depth))
      else if c = op then pure (.next (p + 1, depth + 1))
      else if c = cl then
        if depth - 1 = 0 then pure (.done (some (p + 1)))
        else pure (.next (p + 1, depth - 1))
      else pure (.next (p + 1, depth))

def scanToCloseAt (op cl : UInt8) (depth : ℤ) (p : ℕ) : Run (Option ℕ) :=
  repeatRounds (scanToCloseRound text rounds op cl) rounds (p, depth)

/-- The end of `copy_json_object_raw`: `len` bytes are copied when they fit. -/
def copyOutAt (n start len p : ℕ) : Run (Call (CString n)) :=
  if hn : len ≥ n then pure ⟨none, start⟩
  else do
    let s ← loadBytes text start len
    pure ⟨some (copied s.1 (s.2.trans_lt (not_le.mp hn))), p⟩

/-- `copy_json_object_raw` -/
def copyJsonObjectRawAt (n start : ℕ) : Run (Call (CString n)) := do
  let c ← load text start
  if c ≠ lbrace then pure ⟨none, start⟩
  else
    match ← scanToCloseAt text rounds lbrace rbrace 0 start with
    | none => pure ⟨none, start⟩
    | some p => copyOutAt text n start (p - start) p

def skipBareRound (p : ℕ) : Run (Round ℕ ℕ) := do
  let c ← load text p
  if c ≠ 0 ∧ c ≠ comma ∧ c ≠ rbrace ∧ c ≠ rbracket then pure (.next (p + 1))
  else pure (.done p)

/-- `skip_json_value` -/
def skipJsonValueAt (cursor : ℕ) : Run (Call Unit) := do
  let p ← skipWsAt text rounds cursor
  let c ← load text p
  if c = quote then do
    let call ← skipJsonStringAt text rounds p
    match call.answer with
    | none => pure ⟨none, cursor⟩
    | some () => pure ⟨some (), call.cursor⟩
  else if c = lbrace then do
    let call ← copyJsonObjectRawAt text rounds 1024 p
    match call.answer with
    | none => pure ⟨none, cursor⟩
    | some _ => pure ⟨some (), call.cursor⟩
  else if c = lbracket then
    match ← scanToCloseAt text rounds lbracket rbracket 0 p with
    | none => pure ⟨none, cursor⟩
    | some q => pure ⟨some (), q⟩
  else do
    let q ← repeatRounds (skipBareRound text) rounds p
    pure ⟨some (), q⟩

/-- The key, the colon and the blanks at the head of both member loops. -/
def scanKeyAt (p : ℕ) : Run (Except KeyFault (CString 64 × ℕ)) := do
  let call ← parseJsonStringAt text rounds 64 p
  match call.answer with
  | none => pure (.error .badKey)
  | some key => do
      let p ← skipWsAt text rounds call.cursor
      let c ← load text p
      if c ≠ colon then pure (.error .noColon)
      else do
        let p ← skipWsAt text rounds (p + 1)
        pure (.ok (key, p))

end Scanners

/-! ## They follow the scanners on bytes -/

/-- A call answers as a scanner: where the scanner fails it fails and leaves the caller's
cursor, and otherwise it answers the same with a cursor in front of the same rest. -/
inductive Answers (text : Bytes) (cursor : ℕ) {α : Type} : Option (α × Bytes) → Call α → Prop
  | failed : Answers text cursor none ⟨none, cursor⟩
  | moved {a : α} {r : Bytes} {q : ℕ} (h : At text q r) :
      Answers text cursor (some (a, r)) ⟨some a, q⟩

/-- The same for a loop that looks for a position. -/
inductive Lands (text : Bytes) : Option Bytes → Option ℕ → Prop
  | failed : Lands text none none
  | found {r : Bytes} {q : ℕ} (h : At text q r) : Lands text (some r) (some q)

/-- The same for the scan of a key. -/
inductive ReadsKey (text : Bytes) :
    Except KeyFault (CString 64 × Bytes) → Except KeyFault (CString 64 × ℕ) → Prop
  | failed (e : KeyFault) : ReadsKey text (.error e) (.error e)
  | moved {key : CString 64} {r : Bytes} {q : ℕ} (h : At text q r) :
      ReadsKey text (.ok (key, r)) (.ok (key, q))

section Answers

variable {α : Type} {text : Bytes} {cursor : ℕ} {o : Option (α × Bytes)} {call : Call α}

theorem Answers.answer (h : Answers text cursor o call) : call.answer = o.map Prod.fst := by
  cases h with
  | failed => rfl
  | moved hat => rfl

theorem Answers.eq_some_iff (h : Answers text cursor o call) {a : α} {q : ℕ} :
    call = ⟨some a, q⟩ ↔ ∃ r, o = some (a, r) ∧ At text q r := by
  cases h with
  | failed => simp
  | @moved b r q' hat =>
      constructor
      · rintro ⟨⟩
        exact ⟨r, rfl, hat⟩
      · rintro ⟨_, ⟨⟩, hat'⟩
        rw [hat.unique hat']

theorem Answers.eq_none_iff (h : Answers text cursor o call) :
    call = ⟨none, cursor⟩ ↔ ∀ a q, call ≠ ⟨some a, q⟩ := by
  cases h with
  | failed => simp
  | moved hat => simp

end Answers

section Blanks

variable {text t : Bytes} {rounds p : ℕ}

theorem skipWsRound_follows (h : At text p t) :
    Follows (At text) (fun t q => At text q (skipWs t)) List.length t (skipWsRound text p) := by
  rw [skipWsRound, h.load, ok_bind]
  cases t with
  | nil => exact .done h
  | cons c t =>
      rw [deref_cons]
      by_cases hc : c ≠ 0 ∧ isspace c
      · rw [if_pos hc]
        refine .next t (h.next hc.1) (by simp) ?_
        intro q hq
        rwa [skipWs, if_pos hc]
      · rw [if_neg hc]
        exact .done (by rwa [skipWs, if_neg hc])

theorem skipWsAt_eq (h : At text p t) (hrounds : text.length < rounds) :
    ∃ q, skipWsAt text rounds p = .ok q ∧ At text q (skipWs t) :=
  repeatRounds_spec (fun _ _ => skipWsRound_follows) h (h.lt_rounds hrounds)

theorem skipBareRound_follows (h : At text p t) :
    Follows (At text) (fun t q => At text q (skipBare t)) List.length t
      (skipBareRound text p) := by
  rw [skipBareRound, h.load, ok_bind]
  cases t with
  | nil => exact .done h
  | cons c t =>
      rw [deref_cons]
      by_cases hc : c ≠ 0 ∧ c ≠ comma ∧ c ≠ rbrace ∧ c ≠ rbracket
      · rw [if_pos hc]
        refine .next t (h.next hc.1) (by simp) ?_
        intro q hq
        rwa [skipBare, if_pos hc]
      · rw [if_neg hc]
        exact .done (by rwa [skipBare, if_neg hc])

end Blanks

section Strings

variable {text t : Bytes} {rounds p cursor : ℕ}

/-- The answer of `skip_json_string` has no value. -/
def skipped (r : Option Bytes) : Option (Unit × Bytes) := r.map fun r => ((), r)

theorem skipped_eq_some {o : Option Bytes} {a : Unit} {r : Bytes} :
    skipped o = some (a, r) ↔ o = some r := by
  simp [skipped]

theorem Answers.skipped_cases {o : Option Bytes} {call : Call Unit}
    (h : Answers text cursor (skipped o) call) :
    (o = none ∧ call = ⟨none, cursor⟩) ∨
      ∃ r q, o = some r ∧ call = ⟨some (), q⟩ ∧ At text q r := by
  cases o with
  | none =>
      cases h
      exact .inl ⟨rfl, rfl⟩
  | some r =>
      cases h with
      | moved hat => exact .inr ⟨r, _, rfl, rfl, hat⟩

theorem skipJsonStringRound_follows (h : At text p t) :
    Follows (At text) (fun t => Answers text cursor (skipped (skipJsonStringLoop t)))
      List.length t (skipJsonStringRound text cursor p) := by
  rw [skipJsonStringRound, h.load, ok_bind]
  cases t with
  | nil => exact .done .failed
  | cons c t =>
      rw [deref_cons]
      by_cases h0 : c = 0
      · subst h0
        exact .done (by rw [skipJsonStringLoop.eq_def]; exact .failed)
      by_cases hq : c = quote
      · subst hq
        exact .done (by rw [skipJsonStringLoop.eq_def]; exact .moved (h.next h0))
      by_cases hlt : c < 0x20
      · simp only [h0, hq, hlt, if_true, if_false]
        refine .done ?_
        rw [skipJsonStringLoop.eq_def]
        simp only [h0, hq, hlt, if_true, if_false]
        exact .failed
      by_cases hb : c = backslash
      · subst hb
        have h' := h.next h0
        simp only [h0, hq, hlt, if_true, if_false, h'.load, ok_bind]
        cases t with
        | nil => exact .done .failed
        | cons e t =>
            rw [deref_cons]
            by_cases he : (unescape e).isSome = true
            · rw [if_pos he]
              have hne : e ≠ 0 := by
                rintro rfl
                cases he
              refine .next t (h'.next hne) (Nat.lt_succ_of_lt (Nat.lt_succ_self _)) ?_
              rw [skipJsonStringLoop.eq_def (backslash :: e :: t)]
              simp only [h0, hq, hlt, he, if_true, if_false]
              exact fun _ h => h
            · rw [if_neg he]
              refine .done ?_
              rw [skipJsonStringLoop.eq_def]
              simp only [h0, hq, hlt, he, if_true, if_false]
              exact .failed
      · simp only [h0, hq, hlt, hb, if_false]
        refine .next t (h.next h0) (by simp) ?_
        rw [skipJsonStringLoop.eq_def (c :: t)]
        simp only [h0, hq, hlt, hb, if_false]
        exact fun _ h => h

theorem skipJsonStringAt_answers (h : At text p t) (hrounds : text.length < rounds) :
    ∃ call, skipJsonStringAt text rounds p = .ok call ∧
      Answers text p (skipped (skipJsonString t)) call := by
  rw [skipJsonStringAt, h.load, ok_bind]
  cases t with
  | nil => exact ⟨_, rfl, .failed⟩
  | cons c t =>
      by_cases hq : c = quote
      · subst hq
        have h' := h.next (by decide : quote ≠ 0)
        exact repeatRounds_spec (fun _ _ => skipJsonStringRound_follows) h'
          (h'.lt_rounds hrounds)
      · rw [deref_cons, if_pos hq, skipJsonString, if_neg hq]
        exact ⟨_, rfl, .failed⟩

theorem parseJsonStringRound_follows {n : ℕ} {s : ℕ × CString n} {t : Bytes × CString n}
    (h : At text s.1 t.1 ∧ s.2 = t.2) :
    Follows (fun s t => At text s.1 t.1 ∧ s.2 = t.2)
      (fun t => Answers text cursor (parseJsonStringLoop t.2 t.1)) (fun t => t.1.length) t
      (parseJsonStringRound text cursor s) := by
  obtain ⟨p, out⟩ := s
  obtain ⟨t, _⟩ := t
  obtain ⟨h, rfl⟩ := h
  rw [parseJsonStringRound, h.load, ok_bind]
  cases t with
  | nil => exact .done .failed
  | cons c t =>
      rw [deref_cons]
      by_cases h0 : c = 0
      · subst h0
        exact .done (by rw [parseJsonStringLoop.eq_def]; exact .failed)
      by_cases hq : c = quote
      · subst hq
        exact .done (by rw [parseJsonStringLoop.eq_def]; exact .moved (h.next h0))
      by_cases hlt : c < 0x20
      · simp only [h0, hq, hlt, if_true, if_false, dite_false]
        refine .done ?_
        rw [parseJsonStringLoop.eq_def]
        simp only [h0, hq, hlt, if_true, if_false, dite_false]
        exact .failed
      by_cases hb : c = backslash
      · subst hb
        have h' := h.next h0
        simp only [h0, hq, hlt, if_true, if_false, dite_false, h'.load, ok_bind]
        cases t with
        | nil => exact .done .failed
        | cons e t =>
            rw [deref_cons]
            split
            · rename_i he
              exact .done (by rw [parseJsonStringLoop_badEscape out t he]; exact .failed)
            · rename_i d he
              have hne : e ≠ 0 := by
                rintro rfl
                cases he
              have hloop := parseJsonStringLoop_escape out t he
              cases hpush : appendDecoded out d (unescape_ne_zero he) with
              | none =>
                  rw [hpush] at hloop
                  exact .done (by rw [hloop]; exact .failed)
              | some out' =>
                  rw [hpush] at hloop
                  refine .next (t, out') ⟨h'.next hne, rfl⟩ (Nat.lt_succ_of_lt (Nat.lt_succ_self _)) ?_
                  rw [hloop]
                  exact fun _ h => h
      · simp only [h0, hq, hlt, hb, if_false, dite_false]
        cases hpush : appendDecoded out c h0 with
        | none =>
            refine .done ?_
            rw [parseJsonStringLoop.eq_def]
            simp only [h0, hq, hlt, hb, if_false, dite_false, hpush]
            exact .failed
        | some out' =>
            refine .next (t, out') ⟨h.next h0, rfl⟩ (by simp) ?_
            rw [parseJsonStringLoop.eq_def out]
            simp only [h0, hq, hlt, hb, if_false, dite_false, hpush]
            exact fun _ h => h

theorem parseJsonStringAt_answers (h : At text p t) (hrounds : text.length < rounds) (n : ℕ) :
    ∃ call, parseJsonStringAt text rounds n p = .ok call ∧
      Answers text p (parseJsonString n t) call := by
  rw [parseJsonStringAt, h.load, ok_bind, parseJsonString]
  by_cases hn : n = 0
  · rw [dif_pos hn, dif_pos hn, ite_self]
    exact ⟨_, rfl, .failed⟩
  rw [dif_neg hn, dif_neg hn]
  cases t with
  | nil => exact ⟨_, rfl, .failed⟩
  | cons c t =>
      by_cases hq : c = quote
      · subst hq
        have h' := h.next (by decide : quote ≠ 0)
        have : HasRoom n := ⟨Nat.pos_of_ne_zero hn⟩
        exact repeatRounds_spec (fun _ _ => parseJsonStringRound_follows)
          (t := (t, CString.empty)) ⟨h', rfl⟩ (h'.lt_rounds hrounds)
      · rw [deref_cons, if_pos hq]
        simp only [hq, if_false]
        exact ⟨_, rfl, .failed⟩

end Strings

section Values

variable {text t : Bytes} {rounds p : ℕ}

theorem scanToCloseRound_follows {op cl : UInt8} (hrounds : text.length < rounds)
    {s : ℕ × ℤ} {t : Bytes × ℤ} (h : At text s.1 t.1 ∧ s.2 = t.2) :
    Follows (fun s t => At text s.1 t.1 ∧ s.2 = t.2)
      (fun t => Lands text (scanToClose op cl t.2 t.1)) (fun t => t.1.length) t
      (scanToCloseRound text rounds op cl s) := by
  obtain ⟨p, depth⟩ := s
  obtain ⟨t, _⟩ := t
  obtain ⟨h, rfl⟩ := h
  rw [scanToCloseRound, h.load, ok_bind]
  cases t with
  | nil => exact .done (by rw [scanToClose]; exact .failed)
  | cons c t =>
      rw [deref_cons]
      by_cases h0 : c = 0
      · subst h0
        exact .done (by rw [scanToClose]; exact .failed)
      by_cases hq : c = quote
      · subst hq
        obtain ⟨call, hrun, hcall⟩ := skipJsonStringAt_answers h hrounds
        have hscan := scanToClose_cons_quote op cl depth t
        rw [if_neg h0, if_pos rfl, hrun, ok_bind]
        obtain ⟨hskip, rfl⟩ | ⟨r, q, hskip, rfl, hat⟩ := hcall.skipped_cases
        · rw [hskip] at hscan
          exact .done (by rw [hscan]; exact .failed)
        · rw [hskip] at hscan
          refine .next (r, depth) ⟨hat, rfl⟩ (skipJsonString_length hskip) ?_
          rw [hscan]
          exact fun _ h => h
      have hscan : scanToClose op cl depth (c :: t) =
          if c = op then scanToClose op cl (depth + 1) t
          else if c = cl then
            if depth - 1 = 0 then some t else scanToClose op cl (depth - 1) t
          else scanToClose op cl depth t := by
        rw [scanToClose, if_neg h0, if_neg hq]
      rw [if_neg h0, if_neg hq]
      by_cases hop : c = op
      · rw [if_pos hop] at hscan ⊢
        refine .next (t, depth + 1) ⟨h.next h0, rfl⟩ (by simp) ?_
        rw [hscan]
        exact fun _ h => h
      rw [if_neg hop] at hscan ⊢
      by_cases hcl : c = cl
      · rw [if_pos hcl] at hscan ⊢
        by_cases hd : depth - 1 = 0
        · rw [if_pos hd] at hscan ⊢
          exact .done (by rw [hscan]; exact .found (h.next h0))
        · rw [if_neg hd] at hscan ⊢
          refine .next (t, depth - 1) ⟨h.next h0, rfl⟩ (by simp) ?_
          rw [hscan]
          exact fun _ h => h
      · rw [if_neg hcl] at hscan ⊢
        refine .next (t, depth) ⟨h.next h0, rfl⟩ (by simp) ?_
        rw [hscan]
        exact fun _ h => h

theorem scanToCloseAt_lands (h : At text p t) (hrounds : text.length < rounds) (op cl : UInt8)
    (depth : ℤ) : ∃ q, scanToCloseAt text rounds op cl depth p = .ok q ∧
      Lands text (scanToClose op cl depth t) q :=
  repeatRounds_spec (fun _ _ => scanToCloseRound_follows hrounds) (t := (t, depth)) ⟨h, rfl⟩
    (h.lt_rounds hrounds)

theorem copyOutAt_eq {u r : Bytes} {n q : ℕ} (h : At text p (u ++ r)) (hu : (0 : UInt8) ∉ u) :
    copyOutAt text n p u.length q =
      .ok (if hn : u.length ≥ n then ⟨none, p⟩ else ⟨some (copied u (not_le.mp hn)), q⟩) := by
  unfold copyOutAt
  split
  · rfl
  · rw [h.loadBytes hu, ok_bind]
    rfl

theorem copyJsonObjectRawAt_answers (h : At text p t) (hrounds : text.length < rounds) (n : ℕ) :
    ∃ call, copyJsonObjectRawAt text rounds n p = .ok call ∧
      Answers text p (copyJsonObjectRaw n t) call := by
  rw [copyJsonObjectRawAt, h.load, ok_bind]
  by_cases hb : deref t = lbrace
  · rw [if_neg (not_not.mpr hb)]
    obtain ⟨q, hrun, hq⟩ := scanToCloseAt_lands h hrounds lbrace rbrace 0
    rw [hrun, ok_bind]
    cases hscan : scanToClose lbrace rbrace 0 t with
    | none =>
        have hcopy : copyJsonObjectRaw n t = none := by
          refine Option.eq_none_iff_forall_ne_some.mpr ?_
          rintro ⟨out, r⟩ hsome
          rw [(copyJsonObjectRaw_eq_some.mp hsome).2.1] at hscan
          cases hscan
        rw [hscan] at hq
        cases hq
        rw [hcopy]
        exact ⟨_, rfl, .failed⟩
    | some r =>
        rw [hscan] at hq
        cases hq with
        | @found _ q hat =>
            obtain ⟨u, rfl, -, hu⟩ := scanToClose_split hscan
            have hout : copyOutAt text n p (q - p) q = _ :=
              (congrArg (fun len => copyOutAt text n p len q) (h.sub_eq hat)).trans
                (copyOutAt_eq h hu)
            refine ⟨_, hout, ?_⟩
            by_cases hn : u.length ≥ n
            · have hcopy : copyJsonObjectRaw n (u ++ r) = none := by
                refine Option.eq_none_iff_forall_ne_some.mpr ?_
                rintro ⟨out, r'⟩ hsome
                obtain ⟨-, hscan', hout⟩ := copyJsonObjectRaw_eq_some.mp hsome
                obtain rfl := Option.some.inj (hscan.symm.trans hscan')
                have hfits := out.fits
                rw [← List.append_cancel_right hout] at hfits
                omega
              rw [dif_pos hn, hcopy]
              exact .failed
            · have hcopy : copyJsonObjectRaw n (u ++ r) = some (copied u (not_le.mp hn), r) :=
                copyJsonObjectRaw_eq_some.mpr ⟨hb, hscan, by rw [copied_bytes hu]⟩
              rw [dif_neg hn, hcopy]
              exact .moved hat
  · rw [if_pos hb, copyJsonObjectRaw, if_pos hb]
    exact ⟨_, rfl, .failed⟩

theorem skipJsonValueAt_answers (h : At text p t) (hrounds : text.length < rounds) :
    ∃ call, skipJsonValueAt text rounds p = .ok call ∧
      Answers text p (skipped (skipJsonValue t)) call := by
  obtain ⟨p', hws, h'⟩ := skipWsAt_eq h hrounds
  rw [skipJsonValueAt, hws, ok_bind, h'.load, ok_bind, skipJsonValue]
  by_cases hquote : deref (skipWs t) = quote
  · obtain ⟨call, hrun, hcall⟩ := skipJsonStringAt_answers h' hrounds
    rw [if_pos hquote, if_pos hquote, hrun, ok_bind]
    obtain ⟨hskip, rfl⟩ | ⟨r, q, hskip, rfl, hat⟩ := hcall.skipped_cases
    · rw [hskip]
      exact ⟨_, rfl, .failed⟩
    · rw [hskip]
      exact ⟨_, rfl, .moved hat⟩
  rw [if_neg hquote, if_neg hquote]
  by_cases hbrace : deref (skipWs t) = lbrace
  · obtain ⟨call, hrun, hcall⟩ := copyJsonObjectRawAt_answers h' hrounds 1024
    rw [if_pos hbrace, if_pos hbrace, hrun, ok_bind]
    generalize copyJsonObjectRaw 1024 (skipWs t) = o at hcall ⊢
    cases hcall with
    | failed => exact ⟨_, rfl, .failed⟩
    | moved hat => exact ⟨_, rfl, .moved hat⟩
  rw [if_neg hbrace, if_neg hbrace]
  by_cases hbracket : deref (skipWs t) = lbracket
  · obtain ⟨q, hrun, hq⟩ := scanToCloseAt_lands h' hrounds lbracket rbracket 0
    rw [if_pos hbracket, if_pos hbracket, hrun, ok_bind]
    generalize scanToClose lbracket rbracket 0 (skipWs t) = o at hq ⊢
    cases hq with
    | failed => exact ⟨_, rfl, .failed⟩
    | found hat => exact ⟨_, rfl, .moved hat⟩
  · obtain ⟨q, hrun, hq⟩ := repeatRounds_spec (fun _ _ => skipBareRound_follows) h'
      (h'.lt_rounds hrounds)
    rw [if_neg hbracket, if_neg hbracket, hrun, ok_bind]
    exact ⟨_, rfl, .moved hq⟩

theorem scanKeyAt_reads (h : At text p t) (hrounds : text.length < rounds) :
    ∃ key, scanKeyAt text rounds p = .ok key ∧ ReadsKey text (scanKey t) key := by
  obtain ⟨call, hrun, hcall⟩ := parseJsonStringAt_answers h hrounds 64
  rw [scanKeyAt, hrun, ok_bind, scanKey]
  cases hparse : parseJsonString 64 t with
  | none =>
      rw [hparse] at hcall
      cases hcall
      exact ⟨_, rfl, .failed _⟩
  | some v =>
      rw [hparse] at hcall
      cases hcall with
      | @moved key r q hat =>
          obtain ⟨q', hws, hat'⟩ := skipWsAt_eq hat hrounds
          simp only [hws, ok_bind, hat'.load]
          cases hr : skipWs r with
          | nil => exact ⟨_, rfl, .failed _⟩
          | cons c u =>
              rw [hr] at hat'
              by_cases hc : c = colon
              · subst hc
                obtain ⟨q'', hws', hat''⟩ := skipWsAt_eq (hat'.next (by decide)) hrounds
                simp only [hws', deref_cons, ne_eq, not_true_eq_false, if_true, if_false, ok_bind]
                exact ⟨_, rfl, .moved hat''⟩
              · simp only [deref_cons, ne_eq, hc, not_false_eq_true, if_true, if_false]
                exact ⟨_, rfl, .failed _⟩

end Values

end AnythingTool
