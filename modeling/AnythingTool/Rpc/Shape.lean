import AnythingTool.Rpc.Parse

/-!
# The texts between tokens

What a successful scan of the punctuation has read, as a predicate on the text between
the two cursors: white space, keys with their colons, separators, and the frame around
the members.
-/

namespace AnythingTool

open CText JsonText

/-! ## White space -/

/-- A text of white space. -/
def Spaces (w : Bytes) : Prop := ∀ c ∈ w, isspace c

instance (w : Bytes) : Decidable (Spaces w) :=
  inferInstanceAs (Decidable (∀ c ∈ w, isspace c))

theorem isspace_ne_zero {c : UInt8} (h : isspace c) : c ≠ 0 := by
  rintro rfl
  revert h
  decide

theorem Spaces.zero_notMem {w : Bytes} (h : Spaces w) : (0 : UInt8) ∉ w :=
  fun h0 => isspace_ne_zero (h 0 h0) rfl

theorem Spaces.append {w v : Bytes} (hw : Spaces w) (hv : Spaces v) : Spaces (w ++ v) := by
  intro c hc
  rcases List.mem_append.mp hc with hc | hc
  · exact hw c hc
  · exact hv c hc

theorem skipWs_split (p : Bytes) : ∃ w, Spaces w ∧ p = w ++ skipWs p := by
  fun_induction skipWs p with
  | case1 => exact ⟨[], by simp [Spaces], rfl⟩
  | case2 c p hc ih =>
      obtain ⟨w, hw, hp⟩ := ih
      refine ⟨c :: w, ?_, ?_⟩
      · intro b hb
        rcases List.mem_cons.mp hb with rfl | hb
        · exact hc.2
        · exact hw b hb
      · rw [List.cons_append, ← hp]
  | case3 c p hc => exact ⟨[], by simp [Spaces], rfl⟩

theorem skipWs_of_spaces {w : Bytes} (hw : Spaces w) (p : Bytes) :
    skipWs (w ++ p) = skipWs p := by
  induction w with
  | nil => rfl
  | cons c w ih =>
      have hc := hw c List.mem_cons_self
      rw [List.cons_append, skipWs, if_pos ⟨isspace_ne_zero hc, hc⟩]
      exact ih fun b hb => hw b (List.mem_cons_of_mem c hb)

/-- The scan stops at the first byte that is not white space. -/
theorem skipWs_cons {c : UInt8} {p : Bytes} (hc : ¬ isspace c) : skipWs (c :: p) = c :: p := by
  rw [skipWs, if_neg fun h => hc h.2]

theorem skipWs_of_not_isspace {p : Bytes} (h : ¬ isspace (deref p)) : skipWs p = p := by
  cases p with
  | nil => rfl
  | cons c p => exact skipWs_cons h

theorem deref_skipWs_not_isspace (p : Bytes) : ¬ isspace (deref (skipWs p)) := by
  fun_induction skipWs p with
  | case1 => decide
  | case2 c p hc ih => exact ih
  | case3 c p hc =>
      intro hspace
      exact hc ⟨isspace_ne_zero hspace, hspace⟩

/-! ## Bare texts -/

theorem exists_cons_of_deref {p : Bytes} {c : UInt8} (h : deref p = c) (hc : c ≠ 0) :
    ∃ q, p = c :: q := by
  cases p with
  | nil => exact absurd h.symm hc
  | cons b q => exact ⟨q, congrArg (· :: q) h⟩

/-- A byte at which a bare text ends. -/
def EndsBare (c : UInt8) : Prop := c = 0 ∨ c = comma ∨ c = rbrace ∨ c = rbracket

theorem skipBare_split (p : Bytes) : ∃ t, (∀ c ∈ t, ¬ EndsBare c) ∧ p = t ++ skipBare p := by
  fun_induction skipBare p with
  | case1 => exact ⟨[], by simp, rfl⟩
  | case2 c p hc ih =>
      obtain ⟨t, ht, hp⟩ := ih
      refine ⟨c :: t, ?_, by rw [List.cons_append, ← hp]⟩
      intro b hb
      rcases List.mem_cons.mp hb with rfl | hb
      · simpa [EndsBare, not_or] using hc
      · exact ht b hb
  | case3 c p hc => exact ⟨[], by simp, rfl⟩

/-! ## Keys and separators -/

/-- A key and its colon, as the scan of a member head has read them. -/
theorem scanKey_text {p v : Bytes} {key : CString 64} (h : scanKey p = .ok (key, v)) :
    ∃ raw w₁ w₂, StringBody raw key.bytes ∧ Spaces w₁ ∧ Spaces w₂ ∧
      p = literal raw ++ (w₁ ++ colon :: (w₂ ++ v)) := by
  obtain ⟨raw, w, q, hraw, hp, hw, hv⟩ := scanKey_eq_ok.mp h
  obtain ⟨w₁, hw₁, h₁⟩ := skipWs_split w
  obtain ⟨w₂, hw₂, h₂⟩ := skipWs_split q
  refine ⟨raw, w₁, w₂, hraw, hw₁, hw₂, ?_⟩
  rw [hp, h₁, hw, ← hv, ← h₂]

/-- The cursor at the value is past the white space. -/
theorem not_isspace_of_scanKey {p v : Bytes} {key : CString 64}
    (h : scanKey p = .ok (key, v)) : ¬ isspace (deref v) := by
  obtain ⟨-, -, q, -, -, -, rfl⟩ := scanKey_eq_ok.mp h
  exact deref_skipWs_not_isspace q

/-- What the loop reads from a separator to the next key. -/
theorem rpcSeparator_another_text {p q : Bytes} (h : rpcSeparator p = .ok (.another q)) :
    ∃ w₁ w₂, Spaces w₁ ∧ Spaces w₂ ∧ p = w₁ ++ comma :: (w₂ ++ q) := by
  obtain ⟨r, hr, rfl⟩ := rpcSeparator_another.mp h
  obtain ⟨w₁, hw₁, h₁⟩ := skipWs_split p
  obtain ⟨w₂, hw₂, h₂⟩ := skipWs_split r
  exact ⟨w₁, w₂, hw₁, hw₂, by rw [← h₂, ← hr, ← h₁]⟩

/-- The text before the first key. -/
theorem rpcStart_text {json : Bytes} {st : RpcLoop} (h : rpcStart json = .ok st) :
    (∃ w₀ w₁, Spaces w₀ ∧ Spaces w₁ ∧ json = w₀ ++ lbrace :: (w₁ ++ st.p)) ∧
      st.scan = .zero := by
  unfold rpcStart at h
  split_ifs at h
  split at h
  · cases h
  · rename_i c p hjson
    split_ifs at h with hc hempty
    obtain rfl := Except.ok.inj h
    obtain ⟨w₀, hw₀, h₀⟩ := skipWs_split json
    obtain ⟨w₁, hw₁, h₁⟩ := skipWs_split p
    refine ⟨⟨w₀, w₁, hw₀, hw₁, ?_⟩, rfl⟩
    rw [← h₁, ← not_not.mp hc, ← hjson, ← h₀]

/-- The first key is behind the opening brace. -/
theorem rpcStart_cursor {w t : Bytes} (hw : Spaces w) {st : RpcLoop}
    (h : rpcStart (w ++ lbrace :: t) = .ok st) : st.p = skipWs t := by
  unfold rpcStart at h
  rw [skipWs_of_spaces hw, skipWs_cons (by decide)] at h
  simp only at h
  split_ifs at h
  obtain rfl := Except.ok.inj h
  rfl

end AnythingTool
