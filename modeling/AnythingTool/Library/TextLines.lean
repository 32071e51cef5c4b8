import AnythingTool.Library.CString

/-!
# Lines and their comments

What a newline ends is a line. Read through a buffer of bounded length, it arrives in pieces
of that length (`takeLine_line`), and whole lines arrive before what follows them. A comment
starts at the first `#` of a line outside of double quotes and goes to the end of that line.
-/

namespace TextLines

open CText

abbrev hash : UInt8 := 0x23

/-- A text of whole lines. -/
def Terminated (t : Bytes) : Prop := ∀ c, t.getLast? = some c → c = newline

theorem terminated_nil : Terminated [] := nofun

theorem terminated_snoc (t : Bytes) : Terminated (t ++ [newline]) := by
  intro c hc
  rw [List.getLast?_concat] at hc
  exact (Option.some.inj hc).symm

/-- The lines of a text that are ended by a newline, without it. -/
def completeLines (text : Bytes) : List Bytes := (text.splitOn newline).dropLast

theorem completeLines_flatMap {ls : List Bytes} (h : ∀ l ∈ ls, newline ∉ l) :
    completeLines (ls.flatMap fun l => l ++ [newline]) = ls := by
  have hsplit : (ls.flatMap fun l => l ++ [newline]).splitOn newline = ls ++ [[]] := by
    induction ls with
    | nil => rfl
    | cons l ls ih =>
        obtain ⟨hl, hls⟩ := List.forall_mem_cons.mp h
        rw [List.flatMap_cons, List.append_assoc, List.singleton_append,
          List.splitOn_append_cons_self_of_not_mem hl, ih hls, List.cons_append]
  rw [completeLines, hsplit, List.dropLast_concat]

theorem Terminated.tail {c : UInt8} {t : Bytes} (h : Terminated (c :: t)) : Terminated t := by
  cases t with
  | nil => exact terminated_nil
  | cons d t =>
      intro e he
      exact h e (by rwa [List.getLast?_cons_cons])

theorem Terminated.drop {t : Bytes} (h : Terminated t) (k : ℕ) : Terminated (t.drop k) := by
  induction k generalizing t with
  | zero => exact h
  | succ k ih =>
      cases t with
      | nil => exact h
      | cons c t => exact ih h.tail

/-! ## Reading through a buffer -/

/-- A line is read up to its end, or up to the end of the buffer. -/
theorem takeLine_line {line : Bytes} (h : newline ∉ line) (k : ℕ) :
    takeLine k (line ++ [newline]) =
      ((line ++ [newline]).take k, (line ++ [newline]).drop k) := by
  induction line generalizing k with
  | nil =>
      cases k with
      | zero => rfl
      | succ k => simp [takeLine]
  | cons c line ih =>
      rw [List.mem_cons, not_or] at h
      cases k with
      | zero => rfl
      | succ k =>
          rw [List.cons_append, takeLine, if_neg (Ne.symm h.1), ih h.2, List.take_succ_cons,
            List.drop_succ_cons]

/-- Whole lines are read before what follows them. -/
theorem takeLine_terminated {k : ℕ} {t : Bytes} (ht : Terminated t) (hne : t ≠ [])
    (rest : Bytes) :
    takeLine k (t ++ rest) = ((takeLine k t).1, (takeLine k t).2 ++ rest) ∧
      Terminated (takeLine k t).2 := by
  induction k generalizing t with
  | zero => exact ⟨rfl, ht⟩
  | succ k ih =>
      obtain ⟨c, t, rfl⟩ := List.exists_cons_of_ne_nil hne
      by_cases hc : c = newline
      · rw [List.cons_append, takeLine, takeLine, if_pos hc, if_pos hc]
        exact ⟨rfl, ht.tail⟩
      · have hne' : t ≠ [] := by
          rintro rfl
          exact hc (ht c rfl)
        obtain ⟨hread, hrest⟩ := ih ht.tail hne'
        rw [List.cons_append, takeLine, takeLine, if_neg hc, if_neg hc, hread]
        exact ⟨rfl, hrest⟩

/-! ## Comments -/

/-- A line up to its first `#` outside of double quotes; `quoted` says whether the text
starts inside of them. -/
def beforeComment (quoted : Bool) : Bytes → Bytes
  | [] => []
  | c :: t =>
      if c = hash ∧ quoted = false then []
      else c :: beforeComment (if c = quote then !quoted else quoted) t

/-- A text without the comments of its lines. What follows the last newline is no line. -/
def stripComments (text : Bytes) : Bytes :=
  match _h : text.dropWhile (· ≠ newline) with
  | [] => text
  | _ :: rest =>
      beforeComment false (text.takeWhile (· ≠ newline)) ++ newline :: stripComments rest
termination_by text.length
decreasing_by
  have hle := (text.dropWhile_suffix (· ≠ newline)).length_le
  rw [_h, List.length_cons] at hle
  omega

/-- The text of a line behind which a `#` starts a comment. -/
structure Code (p : Bytes) : Prop where
  noNewline : newline ∉ p
  outside : beforeComment false (p ++ [hash]) = p

theorem beforeComment_append {quoted : Bool} {p : Bytes}
    (h : beforeComment quoted (p ++ [hash]) = p) (t : Bytes) :
    beforeComment quoted (p ++ hash :: t) = p := by
  induction p generalizing quoted with
  | nil =>
      rw [List.nil_append, beforeComment] at h ⊢
      split_ifs at h ⊢ with hquoted
      rfl
  | cons c p ih =>
      rw [List.cons_append, beforeComment] at h ⊢
      by_cases hstart : c = hash ∧ quoted = false
      · rw [if_pos hstart] at h
        cases h
      · rw [if_neg hstart] at h ⊢
        rw [ih (List.cons.inj h).2]

/-- A line has no comment, or it starts at the first `#` behind code. -/
theorem beforeComment_cases (quoted : Bool) (t : Bytes) :
    beforeComment quoted t = t ∨
      ∃ p c, t = p ++ hash :: c ∧ beforeComment quoted (p ++ [hash]) = p := by
  induction t generalizing quoted with
  | nil => exact .inl rfl
  | cons d t ih =>
      by_cases hstart : d = hash ∧ quoted = false
      · refine .inr ⟨[], t, by rw [hstart.1]; rfl, ?_⟩
        rw [List.nil_append, beforeComment, if_pos ⟨rfl, hstart.2⟩]
      · rcases ih (if d = quote then !quoted else quoted) with hnone | ⟨p, c, rfl, hp⟩
        · left
          rw [beforeComment, if_neg hstart, hnone]
        · refine .inr ⟨d :: p, c, rfl, ?_⟩
          rw [List.cons_append, beforeComment, if_neg hstart, hp]

theorem stripComments_line {line : Bytes} (h : newline ∉ line) (rest : Bytes) :
    stripComments (line ++ newline :: rest) =
      beforeComment false line ++ newline :: stripComments rest := by
  have hplain : ∀ c ∈ line, (decide (c ≠ newline)) = true := by
    intro c hc
    exact decide_eq_true (fun heq => h (heq ▸ hc))
  have htake : (line ++ newline :: rest).takeWhile (· ≠ newline) = line := by
    rw [List.takeWhile_append_of_pos hplain, List.takeWhile_cons_of_neg (by simp),
      List.append_nil]
  have hdrop : (line ++ newline :: rest).dropWhile (· ≠ newline) = newline :: rest := by
    rw [List.dropWhile_append_of_pos hplain, List.dropWhile_cons_of_neg (by simp)]
  rw [stripComments, htake]
  split
  · rename_i hnil
    rw [hdrop] at hnil
    cases hnil
  · rename_i hcons
    rw [hdrop] at hcons
    rw [(List.cons.inj hcons).2]

theorem stripComments_tail {t : Bytes} (h : newline ∉ t) : stripComments t = t := by
  have hdrop : t.dropWhile (· ≠ newline) = [] := by
    rw [List.dropWhile_eq_nil_iff]
    intro c hc
    exact decide_eq_true (fun heq => h (heq ▸ hc))
  rw [stripComments]
  split
  · rfl
  · rename_i hcons
    rw [hdrop] at hcons
    cases hcons

/-! ## Line by line -/

/-- A text is a part without a newline, or a line in front of a text. -/
theorem lines_induction {P : Bytes → Prop} (htail : ∀ t, newline ∉ t → P t)
    (hline : ∀ line rest, newline ∉ line → P rest → P (line ++ newline :: rest)) (t : Bytes) :
    P t := by
  induction hlen : t.length using Nat.strong_induction_on generalizing t with
  | _ n ih =>
      by_cases hmem : newline ∈ t
      · obtain ⟨line, rest, rfl, hplain⟩ := List.eq_append_cons_of_mem hmem
        rw [List.length_append, List.length_cons] at hlen
        exact hline line rest hplain (ih rest.length (by omega) rest rfl)
      · exact htail t hmem

theorem Terminated.line_append {rest : Bytes} (h : Terminated rest) (line : Bytes) :
    Terminated (line ++ newline :: rest) := by
  cases rest with
  | nil => exact terminated_snoc line
  | cons c rest =>
      intro d hd
      rw [List.getLast?_append_cons, List.getLast?_cons_cons] at hd
      exact h d hd

theorem Terminated.rest {line rest : Bytes} (h : Terminated (line ++ newline :: rest)) :
    Terminated rest := by
  have hdrop := h.drop (line.length + 1)
  rwa [← List.drop_drop, List.drop_left] at hdrop

theorem Terminated.eq_nil {t : Bytes} (h : Terminated t) (hplain : newline ∉ t) : t = [] := by
  by_contra hne
  have hlast := h (t.getLast hne) (List.getLast?_eq_some_getLast hne)
  exact hplain (hlast ▸ List.getLast_mem hne)

/-- Behind whole lines, a line of the text has a comment: `c` behind the code `p`. -/
structure CommentAt (text before p c : Bytes) : Prop where
  whole : Terminated before
  code : Code p
  noNewline : newline ∉ c
  located : ∃ after, text = before ++ (p ++ (hash :: c ++ newline :: after))

namespace CommentAt

variable {text before p c : Bytes}

theorem length_le (h : CommentAt text before p c) : p.length + c.length + 2 ≤ text.length := by
  obtain ⟨after, rfl⟩ := h.located
  simp only [List.length_append, List.length_cons]
  omega

theorem behind (h : CommentAt text before p c) (line : Bytes) :
    CommentAt (line ++ newline :: text) (line ++ newline :: before) p c := by
  obtain ⟨after, rfl⟩ := h.located
  exact ⟨h.whole.line_append line, h.code, h.noNewline, after, by simp⟩

theorem append (h : CommentAt text before p c) (rest : Bytes) :
    CommentAt (text ++ rest) before p c := by
  obtain ⟨after, rfl⟩ := h.located
  exact ⟨h.whole, h.code, h.noNewline, after ++ rest, by simp⟩

end CommentAt

/-- Whole lines lose their comments before what follows them. -/
theorem stripComments_append {t : Bytes} (ht : Terminated t) (rest : Bytes) :
    stripComments (t ++ rest) = stripComments t ++ stripComments rest := by
  induction t using lines_induction with
  | htail t h =>
      rw [ht.eq_nil h, stripComments_tail List.not_mem_nil]
      rfl
  | hline line t hline ih =>
      rw [List.append_assoc, List.cons_append, stripComments_line hline, ih ht.rest,
        stripComments_line hline, List.append_assoc, List.cons_append]

theorem terminated_stripComments {t : Bytes} (ht : Terminated t) :
    Terminated (stripComments t) := by
  induction t using lines_induction with
  | htail t h =>
      rw [ht.eq_nil h, stripComments_tail List.not_mem_nil]
      exact terminated_nil
  | hline line t hline ih =>
      rw [stripComments_line hline]
      exact (ih ht.rest).line_append _

theorem stripComments_comment {p c : Bytes} (hp : Code p) (hc : newline ∉ c) (rest : Bytes) :
    stripComments (p ++ (hash :: c ++ newline :: rest)) =
      p ++ newline :: stripComments rest := by
  have hline : newline ∉ p ++ hash :: c := by
    rw [List.mem_append, List.mem_cons, not_or, not_or]
    exact ⟨hp.noNewline, by decide, hc⟩
  rw [← List.append_assoc, stripComments_line hline, beforeComment_append hp.outside]

end TextLines
