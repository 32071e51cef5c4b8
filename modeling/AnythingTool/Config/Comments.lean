import AnythingTool.Config.FailClosed
import AnythingTool.Library.TextLines

/-!
# Comments

A `#` cuts the piece of a line that `fgets` delivers, not the line. What a comment says
behind the piece in which it starts is read like lines of their own. A load takes the same
course without the comments exactly when it comes upon no such piece that is not idle, and
then it leaves the same behind (`sameLoad_of_idle`).
-/

namespace AnythingTool

open CText TextLines

/-! ## What a load leaves -/

/-- The configuration behind the lines, up to the one that is refused. -/
def configAfter (st : LoadState) : List Bytes → Config
  | [] => st.config
  | line :: lines =>
      match loadLine st line with
      | .error _ => refusedConfig st.config line
      | .ok st' => configAfter st' lines

/-- What `anything_config_load_with_options` leaves in `*config`, whatever it returns. -/
def anythingConfigAfterLoad : Option Bytes → Config
  | none => anythingConfigInit
  | some file => configAfter ⟨anythingConfigInit, false⟩ (fgetsLines file)

theorem configAfter_of_ok {st st' : LoadState} {lines : List Bytes}
    (h : lines.foldlM loadLine st = .ok st') : configAfter st lines = st'.config := by
  induction lines generalizing st with
  | nil =>
      obtain rfl := Except.ok.inj h
      rfl
  | cons line lines ih =>
      obtain ⟨st'', hline, hlines⟩ := run_cons h
      rw [configAfter, hline]
      exact ih hlines

/-- A load that succeeds leaves the configuration it has checked. -/
theorem configAfter_of_load {file : Bytes} {allow : Bool} {config : Config}
    (h : anythingConfigLoadWithOptions (some file) allow = .ok config) :
    anythingConfigAfterLoad (some file) = config := by
  obtain ⟨st, hloop, rfl⟩ := loadLoop_of_load h
  rw [loadLoop_eq] at hloop
  exact configAfter_of_ok hloop

theorem configAfter_append (st : LoadState) (lines lines' : List Bytes) :
    configAfter st (lines ++ lines') =
      match lines.foldlM loadLine st with
      | .error _ => configAfter st lines
      | .ok st' => configAfter st' lines' := by
  induction lines generalizing st with
  | nil => rfl
  | cons line lines ih =>
      rw [List.cons_append, configAfter, List.foldlM_cons]
      cases hline : loadLine st line with
      | error e =>
          change refusedConfig st.config line = configAfter st (line :: lines)
          rw [configAfter, hline]
      | ok st' =>
          change configAfter st' (lines ++ lines') = match lines.foldlM loadLine st' with
            | .error _ => configAfter st (line :: lines)
            | .ok st'' => configAfter st'' lines'
          rw [ih, configAfter, hline]

/-! ## The course of a load -/

/-- The states a load goes through, of each line that changes the state the one behind it,
and the refusal of a line. -/
def loadCourse (st : LoadState) : List Bytes → List (Except ConfigError LoadState)
  | [] => []
  | line :: lines =>
      match loadLine st line with
      | .error e => [.error e]
      | .ok st' => if st' = st then loadCourse st lines else .ok st' :: loadCourse st' lines

/-- A load ends in the last state of its course. -/
theorem run_eq_loadCourse (st : LoadState) (lines : List Bytes) :
    lines.foldlM loadLine st = (loadCourse st lines).getLast?.getD (.ok st) := by
  induction lines generalizing st with
  | nil => rfl
  | cons line lines ih =>
      rw [List.foldlM_cons, loadCourse]
      cases loadLine st line with
      | error e => rfl
      | ok st' =>
          change lines.foldlM loadLine st' = _
          simp only
          split_ifs with hsame
          · rw [hsame]
            exact ih st
          · rw [List.getLast?_cons, Option.getD_some]
            exact ih st'

theorem loadCourse_append (st : LoadState) (lines lines' : List Bytes) :
    loadCourse st (lines ++ lines') =
      loadCourse st lines ++
        match lines.foldlM loadLine st with
        | .error _ => []
        | .ok st' => loadCourse st' lines' := by
  induction lines generalizing st with
  | nil => rfl
  | cons line lines ih =>
      rw [List.cons_append, loadCourse, loadCourse, List.foldlM_cons]
      cases loadLine st line with
      | error e => rfl
      | ok st' =>
          change (if st' = st then loadCourse st (lines ++ lines')
            else .ok st' :: loadCourse st' (lines ++ lines')) =
              (if st' = st then loadCourse st lines else .ok st' :: loadCourse st' lines) ++
                match lines.foldlM loadLine st' with
                | .error _ => []
                | .ok st'' => loadCourse st'' lines'
          by_cases hsame : st' = st
          · rw [if_pos hsame, if_pos hsame, ih, hsame]
          · rw [if_neg hsame, if_neg hsame, ih, List.cons_append]

/-- What follows matters from the states that are reached. -/
theorem loadCourse_append_congr {st : LoadState} {l₁ l₁' l₂ l₂' : List Bytes}
    (h₁ : loadCourse st l₁ = loadCourse st l₁')
    (h₂ : ∀ st', l₁.foldlM loadLine st = .ok st' → loadCourse st' l₂ = loadCourse st' l₂') :
    loadCourse st (l₁ ++ l₂) = loadCourse st (l₁' ++ l₂') := by
  rw [loadCourse_append, loadCourse_append, run_eq_loadCourse st l₁', ← h₁, ← run_eq_loadCourse]
  cases hrun : l₁.foldlM loadLine st with
  | error e => rfl
  | ok st' => exact congrArg (loadCourse st l₁ ++ ·) (h₂ st' hrun)

theorem loadCourse_eq_nil_iff {st : LoadState} {lines : List Bytes} :
    loadCourse st lines = [] ↔ ∀ line ∈ lines, Idle st line := by
  induction lines with
  | nil => exact iff_of_true rfl (List.forall_mem_nil _)
  | cons line lines ih =>
      rw [List.forall_mem_cons, ← loadLine_eq_self_iff, ← ih, loadCourse]
      cases loadLine st line with
      | error e => simp
      | ok st' =>
          by_cases hsame : st' = st
          · simp [hsame]
          · simp [hsame]

/-- From a state, the lines take a load the same course, and it leaves the same behind. -/
structure SameFrom (st : LoadState) (lines lines' : List Bytes) : Prop where
  course : loadCourse st lines = loadCourse st lines'
  after : configAfter st lines = configAfter st lines'

namespace SameFrom

theorem refl (st : LoadState) (lines : List Bytes) : SameFrom st lines lines := ⟨rfl, rfl⟩

theorem run {st : LoadState} {lines lines' : List Bytes} (h : SameFrom st lines lines') :
    lines.foldlM loadLine st = lines'.foldlM loadLine st := by
  rw [run_eq_loadCourse, run_eq_loadCourse, h.course]

theorem append {st : LoadState} {l₁ l₁' l₂ l₂' : List Bytes} (h₁ : SameFrom st l₁ l₁')
    (h₂ : ∀ st', l₁.foldlM loadLine st = .ok st' → SameFrom st' l₂ l₂') :
    SameFrom st (l₁ ++ l₂) (l₁' ++ l₂') := by
  refine ⟨loadCourse_append_congr h₁.course fun st' hrun => (h₂ st' hrun).course, ?_⟩
  rw [configAfter_append, configAfter_append, ← h₁.run]
  cases hrun : l₁.foldlM loadLine st with
  | error e => exact h₁.after
  | ok st' => exact (h₂ st' hrun).after

/-- Idle lines can be left out. -/
theorem idle {st : LoadState} {lines : List Bytes} (h : ∀ line ∈ lines, Idle st line) :
    SameFrom st lines [] := by
  have hcourse := loadCourse_eq_nil_iff.mpr h
  refine ⟨hcourse, configAfter_of_ok ?_⟩
  rw [run_eq_loadCourse, hcourse]
  rfl

/-- Of a line only its text matters. -/
theorem text {line line' : Bytes} (h : lineText line = lineText line') (st : LoadState) :
    SameFrom st [line] [line'] := by
  have hentry : entryOf line = entryOf line' := by
    rw [entryOf_eq, entryOf_eq, h]
  have hload : loadLine st line = loadLine st line' := by
    rw [loadLine_eq, loadLine_eq, h, hentry]
  have hrefused : refusedConfig st.config line = refusedConfig st.config line' := by
    rw [refusedConfig, refusedConfig, hentry]
  constructor
  · rw [loadCourse, loadCourse, hload]
    rfl
  · rw [configAfter, configAfter, hload, hrefused]

end SameFrom

/-- Two files that are loaded alike: with the same return value and the same configuration
behind it. -/
def SameLoad (file file' : Bytes) : Prop :=
  (∀ allow, (anythingConfigLoadWithOptions (some file) allow).isOk =
    (anythingConfigLoadWithOptions (some file') allow).isOk) ∧
    anythingConfigAfterLoad (some file) = anythingConfigAfterLoad (some file')

theorem SameFrom.sameLoad {file file' : Bytes}
    (h : SameFrom ⟨anythingConfigInit, false⟩ (fgetsLines file) (fgetsLines file')) :
    SameLoad file file' := by
  refine ⟨?_, h.after⟩
  intro allow
  rw [anythingConfigLoadWithOptions, anythingConfigLoadWithOptions, loadLoop_eq, loadLoop_eq,
    h.run]

/-! ## The pieces of a line -/

theorem fgetsLines_nil : fgetsLines [] = [] := fgetsLines_none rfl

theorem fgetsLines_append {t : Bytes} (ht : Terminated t) (rest : Bytes) :
    fgetsLines (t ++ rest) = fgetsLines t ++ fgetsLines rest := by
  induction t using fgetsLines.induct with
  | case1 t hend =>
      rw [fgetsLines_none hend, fgets_eq_none.mp hend]
      rfl
  | case2 t line more hline ih =>
      obtain ⟨hne, hread⟩ := fgets_eq_some.mp hline
      obtain ⟨hwhole, hmore⟩ := takeLine_terminated (k := 511) ht hne rest
      rw [hread] at hwhole hmore
      have hfirst : fgets 512 (t ++ rest) = some (line, more ++ rest) :=
        fgets_eq_some.mpr ⟨by simp [hne], hwhole⟩
      rw [fgetsLines_some hfirst, fgetsLines_some hline, ih hmore]
      rfl

/-- The pieces behind the one in which `s` starts, at a column of its line. -/
def piecesBehind (column : ℕ) (s : Bytes) : List Bytes := fgetsLines (s.drop (511 - column % 511))

/-- The first piece of a line, and the rest of it. -/
theorem fgetsLines_line {line : Bytes} (h : newline ∉ line) :
    fgetsLines (line ++ [newline]) =
      (line ++ [newline]).take 511 :: fgetsLines ((line ++ [newline]).drop 511) :=
  fgetsLines_some (fgets_eq_some.mpr ⟨by simp, takeLine_line h 511⟩)

/-- The pieces of a line that ends in `s`: those in front of `s` are the same for all such
lines, then comes the piece in which `s` starts. -/
theorem exists_pieces {p : Bytes} (hp : newline ∉ p) :
    ∃ past q, ∀ s, newline ∉ s →
      fgetsLines (p ++ (s ++ [newline])) =
        past ++ (q ++ (s ++ [newline]).take (511 - p.length % 511)) ::
          piecesBehind p.length (s ++ [newline]) := by
  induction hlen : p.length using Nat.strong_induction_on generalizing p with
  | _ n ih =>
      have hline : ∀ s, newline ∉ s → newline ∉ p ++ s := by
        intro s hs
        rw [List.mem_append, not_or]
        exact ⟨hp, hs⟩
      by_cases hshort : n < 511
      · refine ⟨[], p, ?_⟩
        intro s hs
        rw [← List.append_assoc, fgetsLines_line (hline s hs), List.append_assoc,
          List.take_append, List.drop_append, List.take_of_length_le (by omega),
          List.drop_eq_nil_of_le (by omega), piecesBehind, Nat.mod_eq_of_lt hshort, hlen]
        rfl
      · have hmod : (n - 511) % 511 = n % 511 := (Nat.mod_eq_sub_mod (by omega)).symm
        have hdrop : (p.drop 511).length = n - 511 := by
          rw [List.length_drop, hlen]
        obtain ⟨past, q, hpieces⟩ := ih (n - 511) (by omega)
          (fun h => hp (List.mem_of_mem_drop h)) hdrop
        refine ⟨p.take 511 :: past, q, ?_⟩
        intro s hs
        rw [← List.append_assoc, fgetsLines_line (hline s hs), List.append_assoc,
          List.take_append_of_le_length (by omega), List.drop_append_of_le_length (by omega),
          hpieces s hs, piecesBehind, piecesBehind, hmod]
        rfl

/-! ## Comments -/

theorem trim_newline (t : Bytes) : trim (t ++ [newline]) = trim t := by
  have hspace : (decide (isspace newline)) = true := by decide
  rw [trim, trim, List.dropWhile_append]
  cases hdrop : t.dropWhile fun c => isspace c with
  | nil =>
      rw [List.isEmpty_nil, if_pos rfl]
      rfl
  | cons c r =>
      rw [List.isEmpty_cons, if_neg Bool.false_ne_true, List.reverse_append]
      exact congrArg List.reverse (List.dropWhile_cons_of_pos hspace)

/-- What the loader looks at ends at a `#`. -/
theorem lineText_hash (q x : Bytes) : lineText (q ++ hash :: x) = lineText (q ++ [newline]) := by
  have htext : ∃ y, (cstr (q ++ hash :: x)).takeWhile (· ≠ 0x23) = y ∧
      ((cstr (q ++ [newline])).takeWhile (· ≠ 0x23) = y ∨
        (cstr (q ++ [newline])).takeWhile (· ≠ 0x23) = y ++ [newline]) := by
    induction q with
    | nil => exact ⟨[], rfl, .inr rfl⟩
    | cons c q ih =>
        obtain ⟨y, hy, hline⟩ := ih
        by_cases h0 : c = 0
        · exact ⟨[], by simp [cstr, h0], .inl (by simp [cstr, h0])⟩
        · by_cases hhash : c = 0x23
          · exact ⟨[], by simp [cstr, hhash], .inl (by simp [cstr, hhash])⟩
          · have hcons : ∀ t : Bytes, (cstr (c :: t)).takeWhile (· ≠ 0x23) =
                c :: (cstr t).takeWhile (· ≠ 0x23) := by
              intro t
              simp [cstr, h0, hhash]
            refine ⟨c :: y, by rw [List.cons_append, hcons, hy], ?_⟩
            rw [List.cons_append, hcons]
            rcases hline with hline | hline
            · exact .inl (by rw [hline])
            · exact .inr (by rw [hline]; rfl)
  obtain ⟨y, hy, hline | hline⟩ := htext
  · rw [lineText, lineText, hy, hline]
  · rw [lineText, lineText, hy, hline, trim_newline]

/-- A line with a comment is read as the line without it, then come the pieces behind. -/
theorem sameFrom_line {p c : Bytes} (hp : newline ∉ p) (hc : newline ∉ c) :
    ∃ front, fgetsLines (p ++ (hash :: c ++ [newline])) =
        front ++ piecesBehind p.length (hash :: (c ++ [newline])) ∧
      ∀ st, SameFrom st front (fgetsLines (p ++ [newline])) := by
  have hcomment : newline ∉ hash :: c := by
    rw [List.mem_cons, not_or]
    exact ⟨by decide, hc⟩
  obtain ⟨past, q, hpieces⟩ := exists_pieces hp
  have hcode := hpieces [] List.not_mem_nil
  obtain ⟨k, hk⟩ : ∃ k, 511 - p.length % 511 = k + 1 := ⟨510 - p.length % 511, by omega⟩
  have hnone : piecesBehind p.length [newline] = [] := by
    rw [piecesBehind, hk, List.drop_succ_cons, List.drop_nil]
    exact fgetsLines_nil
  rw [List.nil_append, hnone, hk, List.take_succ_cons, List.take_nil] at hcode
  rw [hpieces _ hcomment, hcode, hk]
  refine ⟨past ++ [q ++ hash :: (c ++ [newline]).take k], by simp, ?_⟩
  intro st
  exact (SameFrom.refl st past).append fun st' _ => .text (lineText_hash q _) st'

/-- What the loader comes upon behind the first piece of a comment is idle. -/
def CommentsIdle (st : LoadState) (file : Bytes) : Prop :=
  ∀ before p c st', CommentAt file before p c →
    loadLoop st (before ++ (p ++ [newline])) = .ok st' →
    ∀ line ∈ piecesBehind p.length (hash :: (c ++ [newline])), Idle st' line

namespace CommentsIdle

variable {st st' : LoadState} {line file rest : Bytes}

theorem of_append (h : CommentsIdle st (file ++ rest)) : CommentsIdle st file :=
  fun before p c st' hcomment => h before p c st' (hcomment.append rest)

theorem behind (h : CommentsIdle st (line ++ newline :: rest))
    (hline : loadLoop st (line ++ [newline]) = .ok st') : CommentsIdle st' rest := by
  intro before p c st'' hcomment hrun
  apply h _ p c st'' (hcomment.behind line)
  rw [loadLoop_eq] at hline hrun ⊢
  have hsplit : line ++ newline :: before ++ (p ++ [newline]) =
      line ++ [newline] ++ (before ++ (p ++ [newline])) := by simp
  rw [hsplit, fgetsLines_append (terminated_snoc line), List.foldlM_append, hline]
  exact hrun

end CommentsIdle

/-- The load goes on as without the comments while it comes upon idle pieces only. -/
theorem sameFrom_stripComments {st : LoadState} {file : Bytes} (h : CommentsIdle st file) :
    SameFrom st (fgetsLines file) (fgetsLines (stripComments file)) := by
  induction file using lines_induction generalizing st with
  | htail t ht =>
      rw [stripComments_tail ht]
      exact .refl st _
  | hline line rest hline ih =>
      have hwhole : ∀ line rest : Bytes, fgetsLines (line ++ newline :: rest) =
          fgetsLines (line ++ [newline]) ++ fgetsLines rest := by
        intro line rest
        rw [← fgetsLines_append (terminated_snoc line), List.append_assoc]
        rfl
      rw [stripComments_line hline, hwhole line rest, hwhole _ (stripComments rest)]
      refine SameFrom.append ?_ fun st' hrun => ih (h.behind (by rw [loadLoop_eq, hrun]))
      rcases beforeComment_cases false line with hnone | ⟨p, c, rfl, hcode⟩
      · rw [hnone]
        exact .refl st _
      · rw [List.mem_append, List.mem_cons, not_or, not_or] at hline
        have hcomment : CommentAt (p ++ hash :: c ++ newline :: rest) [] p c :=
          ⟨terminated_nil, ⟨hline.1, hcode⟩, hline.2.2, rest, by simp⟩
        obtain ⟨front, hpieces, hfront⟩ := sameFrom_line hline.1 hline.2.2
        rw [beforeComment_append hcode, List.append_assoc, hpieces,
          ← List.append_nil (fgetsLines (p ++ [newline]))]
        refine (hfront st).append fun st' hrun => .idle ?_
        apply h [] p c st' hcomment
        rw [loadLoop_eq, List.nil_append, ← (hfront st).run, hrun]

/-- Behind each of its lines, a load has taken the same course as without the comments. -/
def SameCourse (file : Bytes) : Prop :=
  ∀ before after, Terminated before → file = before ++ after →
    loadCourse ⟨anythingConfigInit, false⟩ (fgetsLines before) =
      loadCourse ⟨anythingConfigInit, false⟩ (fgetsLines (stripComments before))

theorem SameCourse.commentsIdle {file : Bytes} (h : SameCourse file) :
    CommentsIdle ⟨anythingConfigInit, false⟩ file := by
  intro before p c st hcomment hrun
  obtain ⟨after, hfile⟩ := hcomment.located
  obtain ⟨front, hpieces, hfront⟩ :=
    sameFrom_line hcomment.code.noNewline hcomment.noNewline
  have hbefore := h before _ hcomment.whole hfile
  -- up to the first piece of the comment the courses are the same
  have hfirst : loadCourse ⟨anythingConfigInit, false⟩ (fgetsLines before ++ front) =
      loadCourse ⟨anythingConfigInit, false⟩
        (fgetsLines (stripComments before) ++ fgetsLines (p ++ [newline])) :=
    loadCourse_append_congr hbefore fun st' _ => (hfront st').course
  have hreached : (fgetsLines before ++ front).foldlM loadLine ⟨anythingConfigInit, false⟩ =
      .ok st := by
    rw [loadLoop_eq, fgetsLines_append hcomment.whole, run_eq_loadCourse] at hrun
    rw [run_eq_loadCourse, ← hrun, loadCourse_append_congr rfl fun st' _ => (hfront st').course]
  -- so behind it there is nothing left of the course
  have hwhole : Terminated (before ++ (p ++ (hash :: c ++ [newline]))) := by
    rw [← List.append_assoc, ← List.append_assoc]
    exact terminated_snoc _
  have hline := h (before ++ (p ++ (hash :: c ++ [newline]))) after hwhole (by simp [hfile])
  rw [stripComments_append hcomment.whole, stripComments_comment hcomment.code
    hcomment.noNewline, stripComments_tail List.not_mem_nil, fgetsLines_append hcomment.whole,
    fgetsLines_append (terminated_stripComments hcomment.whole), hpieces, ← List.append_assoc,
    loadCourse_append, hreached, ← hfirst] at hline
  exact loadCourse_eq_nil_iff.mp (List.append_right_eq_self.mp hline)

/-- A load takes the same course with and without comments exactly when these are idle behind
their first pieces, and then it ends alike. -/
theorem sameLoad_of_idle (file : Bytes) :
    (CommentsIdle ⟨anythingConfigInit, false⟩ file → SameLoad file (stripComments file)) ∧
      (CommentsIdle ⟨anythingConfigInit, false⟩ file ↔ SameCourse file) := by
  refine ⟨fun h => (sameFrom_stripComments h).sameLoad, ?_, SameCourse.commentsIdle⟩
  intro h before after _ hfile
  subst hfile
  exact (sameFrom_stripComments h.of_append).course

/-- Comments in lines that fit the buffer are idle behind their first pieces: there are no
others. -/
theorem commentsIdle_of_short {file : Bytes}
    (h : ∀ before p c, CommentAt file before p c → p.length + c.length + 2 ≤ 511)
    (st : LoadState) : CommentsIdle st file := by
  intro before p c st' hcomment _
  have hfits := h before p c hcomment
  have hshort : (hash :: (c ++ [newline])).length ≤ 511 - p.length % 511 := by
    rw [Nat.mod_eq_of_lt (by omega), List.length_cons, List.length_append, List.length_singleton]
    omega
  rw [piecesBehind, List.drop_eq_nil_of_le hshort, fgetsLines_nil]
  exact List.forall_mem_nil _

theorem sameLoad_sample : SameLoad allowlistFile (stripComments allowlistFile) := by
  have hlength : allowlistFile.length ≤ 511 := by decide
  apply (sameLoad_of_idle allowlistFile).1
  exact commentsIdle_of_short (fun _ _ _ hcomment => hcomment.length_le.trans hlength) _

/-- A file with a comment of 510 bytes, and the text of an entry behind them. -/
def longComment : Bytes :=
  ascii "allowed_uids = [1000]\n#" ++ List.replicate 510 0x20 ++ ascii "sys_read = true\n"

/-- The entry in the comment is loaded. -/
theorem not_sameLoad : ¬ ∀ file, SameLoad file (stripComments file) := by
  intro h
  have hwith : (anythingConfigLoadWithOptions (some longComment) false).toOption.map
      Config.capabilitySysRead = some true := by
    decide +kernel
  have hwithout : (anythingConfigLoadWithOptions (some (stripComments longComment))
      false).toOption.map Config.capabilitySysRead = some false := by
    decide +kernel
  obtain ⟨config, hload, hread⟩ := Option.map_eq_some_iff.mp hwith
  obtain ⟨config', hload', hread'⟩ := Option.map_eq_some_iff.mp hwithout
  have hsame := (h longComment).2
  rw [configAfter_of_load (toOption_eq_some.mp hload),
    configAfter_of_load (toOption_eq_some.mp hload')] at hsame
  rw [hsame, hread'] at hread
  cases hread

end AnythingTool
