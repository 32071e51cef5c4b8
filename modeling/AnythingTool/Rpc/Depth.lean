import AnythingTool.Rpc.Extract
import AnythingTool.Rpc.Members

/-!
# The depth of the keys the parser takes

The keys the parser acts on should be those of the outermost object. `RpcReach` and
`ExtractReach` follow the loops from key to key with the text they have read. The scanners
of the values follow one kind of bracket each, or none, so a value can open or close
brackets that the loop knows nothing of; `uncounted` says which. The loop's keys are at
depth one exactly when these cancel out in the members in front of each key that is taken
(`depthOne_iff`).
-/

namespace AnythingTool

open CText JsonText

/-- The loop is at a key in state `st`, and has read `t` so far. -/
inductive RpcReach (body : Bytes) : Bytes → RpcLoop → Prop
  | start {t : Bytes} {st : RpcLoop} (hstart : rpcStart body = .ok st)
      (htext : body = t ++ st.p) : RpcReach body t st
  | next {t u q : Bytes} {st st' : RpcLoop} (h : RpcReach body t st)
      (hmember : rpcMember st = .ok st') (hnext : rpcSeparator st'.p = .ok (.another q))
      (htext : st.p = u ++ q) : RpcReach body (t ++ u) { st' with p := q }

/-- The key at the cursor is one of those the loop takes. -/
def TakesKey (st : RpcLoop) : Prop :=
  ∃ key v, scanKey st.p = .ok (key, v) ∧ key.bytes ∈ takenKeys

/-- The depth behind a text: brackets opened and not closed, outside literals. -/
def depthAfter (t : Bytes) : ℤ := ((Lex.mk 0 .outside).scan t).depth

/-- Every key the loop takes is at depth one of the body. -/
def TakenAtDepthOne (body : Bytes) : Prop :=
  ∀ t st, RpcReach body t st → TakesKey st → depthAfter t = 1

/-- The extraction is at a key or at the end, with the cursor `p`, and has read `t`. -/
inductive ExtractReach (key params : Bytes) : Bytes → Bytes → Prop
  | start {t p : Bytes} (hopen : skipWs params = lbrace :: p) (htext : params = t ++ skipWs p) :
      ExtractReach key params t (skipWs p)
  | next {t u p v r s q : Bytes} {c : UInt8} {found : CString 64}
      (h : ExtractReach key params t p) (hend : ¬ (deref p = 0 ∨ deref p = rbrace))
      (hscan : scanKey p = .ok (found, v)) (hfound : found.bytes ≠ key)
      (hskip : skipJsonValue v = some r) (hnext : skipWs r = c :: s)
      (hq : q = if c = comma then skipWs s else c :: s) (htext : p = u ++ q) :
      ExtractReach key params (t ++ u) q

/-- The key at the cursor is the one that is asked for. -/
def Matches (key p : Bytes) : Prop := ∃ found v, scanKey p = .ok (found, v) ∧ found.bytes = key

/-- The key that is matched is at depth one of the parameters. -/
def MatchedAtDepthOne (key params : Bytes) : Prop :=
  ∀ t p, ExtractReach key params t p → Matches key p → depthAfter t = 1

/-! ## The members in front of a key -/

/-- What the scanner of a value does not count: the other kind of bracket in an object or an
array, every bracket of a bare text. The mode says whether a literal is left open. -/
def uncounted (v : Bytes) : Lex :=
  if deref v = quote then ⟨0, .outside⟩
  else if deref v = lbrace then (Lex.mk 0 .outside).counts lbracket rbracket v
  else if deref v = lbracket then (Lex.mk 0 .outside).counts lbrace rbrace v
  else (Lex.mk 0 .outside).scan v

/-- How many more brackets the members open than they close. Only the values count, until
one leaves a literal open: the keys behind it are then read as they stand. -/
def surplus : List Passage → ℤ
  | [] => 0
  | m :: ms =>
      if (uncounted m.value).mode = .outside then (uncounted m.value).depth + surplus ms
      else depthAfter (m.value ++ (m.behind ++ membersText ms))

/-- White space with a comma in it, or without. -/
def AtGap (b : Bytes) : Prop := AtComma b ∨ Spaces b

/-- The members `ms` stand in front of a key of the given kind in the object `text`. -/
def MembersBefore (ends IsKey : Bytes → Prop) (text : Bytes) (ms : List Passage) : Prop :=
  ∃ w₀ w₁ raw key rest, Spaces w₀ ∧ Spaces w₁ ∧ (∀ m ∈ ms, m.Reads ends) ∧
    StringBody raw key ∧ IsKey key ∧
    text = w₀ ++ lbrace :: (w₁ ++ (membersText ms ++ (literal raw ++ rest)))

theorem AtGap.flat {b : Bytes} (h : AtGap b) : Flat b := h.elim AtComma.flat Spaces.flat

/-- The brackets that the scanner of a value counts cancel out. -/
theorem ValueText.scan_eq {b v : Bytes} (h : ValueText b v) :
    (Lex.mk 0 .outside).scan v = uncounted v := by
  have hcounts := (Lex.scan_eq_counts 0 0 .outside v)
  rw [zero_add] at hcounts
  cases h with
  | literal h => exact (Flat.literal h).neutral 0
  | @braces t h =>
      have hclosed : (Lex.mk 0 .outside).counts lbrace rbrace (lbrace :: t) = ⟨0, .outside⟩ :=
        h.closes braces_pair
      have hkind : uncounted (lbrace :: t) =
          (Lex.mk 0 .outside).counts lbracket rbracket (lbrace :: t) := rfl
      rw [hcounts.1, hkind]
      refine Lex.ext ?_ hcounts.2
      rw [hclosed, zero_add]
  | @brackets t h =>
      have hclosed : (Lex.mk 0 .outside).counts lbracket rbracket (lbracket :: t) =
          ⟨0, .outside⟩ := h.closes brackets_pair
      have hkind : uncounted (lbracket :: t) =
          (Lex.mk 0 .outside).counts lbrace rbrace (lbracket :: t) := rfl
      rw [hcounts.1, hkind, hclosed, add_zero]
  | bare hstart _ _ =>
      rw [uncounted, if_neg hstart.2.1, if_neg hstart.2.2.1, if_neg hstart.2.2.2]

/-- Behind members the depth has grown by their surplus. -/
theorem scan_membersText {ms : List Passage} (h : ∀ m ∈ ms, m.Reads AtGap) (d : ℤ) :
    ((Lex.mk d .outside).scan (membersText ms)).depth = d + surplus ms := by
  induction ms generalizing d with
  | nil => exact (add_zero d).symm
  | cons m ms ih =>
      have hm := h m List.mem_cons_self
      have hms := ih fun m' hm' => h m' (List.mem_cons_of_mem m hm')
      have htext : membersText (m :: ms) =
          m.head ++ (m.value ++ (m.behind ++ membersText ms)) := by
        simp [Passage.text]
      rw [htext, Lex.scan_append, hm.flat_head.neutral d, surplus, depthAfter]
      by_cases hmode : (uncounted m.value).mode = .outside
      · rw [if_pos hmode, Lex.scan_append, Lex.scan_outside, hm.value.scan_eq, hmode,
          Lex.scan_append, hm.behind.flat.neutral, hms]
        ring
      · rw [if_neg hmode, Lex.scan_outside, add_comm]

/-- The depth at a key: the opening brace, and the surplus of the members before it. -/
theorem depthAfter_members {w₀ w₁ : Bytes} {ms : List Passage} (hw₀ : Spaces w₀)
    (hw₁ : Spaces w₁) (h : ∀ m ∈ ms, m.Reads AtGap) :
    depthAfter (w₀ ++ lbrace :: (w₁ ++ membersText ms)) = 1 + surplus ms := by
  have hopen : (Lex.mk 0 .outside).step lbrace = ⟨1, .outside⟩ := rfl
  rw [depthAfter, Lex.scan_append, hw₀.flat.neutral 0, Lex.scan_cons, hopen, Lex.scan_append,
    hw₁.flat.neutral 1, scan_membersText h]

/-- Well-formed values leave no surplus. -/
theorem surplus_of_balanced {ms : List Passage} (h : ∀ m ∈ ms, m.Reads AtGap)
    (hvalues : ∀ m ∈ ms, Balanced m.value) : surplus ms = 0 := by
  induction ms with
  | nil => rfl
  | cons m ms ih =>
      have hm := (h m List.mem_cons_self).value.scan_eq
      rw [(hvalues m List.mem_cons_self).neutral 0] at hm
      have hrest := ih (fun m' hm' => h m' (List.mem_cons_of_mem m hm'))
        (fun m' hm' => hvalues m' (List.mem_cons_of_mem m hm'))
      rw [surplus, ← hm, if_pos rfl, hrest]
      rfl

theorem deref_literal (raw rest : Bytes) : deref (literal raw ++ rest) = quote := rfl

/-- The cursor at a key, as a text. -/
theorem literal_of_scanKey {p v : Bytes} {key : CString 64} (h : scanKey p = .ok (key, v)) :
    ∃ raw rest, StringBody raw key.bytes ∧ p = literal raw ++ rest := by
  obtain ⟨raw, w, -, hraw, hp, -, -⟩ := scanKey_eq_ok.mp h
  exact ⟨raw, w, hraw, hp⟩

/-- Members, and a key behind them, start with a quote. -/
theorem membersText_literal (ms : List Passage) (raw rest : Bytes) :
    ∃ raw' rest', membersText ms ++ (literal raw ++ rest) = literal raw' ++ rest' := by
  cases ms with
  | nil => exact ⟨raw, rest, rfl⟩
  | cons m ms =>
      exact ⟨m.rawKey, _, by rw [membersText_cons, Passage.text, Passage.head]; simp; rfl⟩

theorem AtComma.skipWs {b : Bytes} (h : AtComma b) (raw rest : Bytes) :
    ∃ r, AnythingTool.skipWs (b ++ (literal raw ++ rest)) = comma :: r ∧
      AnythingTool.skipWs r = literal raw ++ rest := by
  obtain ⟨w, v, hw, hv, rfl⟩ := h
  refine ⟨v ++ (literal raw ++ rest), ?_, ?_⟩
  · rw [List.append_assoc, List.cons_append, skipWs_of_spaces hw, skipWs_cons (by decide)]
  · rw [skipWs_of_spaces hv, skipWs_literal]

/-! ## The main loop -/

/-- What the loop has read are the members in front of the cursor. -/
theorem RpcReach.members {body t : Bytes} {st : RpcLoop} (h : RpcReach body t st) :
    body = t ++ st.p ∧ ∃ w₀ w₁ ms, Spaces w₀ ∧ Spaces w₁ ∧ (∀ m ∈ ms, m.Reads AtComma) ∧
      t = w₀ ++ lbrace :: (w₁ ++ membersText ms) := by
  induction h with
  | @start t st hstart htext =>
      obtain ⟨⟨w₀, w₁, hw₀, hw₁, hbody⟩, -⟩ := rpcStart_text hstart
      refine ⟨htext, w₀, w₁, [], hw₀, hw₁, by simp, ?_⟩
      apply List.append_cancel_right
      rw [← htext, hbody]
      simp
  | @next t u q st st' _ hmember hnext htext ih =>
      obtain ⟨hbody, w₀, w₁, ms, hw₀, hw₁, hms, rfl⟩ := ih
      obtain ⟨m, hreads, hp⟩ := exists_passage_another hmember hnext
      obtain rfl : u = m.text := List.append_cancel_right (htext.symm.trans hp)
      refine ⟨by rw [hbody, htext]; simp, w₀, w₁, ms ++ [m], hw₀, hw₁, ?_, ?_⟩
      · intro m' hm'
        rcases List.mem_append.mp hm' with hm' | hm'
        · exact hms m' hm'
        · rw [List.mem_singleton.mp hm']
          exact hreads
      · rw [membersText_concat]
        simp

/-- A loop that returns has read the member at the cursor. -/
theorem exists_rpcMember {st stf : RpcLoop} (h : rpcLoop st = .ok stf) (h0 : deref st.p ≠ 0) :
    ∃ st', rpcMember st = .ok st' := by
  rw [rpcLoop, if_neg h0] at h
  split at h
  · cases h
  · exact ⟨_, by assumption⟩

/-- The loop reads the members that stand in front of a key, up to that key. -/
theorem RpcReach.pass {body t raw rest : Bytes} {st stf : RpcLoop} {ms : List Passage}
    (h : RpcReach body t st) (hloop : rpcLoop st = .ok stf) (hms : ∀ m ∈ ms, m.Reads AtComma)
    (hp : st.p = membersText ms ++ (literal raw ++ rest)) :
    ∃ st', RpcReach body (t ++ membersText ms) st' ∧ st'.p = literal raw ++ rest ∧
      ∃ stf', rpcLoop st' = .ok stf' := by
  induction ms generalizing t st with
  | nil => exact ⟨st, by simpa using h, hp, stf, hloop⟩
  | cons m ms ih =>
      have hm := hms m List.mem_cons_self
      obtain ⟨raw', rest', hnext⟩ := membersText_literal ms raw rest
      have htext : st.p = m.text ++ (literal raw' ++ rest') := by
        rw [hp, ← hnext]
        simp
      have h0 : deref st.p ≠ 0 := by
        obtain ⟨_, _, hquote⟩ := membersText_literal (m :: ms) raw rest
        rw [hp, hquote, deref_literal]
        decide
      obtain ⟨st', hmember⟩ := exists_rpcMember hloop h0
      obtain ⟨key, v, hscan, hskip⟩ := skipJsonValue_of_step (rpcMember_eq_ok.mp hmember)
      rw [htext] at hscan
      have hbehind := (Passage.reads_unique hm hscan hskip).2
      have hsep : rpcSeparator st'.p = .ok (.another (literal raw' ++ rest')) := by
        rw [hbehind]
        exact rpcSeparator_another.mpr (hm.behind.skipWs raw' rest')
      rw [rpcLoop_eq h0 hmember, hsep] at hloop
      have hreach := h.next hmember hsep htext
      have hrest := ih hreach hloop (fun m' hm' => hms m' (List.mem_cons_of_mem m hm')) hnext.symm
      rw [membersText_cons, ← List.append_assoc]
      exact hrest

/-- The keys that are taken are at depth one exactly when the members before each of them
close as many brackets as they open. -/
theorem takenAtDepthOne_iff {body : Bytes} {request : RpcRequest}
    (h : anythingRpcParse body = .ok request) :
    TakenAtDepthOne body ↔
      ∀ ms, MembersBefore AtComma (· ∈ takenKeys) body ms → surplus ms = 0 := by
  have hgap : ∀ {ms : List Passage}, (∀ m ∈ ms, m.Reads AtComma) → ∀ m ∈ ms, m.Reads AtGap :=
    fun hms m hm => (hms m hm).mono fun _ => .inl
  constructor
  · rintro hdepth ms ⟨w₀, w₁, raw, key, rest, hw₀, hw₁, hms, hraw, hkey, rfl⟩
    obtain ⟨st, hstart, h⟩ := bind_eq_ok.mp h
    obtain ⟨stf, hloop, -⟩ := bind_eq_ok.mp h
    obtain ⟨raw', rest', hnext⟩ := membersText_literal ms raw rest
    have hp : st.p = membersText ms ++ (literal raw ++ rest) := by
      rw [rpcStart_cursor hw₀ hstart, skipWs_of_spaces hw₁, hnext, skipWs_literal]
    have hreach : RpcReach _ (w₀ ++ lbrace :: w₁) st := .start hstart (by rw [hp]; simp)
    obtain ⟨st', hreach', hp', stf', hloop'⟩ := hreach.pass hloop hms hp
    have h0 : deref st'.p ≠ 0 := by
      rw [hp', deref_literal]
      decide
    obtain ⟨st'', hmember⟩ := exists_rpcMember hloop' h0
    obtain ⟨key', v, hscan, -⟩ := skipJsonValue_of_step (rpcMember_eq_ok.mp hmember)
    have htakes : TakesKey st' := by
      refine ⟨key', v, hscan, ?_⟩
      obtain ⟨raw'', rest'', hraw'', hcut⟩ := literal_of_scanKey hscan
      rw [← (literal_append_inj hraw hraw'' (hp'.symm.trans hcut)).1]
      exact hkey
    have hone := hdepth _ _ hreach' htakes
    have htext : (w₀ ++ lbrace :: w₁) ++ membersText ms =
        w₀ ++ lbrace :: (w₁ ++ membersText ms) := by simp
    rw [htext, depthAfter_members hw₀ hw₁ (hgap hms)] at hone
    omega
  · intro hsurplus t st hreach htakes
    obtain ⟨hbody, w₀, w₁, ms, hw₀, hw₁, hms, rfl⟩ := hreach.members
    obtain ⟨key, v, hscan, hkey⟩ := htakes
    obtain ⟨raw, rest, hraw, hp⟩ := literal_of_scanKey hscan
    have hzero := hsurplus ms ⟨w₀, w₁, raw, key.bytes, rest, hw₀, hw₁, hms, hraw, hkey,
      by rw [hbody, hp]; simp⟩
    rw [depthAfter_members hw₀ hw₁ (hgap hms), hzero]
    rfl

/-! ## Parameters -/

/-- What the extraction has read in front of a key are the members before it. -/
theorem ExtractReach.members {key params t p : Bytes} (h : ExtractReach key params t p)
    (hp : deref p = quote) :
    params = t ++ p ∧ ∃ w₀ w₁ ms, Spaces w₀ ∧ Spaces w₁ ∧ (∀ m ∈ ms, m.Reads AtGap) ∧
      (∀ m ∈ ms, m.key ≠ key) ∧ t = w₀ ++ lbrace :: (w₁ ++ membersText ms) := by
  induction h with
  | @start t p hopen htext =>
      obtain ⟨w₀, hw₀, h₀⟩ := skipWs_split params
      obtain ⟨w₁, hw₁, h₁⟩ := skipWs_split p
      refine ⟨htext, w₀, w₁, [], hw₀, hw₁, by simp, by simp, ?_⟩
      apply List.append_cancel_right
      rw [← htext, List.append_assoc, List.cons_append, membersText_nil, List.append_nil, ← h₁,
        ← hopen, ← h₀]
  | @next t u p v r s q c found _ hend hscan hfound hskip hnext hq htext ih =>
      obtain ⟨raw, rest, -, hkey⟩ := literal_of_scanKey hscan
      obtain ⟨hparams, w₀, w₁, ms, hw₀, hw₁, hms, hkeys, rfl⟩ := ih (by rw [hkey]; rfl)
      obtain ⟨w, hw, hr⟩ := skipWs_split r
      obtain ⟨b, hgap, hcut⟩ : ∃ b, AtGap b ∧ r = b ++ q := by
        by_cases hc : c = comma
        · obtain ⟨w', hw', hs⟩ := skipWs_split s
          rw [if_pos hc] at hq
          exact ⟨w ++ comma :: w', .inl ⟨w, w', hw, hw', rfl⟩,
            by rw [hr, hnext, hc, hs, ← hq]; simp⟩
        · rw [if_neg hc] at hq
          exact ⟨w, .inr hw, by rw [hr, hnext, ← hq]⟩
      have hbare : b = [] → ¬ EndsBare (deref q) := by
        intro _
        rw [hp, EndsBare]
        decide
      obtain ⟨m, hname, -, hm, hreads⟩ := exists_passage hscan hskip hcut hbare
      obtain rfl : u = m.text := List.append_cancel_right (htext.symm.trans hm)
      refine ⟨by rw [hparams, htext]; simp, w₀, w₁, ms ++ [m], hw₀, hw₁, ?_, ?_, ?_⟩
      · intro m' hm'
        rcases List.mem_append.mp hm' with hm' | hm'
        · exact hms m' hm'
        · rw [List.mem_singleton.mp hm']
          exact hreads _ hgap
      · intro m' hm'
        rcases List.mem_append.mp hm' with hm' | hm'
        · exact hkeys m' hm'
        · rw [List.mem_singleton.mp hm', hname]
          exact hfound
      · rw [membersText_concat]
        simp

theorem AtGap.skipWs {b : Bytes} (h : AtGap b) (raw rest : Bytes) :
    ∃ c s, AnythingTool.skipWs (b ++ (literal raw ++ rest)) = c :: s ∧
      (if c = comma then AnythingTool.skipWs s else c :: s) = literal raw ++ rest := by
  rcases h with h | h
  · obtain ⟨s, hcomma, hs⟩ := h.skipWs raw rest
    exact ⟨comma, s, hcomma, hs⟩
  · refine ⟨quote, raw ++ quote :: rest, ?_, ?_⟩
    · rw [skipWs_of_spaces h, skipWs_literal]
      simp [literal]
    · rw [if_neg (by decide)]
      simp [literal]

/-- An extraction that finds something has read the member at the cursor. -/
theorem extractLoop_reads {n : ℕ} {key p : Bytes} {out : CString n}
    (hend : ¬ (deref p = 0 ∨ deref p = rbrace)) (h : extractLoop n key p = some out) :
    ∃ found v, scanKey p = .ok (found, v) ∧ (found.bytes ≠ key →
      ∃ r c s, skipJsonValue v = some r ∧ skipWs r = c :: s ∧
        extractLoop n key (if c = comma then skipWs s else c :: s) = some out) := by
  rw [extractLoop_eq hend] at h
  split at h
  · cases h
  · rename_i found v hscan
    refine ⟨found, v, hscan, ?_⟩
    intro hfound
    rw [if_neg hfound] at h
    split at h
    · cases h
    · rename_i r hskip
      split at h
      · cases h
      · rename_i c s hnext
        exact ⟨r, c, s, hskip, hnext, h⟩

/-- The extraction passes over members with other keys, up to the key behind them. -/
theorem ExtractReach.pass {n : ℕ} {out : CString n} {key params t p raw rest : Bytes}
    {ms : List Passage} (h : ExtractReach key params t p)
    (hloop : extractLoop n key p = some out) (hms : ∀ m ∈ ms, m.Reads AtGap)
    (hkeys : ∀ m ∈ ms, m.key ≠ key) (hp : p = membersText ms ++ (literal raw ++ rest)) :
    ExtractReach key params (t ++ membersText ms) (literal raw ++ rest) ∧
      extractLoop n key (literal raw ++ rest) = some out := by
  induction ms generalizing t p with
  | nil =>
      rw [membersText_nil, List.nil_append] at hp
      rw [membersText_nil, List.append_nil, ← hp]
      exact ⟨h, hloop⟩
  | cons m ms ih =>
      have hm := hms m List.mem_cons_self
      obtain ⟨raw', rest', hnext⟩ := membersText_literal ms raw rest
      have htext : p = m.text ++ (literal raw' ++ rest') := by
        rw [hp, ← hnext]
        simp
      have hend : ¬ (deref p = 0 ∨ deref p = rbrace) := by
        obtain ⟨_, _, hquote⟩ := membersText_literal (m :: ms) raw rest
        rw [hp, hquote, deref_literal]
        decide
      obtain ⟨found, v, hscan, hread⟩ := extractLoop_reads hend hloop
      have hfound : found.bytes ≠ key := by
        obtain ⟨raw'', rest'', hraw'', hcut⟩ := literal_of_scanKey hscan
        have hhead : p = literal m.rawKey ++ (m.blank₁ ++ colon :: (m.blank₂ ++
            (m.value ++ (m.behind ++ (literal raw' ++ rest'))))) := by
          rw [htext]
          simp [Passage.text, Passage.head]
        rw [← (literal_append_inj hm.key hraw'' (hhead.symm.trans hcut)).1]
        exact hkeys m List.mem_cons_self
      obtain ⟨r, c, s, hskip, hgap, hrest⟩ := hread hfound
      have hbehind := (Passage.reads_unique hm (htext ▸ hscan) hskip).2
      obtain ⟨c', s', hgap', hcursor⟩ := hm.behind.skipWs raw' rest'
      rw [hbehind] at hgap
      obtain ⟨rfl, rfl⟩ := List.cons.inj (hgap.symm.trans hgap')
      have hreach : ExtractReach key params (t ++ m.text) (literal raw' ++ rest') :=
        h.next hend hscan hfound hskip (hbehind ▸ hgap) hcursor.symm htext
      rw [membersText_cons, ← List.append_assoc]
      exact ih hreach (hcursor ▸ hrest) (fun m' hm' => hms m' (List.mem_cons_of_mem m hm'))
        (fun m' hm' => hkeys m' (List.mem_cons_of_mem m hm')) hnext.symm

/-- The cursor of the extraction at the first key. -/
theorem extractLoop_of_extract {n : ℕ} {out : CString n} {key w t : Bytes} (hw : Spaces w)
    (h : anythingRpcExtractParamString n (w ++ lbrace :: t) key = some out) :
    extractLoop n key (skipWs t) = some out := by
  rw [anythingRpcExtractParamString, skipWs_of_spaces hw, skipWs_cons (by decide)] at h
  exact h

/-- The key that is matched is at depth one exactly when the members before it close as many
brackets as they open. -/
theorem matchedAtDepthOne_iff {n : ℕ} {params key : Bytes} {out : CString n}
    (h : anythingRpcExtractParamString n params key = some out) :
    MatchedAtDepthOne key params ↔
      ∀ ms, MembersBefore AtGap (· = key) params ms → (∀ m ∈ ms, m.key ≠ key) →
        surplus ms = 0 := by
  constructor
  · rintro hdepth ms ⟨w₀, w₁, raw, found, rest, hw₀, hw₁, hms, hraw, hfound, htext⟩ hkeys
    rw [htext] at h
    have hloop := extractLoop_of_extract hw₀ h
    obtain ⟨raw', rest', hnext⟩ := membersText_literal ms raw rest
    have hp : skipWs (w₁ ++ (membersText ms ++ (literal raw ++ rest))) =
        membersText ms ++ (literal raw ++ rest) := by
      rw [skipWs_of_spaces hw₁, hnext, skipWs_literal]
    have hopen : skipWs params =
        lbrace :: (w₁ ++ (membersText ms ++ (literal raw ++ rest))) := by
      rw [htext, skipWs_of_spaces hw₀, skipWs_cons (by decide)]
    have hreach : ExtractReach key params (w₀ ++ lbrace :: w₁) _ :=
      .start hopen (by rw [hp, htext]; simp)
    obtain ⟨hreach', hloop'⟩ := hreach.pass hloop hms hkeys hp
    have hend : ¬ (deref (literal raw ++ rest) = 0 ∨ deref (literal raw ++ rest) = rbrace) := by
      rw [deref_literal]
      decide
    obtain ⟨found', v, hscan, -⟩ := extractLoop_reads hend hloop'
    have hmatches : Matches key (literal raw ++ rest) := by
      obtain ⟨raw'', rest'', hraw'', hcut⟩ := literal_of_scanKey hscan
      exact ⟨found', v, hscan, (literal_append_inj hraw hraw'' hcut).1.symm.trans hfound⟩
    have hone := hdepth _ _ hreach' hmatches
    have hread : (w₀ ++ lbrace :: w₁) ++ membersText ms =
        w₀ ++ lbrace :: (w₁ ++ membersText ms) := by simp
    rw [hread, depthAfter_members hw₀ hw₁ hms] at hone
    omega
  · intro hsurplus t p hreach hmatches
    obtain ⟨found, v, hscan, hfound⟩ := hmatches
    obtain ⟨raw, rest, hraw, rfl⟩ := literal_of_scanKey hscan
    obtain ⟨hparams, w₀, w₁, ms, hw₀, hw₁, hms, hkeys, rfl⟩ := hreach.members rfl
    have hzero := hsurplus ms ⟨w₀, w₁, raw, found.bytes, rest, hw₀, hw₁, hms, hraw, hfound,
      by rw [hparams]; simp⟩ hkeys
    rw [depthAfter_members hw₀ hw₁ hms, hzero]
    rfl

/-- The keys the parser takes from an accepted message, and the parameter that is found, are
at depth one exactly when the members in front of each such key close as many brackets as
they open, in what the scanners of their values do not count. -/
theorem depthOne_iff (body params key : Bytes) (n : ℕ) :
    (∀ request, anythingRpcParse body = .ok request →
      (TakenAtDepthOne body ↔
        ∀ ms, MembersBefore AtComma (· ∈ takenKeys) body ms → surplus ms = 0)) ∧
    ∀ out : CString n, anythingRpcExtractParamString n params key = some out →
      (MatchedAtDepthOne key params ↔
        ∀ ms, MembersBefore AtGap (· = key) params ms → (∀ m ∈ ms, m.key ≠ key) →
          surplus ms = 0) :=
  ⟨fun _ h => takenAtDepthOne_iff h, fun _ h => matchedAtDepthOne_iff h⟩

/-- The fields of a request. -/
def fieldsSample : Bytes :=
  ascii "\"jsonrpc\":\"2.0\",\"id\":\"1\",\"method\":\"sys.info\"\x7d"

/-- A member whose bare value has an opening brace in it. -/
def bareBraceSample : Bytes := ascii "\"x\":a\x7bb,"

/-- The fields of a request are taken from inside a brace. -/
theorem not_takenAtDepthOne :
    ¬ ∀ body request, anythingRpcParse body = .ok request → TakenAtDepthOne body := by
  intro h
  let body := [lbrace] ++ (bareBraceSample ++ fieldsSample)
  obtain ⟨request, hparse⟩ := exists_ok_of_isSome
    (by decide +kernel : (anythingRpcParse body).toOption.isSome = true)
  have hstart : RpcReach body [lbrace] ⟨bareBraceSample ++ fieldsSample, .zero, .zero⟩ :=
    .start (by decide +kernel) rfl
  have hmember : rpcMember ⟨bareBraceSample ++ fieldsSample, .zero, .zero⟩ =
      .ok ⟨[comma] ++ fieldsSample, .zero, .zero⟩ := by decide +kernel
  have hskip : RpcReach body ([lbrace] ++ bareBraceSample) ⟨fieldsSample, .zero, .zero⟩ :=
    hstart.next hmember (by decide +kernel) rfl
  have htakes : TakesKey ⟨fieldsSample, .zero, .zero⟩ :=
    ⟨.snprintf 64 (ascii "jsonrpc"), fieldsSample.drop 10, by decide +kernel, by decide⟩
  have hdepth := h body request hparse _ _ hskip htakes
  revert hdepth
  decide

/-- The member in front of the fields is a surplus of one. -/
theorem surplus_bareBrace :
    MembersBefore AtComma (· ∈ takenKeys) ([lbrace] ++ (bareBraceSample ++ fieldsSample))
      [⟨ascii "x", ascii "x", [], [], ascii "a\x7bb", [comma]⟩] ∧
    surplus [⟨ascii "x", ascii "x", [], [], ascii "a\x7bb", [comma]⟩] = 1 := by
  have hnil : Spaces [] := by decide
  refine ⟨⟨[], [], ascii "jsonrpc", ascii "jsonrpc", fieldsSample.drop 9, hnil, hnil, ?_,
    .of_unescaped (by decide), by decide, by decide⟩, by decide⟩
  intro m hm
  obtain rfl := List.mem_singleton.mp hm
  have hbare : ∀ c ∈ ascii "a\x7bb", ¬ EndsBare c := by
    simp only [EndsBare]
    decide
  exact ⟨.of_unescaped (by decide), hnil, hnil,
    .bare ⟨by decide, by decide, by decide, by decide⟩ hbare ⟨comma, rfl, .inr (.inl rfl)⟩,
    [], [], hnil, hnil, rfl⟩

/-- A parameter that is found behind nothing. -/
def parameterSample : Bytes := lbrace :: (literal (ascii "a") ++ ascii ":\"b\"\x7d")

theorem depthOne_sample :
    ¬ TakenAtDepthOne ([lbrace] ++ (bareBraceSample ++ fieldsSample)) ∧
      MatchedAtDepthOne (ascii "a") parameterSample := by
  constructor
  · obtain ⟨request, hparse⟩ := exists_ok_of_isSome (by decide +kernel :
      (anythingRpcParse ([lbrace] ++ (bareBraceSample ++ fieldsSample))).toOption.isSome = true)
    intro hdepth
    have hzero := ((depthOne_iff _ [] [] 0).1 request hparse).mp hdepth _ surplus_bareBrace.1
    rw [surplus_bareBrace.2] at hzero
    exact absurd hzero (by decide)
  · refine ((depthOne_iff [] parameterSample (ascii "a") 64).2 (.snprintf 64 (ascii "b"))
      (by decide +kernel)).mpr ?_
    rintro ms ⟨w₀, w₁, raw, key, rest, hw₀, hw₁, hms, hraw, -, htext⟩ hkeys
    cases ms with
    | nil => rfl
    | cons m ms =>
        have hm := hms m List.mem_cons_self
        have hopen := congrArg skipWs htext
        rw [skipWs_of_spaces hw₀, skipWs_cons (by decide), parameterSample,
          skipWs_cons (by decide)] at hopen
        have hfirst := congrArg skipWs (List.cons.inj hopen).2
        have hhead : membersText (m :: ms) ++ (literal raw ++ rest) = literal m.rawKey ++
            (m.blank₁ ++ colon :: (m.blank₂ ++ (m.value ++ (m.behind ++
              (membersText ms ++ (literal raw ++ rest)))))) := by
          simp [Passage.text, Passage.head]
        rw [skipWs_of_spaces hw₁, hhead, skipWs_literal, skipWs_literal] at hfirst
        have hkey := (literal_append_inj (.of_unescaped (by decide)) hm.key hfirst).1
        exact absurd hkey.symm (hkeys m List.mem_cons_self)

end AnythingTool
