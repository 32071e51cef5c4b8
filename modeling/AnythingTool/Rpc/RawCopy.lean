import AnythingTool.Library.FirstClose
import AnythingTool.Rpc.Cursors
import AnythingTool.Rpc.Values

/-!
# What a raw copy of an object is

`copy_json_object_raw` copies the shortest prefix of the text in which the braces outside
of literals are balanced, when the literals in it are well formed and the buffer has room
for it. Such prefixes are prefix-free, and each is its own shortest one.
-/

namespace AnythingTool

open CText JsonText PrefixCode CheckedReads

/-- The string lexer accepts what starts at the cursor. -/
def StringAccepted (p : Bytes) : Prop := (skipJsonString p).isSome = true

instance (p : Bytes) : Decidable (StringAccepted p) :=
  inferInstanceAs (Decidable ((skipJsonString p).isSome = true))

/-- As many braces are closed as opened, outside of literals. -/
def BraceBalanced (t : Bytes) : Prop := t ≠ [] ∧ Closes lbrace rbrace ⟨0, .outside⟩ t

/-- The literals that start within the first `k` bytes are accepted by the lexer. -/
def LiteralsLex (p : Bytes) (k : ℕ) : Prop :=
  LiteralsAccepted StringAccepted lbrace rbrace ⟨0, .outside⟩ p k

section Scan

variable {op cl : UInt8} {depth : ℤ} {p r : Bytes}

theorem depth_ne_zero (hdepth : 1 ≤ depth) : (Lex.mk depth .outside).depth ≠ 0 := by
  simp only
  omega

theorem closedAt_read (hdepth : 1 ≤ depth) {c : UInt8} (h0 : c ≠ 0) (hq : c ≠ quote) {s : Lex}
    (hcount : (Lex.mk depth .outside).count op cl c = s) :
    ClosedAt StringAccepted op cl ⟨depth, .outside⟩ (c :: p) r ↔
      ClosedAt StringAccepted op cl s p r := by
  rw [closedAt_other (depth_ne_zero hdepth) h0 hq, hcount]

/-- The bracket loop stops behind the bracket that closes what is open. -/
theorem scanToClose_eq_some (hdepth : 1 ≤ depth) :
    scanToClose op cl depth p = some r ↔
      ClosedAt StringAccepted op cl ⟨depth, .outside⟩ p r := by
  fun_induction scanToClose op cl depth p with
  | case1 depth =>
      exact iff_of_false (Option.some_ne_none r).symm
        (not_closedAt_of_end (depth_ne_zero hdepth) rfl)
  | case2 depth q =>
      exact iff_of_false (Option.some_ne_none r).symm
        (not_closedAt_of_end (depth_ne_zero hdepth) rfl)
  | case3 depth q hz hskip =>
      refine iff_of_false (Option.some_ne_none r).symm ?_
      intro h
      have haccepted := ((closedAt_cons (depth_ne_zero hdepth) hz).mp h).1 rfl rfl
      rw [StringAccepted, hskip] at haccepted
      cases haccepted
  | case4 depth q r' hz hskip ih =>
      have haccepted : StringAccepted (quote :: q) := by
        rw [StringAccepted, hskip]
        rfl
      obtain ⟨raw, dec, hbody, hq⟩ := skipJsonString_eq_some.mp hskip
      obtain rfl : q = raw ++ quote :: r' := by simpa [literal] using hq
      have hstart : (Lex.mk depth .outside).count op cl quote = ⟨depth, .inside⟩ := rfl
      rw [ih hdepth, closedAt_cons (depth_ne_zero hdepth) hz, hstart,
        closedAt_body hbody (depth_ne_zero hdepth)]
      exact (and_iff_right fun _ _ => haccepted).symm
  | case5 depth q hz hq ih =>
      have hcount : (Lex.mk depth .outside).count op cl op = ⟨depth + 1, .outside⟩ := by
        simp [Lex.count, hq]
      rw [ih (by omega), closedAt_read hdepth hz hq hcount]
  | case6 depth q hd hz hq hop =>
      have hcount : (Lex.mk depth .outside).count op cl cl = ⟨0, .outside⟩ := by
        simp [Lex.count, hq, hop, hd]
      rw [closedAt_read hdepth hz hq hcount, closedAt_zero, Option.some.injEq]
  | case7 depth q hd hz hq hop ih =>
      have hcount : (Lex.mk depth .outside).count op cl cl = ⟨depth - 1, .outside⟩ := by
        simp [Lex.count, hq, hop]
      rw [ih (by omega), closedAt_read hdepth hz hq hcount]
  | case8 depth c q hz hq hop hcl ih =>
      have hcount : (Lex.mk depth .outside).count op cl c = ⟨depth, .outside⟩ := by
        simp [Lex.count, hq, hop, hcl]
      rw [ih hdepth, closedAt_read hdepth hz hq hcount]

/-- The object that starts at `p` is the shortest balanced prefix. -/
theorem scanToClose_object (hbrace : deref p = lbrace) :
    scanToClose lbrace rbrace 0 p = some r ↔
      ∃ t, p = t ++ r ∧ ShortestPrefix BraceBalanced (cstr p) t ∧ LiteralsLex p t.length := by
  obtain ⟨q, rfl⟩ : ∃ q, p = lbrace :: q := by
    cases p with
    | nil => cases hbrace
    | cons c q => exact ⟨q, congrArg (· :: q) hbrace⟩
  have hopen : scanToClose lbrace rbrace 0 (lbrace :: q) = scanToClose lbrace rbrace 1 q := by
    rw [scanToClose]
    rfl
  have hcstr : cstr (lbrace :: q) = lbrace :: cstr q := rfl
  have hnil : ¬ BraceBalanced [] := fun h => h.1 rfl
  have hcount : (Lex.mk 0 .outside).count lbrace rbrace lbrace = ⟨1, .outside⟩ := rfl
  have hbalanced : ∀ s, BraceBalanced (lbrace :: s) ↔ Closes lbrace rbrace ⟨1, .outside⟩ s :=
    fun s => and_iff_right (List.cons_ne_nil lbrace s)
  rw [hopen, scanToClose_eq_some le_rfl, hcstr]
  constructor
  · rintro ⟨t, rfl, hshort, hliterals⟩
    refine ⟨lbrace :: t, rfl, ?_, ?_⟩
    · exact (shortestPrefix_cons hnil).mpr ⟨t, rfl, (ShortestPrefix.congr hbalanced).mpr hshort⟩
    · exact literalsAccepted_cons.mpr ⟨fun _ heq => absurd heq (by decide), hliterals⟩
  · rintro ⟨t, hp, hshort, hliterals⟩
    obtain ⟨t, rfl, hshort'⟩ := (shortestPrefix_cons hnil).mp hshort
    exact ⟨t, (List.cons.inj hp).2, (ShortestPrefix.congr hbalanced).mp hshort',
      (literalsAccepted_cons.mp hliterals).2⟩

end Scan

/-- Copying a copied text again copies all of it. -/
theorem copyJsonObjectRaw_again {n : ℕ} {out : CString n} {p r : Bytes}
    (h : copyJsonObjectRaw n p = some (out, r)) :
    copyJsonObjectRaw n out.bytes = some (out, []) := by
  obtain ⟨hbrace, hscan, hp⟩ := copyJsonObjectRaw_eq_some.mp h
  obtain ⟨t, ht, hlocal⟩ := scanToClose_local hscan
  obtain rfl : out.bytes = t := List.append_cancel_right (hp.symm.trans ht)
  have hagain := hlocal []
  rw [List.append_nil] at hagain
  refine copyJsonObjectRaw_eq_some.mpr ⟨?_, hagain, (List.append_nil _).symm⟩
  obtain ⟨t, htext, hne, -⟩ := scanToClose_split hagain
  obtain ⟨c, t', ht'⟩ := List.exists_cons_of_ne_nil hne
  rw [hp, htext, ht'] at hbrace
  rw [htext, ht']
  exact hbrace

/-! ## The copy in memory -/

section Copy

variable {text : Bytes} {start q n rounds : ℕ}

/-- What a successful copy returns. -/
theorem copyJsonObjectRawAt_eq_some (hstart : start ≤ (cstr text).length)
    (hrounds : text.length < rounds) {out : CString n} :
    copyJsonObjectRawAt text rounds n start = .ok ⟨some out, q⟩ ↔
      deref (text.drop start) = lbrace ∧
        ShortestPrefix BraceBalanced (cstr (text.drop start)) out.bytes ∧
        LiteralsLex (text.drop start) out.bytes.length ∧ q = start + out.bytes.length := by
  have hat := at_drop hstart
  obtain ⟨call, hrun, hcall⟩ := copyJsonObjectRawAt_answers hat hrounds n
  rw [hrun, Except.ok.injEq, hcall.eq_some_iff]
  constructor
  · rintro ⟨r, hcopy, hq⟩
    obtain ⟨hbrace, hscan, hout⟩ := copyJsonObjectRaw_eq_some.mp hcopy
    obtain ⟨t, ht, hshort, hliterals⟩ := (scanToClose_object hbrace).mp hscan
    obtain rfl : out.bytes = t := List.append_cancel_right (hout.symm.trans ht)
    rw [hout] at hat
    exact ⟨hbrace, hshort, hliterals, hq.unique (hat.advance out.noNul)⟩
  · rintro ⟨hbrace, hshort, hliterals, rfl⟩
    obtain ⟨r, hr⟩ := hshort.isPrefix.trans (cstr_isPrefix _)
    have hscan : scanToClose lbrace rbrace 0 (text.drop start) = some r :=
      (scanToClose_object hbrace).mpr ⟨out.bytes, hr.symm, hshort, hliterals⟩
    have hnext : At text (start + out.bytes.length) r :=
      At.advance (u := out.bytes) ⟨hstart, hr.symm⟩ out.noNul
    exact ⟨r, copyJsonObjectRaw_eq_some.mpr ⟨hbrace, hscan, hr.symm⟩, hnext⟩

/-- A raw copy is the shortest balanced prefix: the copy succeeds exactly where the text
starts with a brace and has such a prefix, with literals the lexer accepts and room in the
buffer, and a failing call leaves the cursor. No copied text continues another one, and
copying a copied text returns it. -/
theorem copyJsonObjectRawAt_shortest (text : Bytes) (start : ℕ)
    (hstart : start ≤ (cstr text).length) (rounds : ℕ) (hrounds : text.length < rounds) (n : ℕ) :
    ((∃ out q, copyJsonObjectRawAt text rounds n start = .ok ⟨some out, q⟩) ↔
      deref (text.drop start) = lbrace ∧
        ∃ t, ShortestPrefix BraceBalanced (cstr (text.drop start)) t ∧
          LiteralsLex (text.drop start) t.length ∧ t.length < n) ∧
    ((∀ out q, copyJsonObjectRawAt text rounds n start ≠ .ok ⟨some out, q⟩) →
      copyJsonObjectRawAt text rounds n start = .ok ⟨none, start⟩) ∧
    ∀ out q, copyJsonObjectRawAt text rounds n start = .ok ⟨some out, q⟩ →
      ShortestPrefix BraceBalanced (cstr (text.drop start)) out.bytes ∧
      q = start + out.bytes.length ∧
      (∀ text' start' rounds' n' out' q', start' ≤ (cstr text').length →
        text'.length < rounds' →
        copyJsonObjectRawAt text' rounds' n' start' = .ok ⟨some out', q'⟩ →
        out.bytes <+: out'.bytes → out.bytes = out'.bytes) ∧
      ∀ rounds', out.bytes.length < rounds' →
        copyJsonObjectRawAt out.bytes rounds' n 0 = .ok ⟨some out, out.bytes.length⟩ := by
  refine ⟨?_, ?_, ?_⟩
  · constructor
    · rintro ⟨out, q, h⟩
      obtain ⟨hbrace, hshort, hliterals, -⟩ := (copyJsonObjectRawAt_eq_some hstart hrounds).mp h
      exact ⟨hbrace, out.bytes, hshort, hliterals, out.fits⟩
    · rintro ⟨hbrace, t, hshort, hliterals, hn⟩
      have h0 : (0 : UInt8) ∉ t := fun hmem =>
        zero_notMem_cstr _ (hshort.isPrefix.subset hmem)
      exact ⟨⟨t, h0, hn⟩, _, (copyJsonObjectRawAt_eq_some hstart hrounds).mpr
        ⟨hbrace, hshort, hliterals, rfl⟩⟩
  · intro h
    obtain ⟨call, hrun, hcall⟩ := copyJsonObjectRawAt_answers (at_drop hstart) hrounds n
    rw [hrun] at h ⊢
    rw [hcall.eq_none_iff.mpr fun out q heq => h out q (congrArg Except.ok heq)]
  · intro out q h
    obtain ⟨hbrace, hshort, hliterals, hq⟩ := (copyJsonObjectRawAt_eq_some hstart hrounds).mp h
    refine ⟨hshort, hq, ?_, ?_⟩
    · rintro text' start' rounds' n' out' q' hstart' hrounds' h' ⟨x, hx⟩
      obtain ⟨-, hshort', -, -⟩ := (copyJsonObjectRawAt_eq_some hstart' hrounds').mp h'
      exact prefixFree_shortest BraceBalanced hshort.self hshort'.self x []
        (hx.trans (List.append_nil _).symm)
    · intro rounds' hrounds'
      obtain ⟨call, hrun, hcall⟩ := copyJsonObjectRawAt_answers (at_drop hstart) hrounds n
      obtain ⟨r, hcopy, -⟩ := hcall.eq_some_iff.mp (Except.ok.inj (hrun.symm.trans h))
      have hwhole : At out.bytes 0 (out.bytes ++ []) := by
        rw [List.append_nil]
        exact at_start out.bytes
      have hend : At out.bytes out.bytes.length [] := by
        have hadvance := hwhole.advance out.noNul
        rwa [Nat.zero_add] at hadvance
      obtain ⟨call', hrun', hcall'⟩ := copyJsonObjectRawAt_answers (at_start out.bytes) hrounds' n
      rw [hrun', hcall'.eq_some_iff.mpr ⟨[], copyJsonObjectRaw_again hcopy, hend⟩]

/-- An object with a brace in a literal, and another brace behind it. -/
def braceSample : Bytes := ascii "[\x7b\"a\":\"\x7d\"\x7d\x7d"

theorem copyJsonObjectRawAt_shortest_sample :
    ∃ out : CString 16, copyJsonObjectRawAt braceSample 16 16 1 = .ok ⟨some out, 10⟩ ∧
      ShortestPrefix BraceBalanced (cstr (braceSample.drop 1)) out.bytes := by
  have hrun : copyJsonObjectRawAt braceSample 16 16 1 =
      .ok ⟨some (.snprintf 16 (ascii "\x7b\"a\":\"\x7d\"\x7d")), 10⟩ := by decide +kernel
  exact ⟨_, hrun, ((copyJsonObjectRawAt_shortest braceSample 1 (by decide) 16 (by decide)
    16).2.2 _ _ hrun).1⟩

end Copy

end AnythingTool
