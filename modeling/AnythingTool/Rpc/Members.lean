import AnythingTool.Library.FirstClose
import AnythingTool.Rpc.Values

/-!
# The members of a text

How the member loops cut a text, as predicates on the text. The parser is lenient about
values: an object or an array ends where its own kind of bracket is closed first, whatever
the other kind does, and anything else is a bare text up to the next comma or closing
bracket. `ValueText` and `Passage.Reads` say exactly that, and nothing about the fields the
parser fills. Whatever the loops read is such a member (`exists_passage`), and a member
that stands in front of the cursor is the one they read (`Passage.reads_unique`).
-/

namespace AnythingTool

open CText JsonText

/-! ## Values -/

/-- From a point where `depth` brackets are open, the text up to the one that closes
the last of them. Literals are passed over. -/
inductive ClosesAt (op cl : UInt8) : ℤ → Bytes → Prop
  | last : ClosesAt op cl 1 [cl]
  | close {depth : ℤ} {t : Bytes} (hdepth : depth ≠ 1) (h : ClosesAt op cl (depth - 1) t) :
      ClosesAt op cl depth (cl :: t)
  | open {depth : ℤ} {t : Bytes} (h : ClosesAt op cl (depth + 1) t) :
      ClosesAt op cl depth (op :: t)
  | literal {depth : ℤ} {raw dec t : Bytes} (hraw : StringBody raw dec)
      (h : ClosesAt op cl depth t) : ClosesAt op cl depth (literal raw ++ t)
  | other {depth : ℤ} {c : UInt8} {t : Bytes} (h0 : c ≠ 0) (hq : c ≠ quote) (hop : c ≠ op)
      (hcl : c ≠ cl) (h : ClosesAt op cl depth t) : ClosesAt op cl depth (c :: t)

theorem closesAt_of_scanToClose {op cl : UInt8} {depth : ℤ} {p r : Bytes}
    (h : scanToClose op cl depth p = some r) : ∃ t, ClosesAt op cl depth t ∧ p = t ++ r := by
  fun_induction scanToClose op cl depth p with
  | case4 depth q r' hz hskip ih =>
      obtain ⟨raw, dec, hbody, heq⟩ := skipJsonString_eq_some.mp hskip
      obtain ⟨t, ht, rfl⟩ := ih h
      exact ⟨literal raw ++ t, .literal hbody ht, by rw [heq, List.append_assoc]⟩
  | case5 depth q hz hq ih =>
      obtain ⟨t, ht, rfl⟩ := ih h
      exact ⟨op :: t, .open ht, rfl⟩
  | case6 depth q hd hz hq hop =>
      obtain rfl := Option.some.inj h
      obtain rfl : depth = 1 := by omega
      exact ⟨[cl], .last, rfl⟩
  | case7 depth q hd hz hq hop ih =>
      obtain ⟨t, ht, rfl⟩ := ih h
      exact ⟨cl :: t, .close (by omega) ht, rfl⟩
  | case8 depth c q hz hq hop hcl ih =>
      obtain ⟨t, ht, rfl⟩ := ih h
      exact ⟨c :: t, .other hz hq hop hcl ht, rfl⟩
  | _ => simp at h

section ClosesAt

variable {op cl : UInt8} (hpair : BracketPair op cl)
include hpair

/-- The bracket loop stops at the end of such a text. -/
theorem ClosesAt.scanToClose {depth : ℤ} {t : Bytes} (h : ClosesAt op cl depth t) (r : Bytes) :
    AnythingTool.scanToClose op cl depth (t ++ r) = some r := by
  induction h with
  | last => exact (scanToClose_close hpair 1 r).trans (if_pos rfl)
  | close hdepth _ ih =>
      rw [List.cons_append, scanToClose_close hpair, if_neg (by omega)]
      exact ih
  | «open» _ ih =>
      rw [List.cons_append, scanToClose_open hpair]
      exact ih
  | literal hraw _ ih =>
      rw [List.append_assoc, scanToClose_literal _ hraw]
      exact ih
  | other h0 hq hop hcl _ ih =>
      rw [List.cons_append, scanToClose_other _ ⟨h0, hq, hop, hcl⟩]
      exact ih

/-- Counting its own kind of bracket, such a text closes what is open. -/
theorem ClosesAt.closes {depth : ℤ} {t : Bytes} (h : ClosesAt op cl depth t) :
    Closes op cl ⟨depth, .outside⟩ t := by
  have hne : op ≠ quote ∧ cl ≠ quote ∧ cl ≠ op := by
    rcases hpair with ⟨rfl, rfl⟩ | ⟨rfl, rfl⟩
    all_goals decide
  induction h with
  | last => simp [Closes, Lex.count, hne]
  | @close depth t hdepth _ ih =>
      have hstep : (Lex.mk depth .outside).count op cl cl = ⟨depth - 1, .outside⟩ := by
        simp [Lex.count, hne]
      rw [Closes, Lex.counts_cons, hstep]
      exact ih
  | @«open» depth t _ ih =>
      have hstep : (Lex.mk depth .outside).count op cl op = ⟨depth + 1, .outside⟩ := by
        simp [Lex.count, hne]
      rw [Closes, Lex.counts_cons, hstep]
      exact ih
  | literal hraw _ ih =>
      rw [Closes, counts_literal hraw]
      exact ih
  | @other depth c t h0 hq hop hcl _ ih =>
      have hstep : (Lex.mk depth .outside).count op cl c = ⟨depth, .outside⟩ := by
        simp [Lex.count, hq, hop, hcl]
      rw [Closes, Lex.counts_cons, hstep]
      exact ih

theorem ClosesAt.zero_notMem {depth : ℤ} {t : Bytes} (h : ClosesAt op cl depth t) :
    (0 : UInt8) ∉ t := by
  have hne : op ≠ 0 ∧ cl ≠ 0 := by
    rcases hpair with ⟨rfl, rfl⟩ | ⟨rfl, rfl⟩
    all_goals decide
  induction h with
  | last => simpa using hne.2.symm
  | close _ _ ih => simp [ih, hne.2.symm]
  | «open» _ ih => simp [ih, hne.1.symm]
  | literal hraw _ ih => simp [JsonText.literal, hraw.zero_notMem.1, ih, quote]
  | other h0 _ _ _ _ ih => simp [ih, h0.symm]

end ClosesAt

theorem braces_pair : BracketPair lbrace rbrace := .inl ⟨rfl, rfl⟩

theorem brackets_pair : BracketPair lbracket rbracket := .inr ⟨rfl, rfl⟩

/-- A text with which no other kind of value starts. -/
def StartsBare (t : Bytes) : Prop :=
  ¬ isspace (deref t) ∧ deref t ≠ quote ∧ deref t ≠ lbrace ∧ deref t ≠ lbracket

/-- A text that can stand as the value of a member in front of `behind`. -/
inductive ValueText (behind : Bytes) : Bytes → Prop
  | literal {raw dec : Bytes} (h : StringBody raw dec) : ValueText behind (literal raw)
  | braces {t : Bytes} (h : ClosesAt lbrace rbrace 1 t) : ValueText behind (lbrace :: t)
  | brackets {t : Bytes} (h : ClosesAt lbracket rbracket 1 t) : ValueText behind (lbracket :: t)
  | bare {t : Bytes} (hstart : StartsBare t) (h : ∀ c ∈ t, ¬ EndsBare c)
      (hend : ∃ c ∈ behind.head?, EndsBare c) : ValueText behind t

theorem ValueText.zero_notMem {b t : Bytes} (h : ValueText b t) : (0 : UInt8) ∉ t := by
  cases h with
  | literal h => simp [JsonText.literal, h.zero_notMem.1, quote]
  | braces h => simpa [lbrace] using h.zero_notMem braces_pair
  | brackets h => simpa [lbracket] using h.zero_notMem brackets_pair
  | bare _ h _ => exact fun h0 => h 0 h0 (.inl rfl)

theorem startsBare_of_endsBare {c : UInt8} (h : EndsBare c) (t : Bytes) :
    StartsBare (c :: t) := by
  simp only [StartsBare, deref_cons]
  rcases h with rfl | rfl | rfl | rfl
  all_goals decide

/-- A bare text and what is behind it start bare. -/
theorem StartsBare.append {t b : Bytes} (h : StartsBare t) (hend : ∃ c ∈ b.head?, EndsBare c)
    (q : Bytes) : StartsBare (t ++ (b ++ q)) := by
  cases t with
  | nil =>
      obtain ⟨c, hc, hends⟩ := hend
      obtain ⟨b, rfl⟩ := List.head?_eq_some_iff.mp hc
      exact startsBare_of_endsBare hends (b ++ q)
  | cons c t => exact h

theorem skipBare_ends (p : Bytes) : EndsBare (deref (skipBare p)) := by
  fun_induction skipBare p with
  | case1 => exact .inl rfl
  | case2 c p hc ih => exact ih
  | case3 c p hc =>
      rw [deref_cons, EndsBare]
      tauto

/-- Where the value scanner starts, there is no white space. -/
theorem ValueText.skipWs {b t : Bytes} (h : ValueText b t) (q : Bytes) :
    AnythingTool.skipWs (t ++ (b ++ q)) = t ++ (b ++ q) := by
  cases h with
  | literal h => exact skipWs_cons (by decide)
  | braces h => exact skipWs_cons (by decide)
  | brackets h => exact skipWs_cons (by decide)
  | bare hstart h hend => exact skipWs_of_not_isspace (hstart.append hend q).1

/-- What the value scanner has read is a value. -/
theorem valueText_of_skipJsonValue {p r b q : Bytes} (hspace : ¬ isspace (deref p))
    (h : skipJsonValue p = some r) (hr : r = b ++ q) (hq : b = [] → ¬ EndsBare (deref q)) :
    ∃ t, ValueText b t ∧ p = t ++ r := by
  rw [skipJsonValue, skipWs_of_not_isspace hspace] at h
  split_ifs at h with hquote hbrace hbracket
  · obtain ⟨raw, dec, hraw, heq⟩ := skipJsonString_eq_some.mp h
    exact ⟨literal raw, .literal hraw, heq⟩
  · obtain ⟨⟨out, r'⟩, hcopy, rfl⟩ := Option.map_eq_some_iff.mp h
    obtain ⟨-, hscan, -⟩ := copyJsonObjectRaw_eq_some.mp hcopy
    obtain ⟨p, rfl⟩ := exists_cons_of_deref hbrace (by decide)
    rw [scanToClose_open braces_pair] at hscan
    obtain ⟨t, hclose, rfl⟩ := closesAt_of_scanToClose hscan
    exact ⟨lbrace :: t, .braces hclose, rfl⟩
  · obtain ⟨p, rfl⟩ := exists_cons_of_deref hbracket (by decide)
    rw [scanToClose_open brackets_pair] at h
    obtain ⟨t, hclose, rfl⟩ := closesAt_of_scanToClose h
    exact ⟨lbracket :: t, .brackets hclose, rfl⟩
  · obtain rfl := Option.some.inj h
    obtain ⟨t, ht, heq⟩ := skipBare_split p
    have hends := skipBare_ends p
    refine ⟨t, .bare ?_ ht ?_, heq⟩
    · cases t with
      | nil => exact ⟨by decide, by decide, by decide, by decide⟩
      | cons c t =>
          have hc : deref (c :: t) = deref p := by
            rw [heq]
            rfl
          rw [StartsBare, hc]
          exact ⟨hspace, hquote, hbrace, hbracket⟩
    · cases b with
      | nil =>
          rw [hr] at hends
          exact absurd hends (hq rfl)
      | cons c b =>
          rw [hr] at hends
          exact ⟨c, rfl, hends⟩

/-- A value in front of the cursor is what the value scanner reads. -/
theorem ValueText.skipJsonValue_unique {b t q r : Bytes} (ht : ValueText b t)
    (h : skipJsonValue (t ++ (b ++ q)) = some r) : r = b ++ q := by
  rw [skipJsonValue, ht.skipWs q] at h
  cases ht with
  | @literal raw dec hraw =>
      have hd : deref (JsonText.literal raw ++ (b ++ q)) = quote := rfl
      rw [if_pos hd, skipJsonString_eq_some.mpr ⟨raw, dec, hraw, rfl⟩] at h
      exact (Option.some.inj h).symm
  | @braces t hclose =>
      have hd : deref (lbrace :: t ++ (b ++ q)) = lbrace := rfl
      rw [if_neg (by rw [hd]; decide), if_pos hd] at h
      obtain ⟨⟨out, r'⟩, hcopy, rfl⟩ := Option.map_eq_some_iff.mp h
      obtain ⟨-, hscan, -⟩ := copyJsonObjectRaw_eq_some.mp hcopy
      rw [List.cons_append, scanToClose_open braces_pair, zero_add,
        hclose.scanToClose braces_pair] at hscan
      exact (Option.some.inj hscan).symm
  | @brackets t hclose =>
      have hd : deref (lbracket :: t ++ (b ++ q)) = lbracket := rfl
      rw [if_neg (by rw [hd]; decide), if_neg (by rw [hd]; decide), if_pos hd,
        List.cons_append, scanToClose_open brackets_pair, zero_add,
        hclose.scanToClose brackets_pair] at h
      exact (Option.some.inj h).symm
  | bare hstart hbare hend =>
      have hd := (hstart.append hend q).2
      obtain ⟨c, hc, hends⟩ := hend
      obtain ⟨b, rfl⟩ := List.head?_eq_some_iff.mp hc
      rw [if_neg hd.1, if_neg hd.2.1, if_neg hd.2.2, skipBare_append hbare, List.cons_append,
        skipBare_cons hends] at h
      exact (Option.some.inj h).symm

/-! ## Members -/

/-- A member from its key to what stands behind its value, up to the next key or the end
of the object. -/
structure Passage where
  rawKey : Bytes
  key : Bytes
  blank₁ : Bytes
  blank₂ : Bytes
  value : Bytes
  behind : Bytes

namespace Passage

/-- The member up to its value. -/
def head (m : Passage) : Bytes := literal m.rawKey ++ (m.blank₁ ++ colon :: m.blank₂)

def text (m : Passage) : Bytes := m.head ++ (m.value ++ m.behind)

/-- The key decodes as it says, the blanks are white space, the value is one, and what is
behind it ends the member. -/
structure Reads (ends : Bytes → Prop) (m : Passage) : Prop where
  key : StringBody m.rawKey m.key
  blank₁ : Spaces m.blank₁
  blank₂ : Spaces m.blank₂
  value : ValueText m.behind m.value
  behind : ends m.behind

theorem Reads.mono {ends ends' : Bytes → Prop} {m : Passage} (h : m.Reads ends)
    (hends : ∀ b, ends b → ends' b) : m.Reads ends' :=
  ⟨h.key, h.blank₁, h.blank₂, h.value, hends _ h.behind⟩

end Passage

/-- The text of members, one behind the other. -/
def membersText (ms : List Passage) : Bytes := ms.flatMap Passage.text

@[simp] theorem membersText_nil : membersText [] = [] := rfl

@[simp] theorem membersText_cons (m : Passage) (ms : List Passage) :
    membersText (m :: ms) = m.text ++ membersText ms := rfl

theorem membersText_concat (ms : List Passage) (m : Passage) :
    membersText (ms ++ [m]) = membersText ms ++ m.text := by
  simp [membersText]

/-- A comma with white space around it. -/
def AtComma (b : Bytes) : Prop := ∃ w v, Spaces w ∧ Spaces v ∧ b = w ++ comma :: v

/-- White space up to the closing brace. -/
def AtBrace (b : Bytes) : Prop := ∃ w, Spaces w ∧ b = w ++ [rbrace]

/-- What a loop reads from a key to behind the value is a member. -/
theorem exists_passage {p v r b q : Bytes} {key : CString 64}
    (hscan : scanKey p = .ok (key, v)) (hskip : skipJsonValue v = some r) (hr : r = b ++ q)
    (hq : b = [] → ¬ EndsBare (deref q)) :
    ∃ m : Passage, m.key = key.bytes ∧ m.behind = b ∧ p = m.text ++ q ∧
      ∀ ends : Bytes → Prop, ends b → m.Reads ends := by
  obtain ⟨raw, w₁, w₂, hraw, hw₁, hw₂, hp⟩ := scanKey_text hscan
  obtain ⟨t, ht, rfl⟩ := valueText_of_skipJsonValue (not_isspace_of_scanKey hscan) hskip hr hq
  refine ⟨⟨raw, key.bytes, w₁, w₂, t, b⟩, rfl, rfl, ?_, ?_⟩
  · rw [hp, hr]
    simp [Passage.text, Passage.head]
  · intro ends hends
    exact ⟨hraw, hw₁, hw₂, ht, hends⟩

/-- A member that stands in front of the cursor is the one that is read. -/
theorem Passage.reads_unique {ends : Bytes → Prop} {m : Passage} (h : m.Reads ends)
    {q v r : Bytes} {key : CString 64} (hscan : scanKey (m.text ++ q) = .ok (key, v))
    (hskip : skipJsonValue v = some r) : key.bytes = m.key ∧ r = m.behind ++ q := by
  obtain ⟨raw, w, s, hraw, hp, hw, rfl⟩ := scanKey_eq_ok.mp hscan
  have htext : m.text ++ q = literal m.rawKey ++
      (m.blank₁ ++ colon :: (m.blank₂ ++ (m.value ++ (m.behind ++ q)))) := by
    simp [Passage.text, Passage.head]
  rw [htext] at hp
  obtain ⟨hkey, rfl⟩ := literal_append_inj h.key hraw hp
  rw [skipWs_of_spaces h.blank₁, skipWs_cons (by decide)] at hw
  obtain rfl := (List.cons.inj hw).2
  rw [skipWs_of_spaces h.blank₂, h.value.skipWs] at hskip
  exact ⟨hkey.symm, h.value.skipJsonValue_unique hskip⟩

/-- The value scanner reads the values that are taken as well. -/
theorem skipJsonValue_of_step {st st' : RpcLoop} (h : RpcMemberStep st st') :
    ∃ key v, scanKey st.p = .ok (key, v) ∧ skipJsonValue v = some st'.p := by
  have hspace : ∀ {key : CString 64} {v : Bytes}, scanKey st.p = .ok (key, v) →
      skipWs v = v :=
    fun hscan => skipWs_of_not_isspace (not_isspace_of_scanKey hscan)
  have hliteral : ∀ {n : ℕ} {key : CString 64} {out : CString n} {v q : Bytes},
      scanKey st.p = .ok (key, v) → parseJsonString n v = some (out, q) →
      skipJsonValue v = some q := by
    intro n key out v q hscan hparse
    obtain ⟨raw, hraw, hv⟩ := parseJsonString_eq_some.mp hparse
    have hd : deref v = quote := by
      rw [hv]
      rfl
    rw [skipJsonValue, hspace hscan, if_pos hd, skipJsonString_eq_some.mpr ⟨raw, _, hraw, hv⟩]
  cases h with
  | jsonrpc hscan hkey hseen hparse hversion => exact ⟨_, _, hscan, hliteral hscan hparse⟩
  | id hscan hkey hseen hparse => exact ⟨_, _, hscan, hliteral hscan hparse⟩
  | method hscan hkey hseen hparse => exact ⟨_, _, hscan, hliteral hscan hparse⟩
  | @params key v q params hscan hkey hseen hcopy =>
      have hd := (copyJsonObjectRaw_eq_some.mp hcopy).1
      refine ⟨key, v, hscan, ?_⟩
      rw [skipJsonValue, hspace hscan, if_neg (by rw [hd]; decide), if_pos hd, hcopy, Option.map_some]
  | unknown hscan hkey hskip => exact ⟨_, _, hscan, hskip⟩

/-- A member that another one follows. -/
theorem exists_passage_another {st st' : RpcLoop} {q : Bytes} (hmember : rpcMember st = .ok st')
    (hnext : rpcSeparator st'.p = .ok (.another q)) :
    ∃ m : Passage, m.Reads AtComma ∧ st.p = m.text ++ q := by
  obtain ⟨key, v, hscan, hskip⟩ := skipJsonValue_of_step (rpcMember_eq_ok.mp hmember)
  obtain ⟨w₁, w₂, hw₁, hw₂, hsep⟩ := rpcSeparator_another_text hnext
  have hcut : st'.p = (w₁ ++ comma :: w₂) ++ q := by rw [hsep]; simp
  obtain ⟨m, -, -, htext, hreads⟩ := exists_passage hscan hskip hcut (by simp)
  exact ⟨m, hreads _ ⟨w₁, w₂, hw₁, hw₂, rfl⟩, htext⟩

theorem plain_of_isspace {c : UInt8} (h : isspace c) : Plain c := by
  refine ⟨?_, ?_, ?_, ?_, ?_, ?_⟩
  all_goals
    rintro rfl
    revert h
    decide

theorem Spaces.flat {w : Bytes} (h : Spaces w) : Flat w :=
  .of_plain fun c hc => plain_of_isspace (h c hc)

theorem AtComma.flat {b : Bytes} (h : AtComma b) : Flat b := by
  obtain ⟨w, v, hw, hv, rfl⟩ := h
  exact hw.flat.append (.cons (by decide) hv.flat)

/-- A key with its colon is flat. -/
theorem Passage.Reads.flat_head {ends : Bytes → Prop} {m : Passage} (h : m.Reads ends) :
    Flat m.head :=
  (Flat.literal h.key).append (h.blank₁.flat.append (.cons (by decide) h.blank₂.flat))

theorem Passage.Reads.zero_notMem {ends : Bytes → Prop} {m : Passage} (h : m.Reads ends)
    (hends : (0 : UInt8) ∉ m.behind) : (0 : UInt8) ∉ m.text := by
  simp [Passage.text, Passage.head, literal, h.key.zero_notMem.1, h.blank₁.zero_notMem,
    h.blank₂.zero_notMem, h.value.zero_notMem, hends, quote, colon]

end AnythingTool
