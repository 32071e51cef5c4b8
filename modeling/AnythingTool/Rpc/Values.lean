import AnythingTool.Rpc.Shape

/-!
# The scanners on well-formed text

On a well-formed value the lenient scanners stop where the value ends. The bracket
loop counts one kind of bracket only, and a balanced text closes each kind by
itself; a bare scalar is followed by blanks, which the scanner takes with it, so
cursors are compared after white space (`skipJsonValue_value`).
-/

namespace AnythingTool

open CText JsonText

/-! ## Blanks and first bytes -/

theorem isspace_of_isBlank {c : UInt8} (h : IsBlank c) : isspace c := by
  rcases h with rfl | rfl | rfl | rfl
  all_goals decide

theorem spaces_of_blank {w : Bytes} (h : Blank w) : Spaces w :=
  fun c hc => isspace_of_isBlank (h c hc)

theorem skipWs_blank {w : Bytes} (h : Blank w) (p : Bytes) : skipWs (w ++ p) = skipWs p :=
  skipWs_of_spaces (spaces_of_blank h) p

theorem not_isspace_of_scalarByte {c : UInt8} (h : ScalarByte c) : ¬ isspace c := by
  intro hspace
  rcases hspace with rfl | ⟨h₁, h₂⟩
  · revert h
    decide
  · rcases h with h | rfl | rfl | rfl | rfl | h
    · exact absurd (UInt8.le_trans h.1 h₂) (by decide)
    · exact absurd h₂ (by decide)
    · exact absurd h₂ (by decide)
    · exact absurd h₂ (by decide)
    · exact absurd h₂ (by decide)
    · exact absurd (UInt8.le_trans h.1 h₂) (by decide)

/-- A value starts with a byte that is not white space. -/
theorem exists_cons_of_isValue {v : Bytes} (h : IsValue v) :
    ∃ c t, v = c :: t ∧ ¬ isspace c := by
  rcases h.shape with ⟨raw, dec, -, rfl⟩ | ⟨s, -, rfl⟩ | ⟨s, -, rfl⟩ | hscalar
  · exact ⟨quote, raw ++ [quote], rfl, by decide⟩
  · exact ⟨lbrace, s ++ [rbrace], rfl, by decide⟩
  · exact ⟨lbracket, s ++ [rbracket], rfl, by decide⟩
  · obtain ⟨hne, hbytes⟩ := hscalar.scalarByte
    obtain ⟨c, t, rfl⟩ := List.exists_cons_of_ne_nil hne
    exact ⟨c, t, rfl, not_isspace_of_scalarByte (hbytes c List.mem_cons_self)⟩

theorem skipWs_value {v : Bytes} (h : IsValue v) (r : Bytes) : skipWs (v ++ r) = v ++ r := by
  obtain ⟨c, t, rfl, hc⟩ := exists_cons_of_isValue h
  exact skipWs_cons hc

/-! ## Brackets -/

/-- The two kinds of bracket. -/
def BracketPair (op cl : UInt8) : Prop :=
  (op = lbrace ∧ cl = rbrace) ∨ (op = lbracket ∧ cl = rbracket)

section ScanToClose

variable {op cl : UInt8} (hpair : BracketPair op cl) (depth : ℤ)
include hpair

theorem scanToClose_open (q : Bytes) :
    scanToClose op cl depth (op :: q) = scanToClose op cl (depth + 1) q := by
  have hop : op ≠ 0 ∧ op ≠ quote := by
    rcases hpair with ⟨rfl, rfl⟩ | ⟨rfl, rfl⟩
    all_goals decide
  rw [scanToClose, if_neg hop.1, if_neg hop.2, if_pos rfl]

theorem scanToClose_close (q : Bytes) :
    scanToClose op cl depth (cl :: q) =
      if depth - 1 = 0 then some q else scanToClose op cl (depth - 1) q := by
  have hcl : cl ≠ 0 ∧ cl ≠ quote ∧ cl ≠ op := by
    rcases hpair with ⟨rfl, rfl⟩ | ⟨rfl, rfl⟩
    all_goals decide
  rw [scanToClose, if_neg hcl.1, if_neg hcl.2.1, if_neg hcl.2.2, if_pos rfl]

omit hpair in
theorem scanToClose_other {c : UInt8} (hc : c ≠ 0 ∧ c ≠ quote ∧ c ≠ op ∧ c ≠ cl) (q : Bytes) :
    scanToClose op cl depth (c :: q) = scanToClose op cl depth q := by
  rw [scanToClose, if_neg hc.1, if_neg hc.2.1, if_neg hc.2.2.1, if_neg hc.2.2.2]

omit hpair in
/-- Brackets of the other kind around a text that the loop passes over. -/
theorem scanToClose_around {o c : UInt8} (ho : o ≠ 0 ∧ o ≠ quote ∧ o ≠ op ∧ o ≠ cl)
    (hc : c ≠ 0 ∧ c ≠ quote ∧ c ≠ op ∧ c ≠ cl) {s : Bytes}
    (hs : ∀ r, scanToClose op cl depth (s ++ r) = scanToClose op cl depth r) (r : Bytes) :
    scanToClose op cl depth (o :: s ++ [c] ++ r) = scanToClose op cl depth r := by
  have hcons : o :: s ++ [c] ++ r = o :: (s ++ c :: r) := by simp
  rw [hcons, scanToClose_other depth ho, hs, scanToClose_other depth hc]

omit hpair in
theorem scanToClose_literal {raw dec : Bytes} (hraw : StringBody raw dec) (r : Bytes) :
    scanToClose op cl depth (literal raw ++ r) = scanToClose op cl depth r := by
  have hskip : skipJsonString (literal raw ++ r) = some r :=
    skipJsonString_eq_some.mpr ⟨raw, dec, hraw, rfl⟩
  have hcons : literal raw ++ r = quote :: (raw ++ quote :: r) := by simp [literal]
  rw [hcons] at hskip ⊢
  rw [scanToClose_cons_quote, hskip]
  rfl

/-- Brackets of its own kind around such a text. -/
theorem scanToClose_bracketed (hdepth : 1 ≤ depth) {s : Bytes}
    (hs : ∀ d : ℤ, 1 ≤ d → ∀ r, scanToClose op cl d (s ++ r) = scanToClose op cl d r)
    (r : Bytes) :
    scanToClose op cl depth (op :: s ++ [cl] ++ r) = scanToClose op cl depth r := by
  have hcons : op :: s ++ [cl] ++ r = op :: (s ++ cl :: r) := by simp
  have hpos : 1 ≤ depth + 1 := by omega
  have hne : depth + 1 - 1 ≠ 0 := by omega
  rw [hcons, scanToClose_open hpair, hs _ hpos, scanToClose_close hpair, if_neg hne,
    add_sub_cancel_right]

/-- Inside a bracket, a balanced text is passed over. -/
theorem scanToClose_balanced {s : Bytes} (h : Balanced s) {depth : ℤ} (hdepth : 1 ≤ depth)
    (r : Bytes) : scanToClose op cl depth (s ++ r) = scanToClose op cl depth r := by
  induction h generalizing depth r with
  | nil => rfl
  | @plain c h =>
      obtain ⟨h0, hq, hlb, hrb, hls, hrs⟩ := h
      have hne : c ≠ op ∧ c ≠ cl := by
        rcases hpair with ⟨rfl, rfl⟩ | ⟨rfl, rfl⟩
        · exact ⟨hlb, hrb⟩
        · exact ⟨hls, hrs⟩
      exact scanToClose_other depth ⟨h0, hq, hne⟩ r
  | literal h => exact scanToClose_literal depth h r
  | @braces s h ih =>
      rcases hpair with ⟨rfl, rfl⟩ | ⟨rfl, rfl⟩
      · exact scanToClose_bracketed (.inl ⟨rfl, rfl⟩) depth hdepth (fun _ hd r => ih hd r) r
      · -- the loop for arrays does not see braces
        exact scanToClose_around depth (by decide) (by decide) (fun r => ih hdepth r) r
  | @brackets s h ih =>
      rcases hpair with ⟨rfl, rfl⟩ | ⟨rfl, rfl⟩
      · -- the loop for objects does not see square brackets
        exact scanToClose_around depth (by decide) (by decide) (fun r => ih hdepth r) r
      · exact scanToClose_bracketed (.inr ⟨rfl, rfl⟩) depth hdepth (fun _ hd r => ih hd r) r
  | append _ _ ih₁ ih₂ => rw [List.append_assoc, ih₁ hdepth, ih₂ hdepth]

/-- From its opening bracket, a balanced text in brackets is scanned to its end. -/
theorem scanToClose_whole {s : Bytes} (h : Balanced s) (r : Bytes) :
    scanToClose op cl 0 (op :: s ++ [cl] ++ r) = some r := by
  have hcons : op :: s ++ [cl] ++ r = op :: (s ++ cl :: r) := by simp
  rw [hcons, scanToClose_open hpair, scanToClose_balanced hpair h (by decide),
    scanToClose_close hpair, if_pos (by decide)]

end ScanToClose

/-- The bracket loop looks at nothing behind the bracket it stops at. -/
theorem scanToClose_local {op cl : UInt8} {depth : ℤ} {p r : Bytes}
    (h : scanToClose op cl depth p = some r) :
    ∃ t, p = t ++ r ∧ ∀ r', scanToClose op cl depth (t ++ r') = some r' := by
  fun_induction scanToClose op cl depth p with
  | case4 depth q r₁ hz hskip ih =>
      obtain ⟨raw, dec, hbody, heq⟩ := skipJsonString_eq_some.mp hskip
      obtain ⟨t, rfl, ht⟩ := ih h
      refine ⟨literal raw ++ t, by rw [heq, List.append_assoc], ?_⟩
      intro r'
      rw [List.append_assoc, scanToClose_literal depth hbody]
      exact ht r'
  | case5 depth q hz hq ih =>
      obtain ⟨t, rfl, ht⟩ := ih h
      refine ⟨op :: t, rfl, ?_⟩
      intro r'
      rw [List.cons_append, scanToClose, if_neg hz, if_neg hq, if_pos rfl]
      exact ht r'
  | case6 depth q hd hz hq hop =>
      obtain rfl := Option.some.inj h
      refine ⟨[cl], rfl, ?_⟩
      intro r'
      rw [List.cons_append, scanToClose, if_neg hz, if_neg hq, if_neg hop, if_pos rfl, if_pos hd]
      rfl
  | case7 depth q hd hz hq hop ih =>
      obtain ⟨t, rfl, ht⟩ := ih h
      refine ⟨cl :: t, rfl, ?_⟩
      intro r'
      rw [List.cons_append, scanToClose, if_neg hz, if_neg hq, if_neg hop, if_pos rfl, if_neg hd]
      exact ht r'
  | case8 depth c q hz hq hop hcl ih =>
      obtain ⟨t, rfl, ht⟩ := ih h
      refine ⟨c :: t, rfl, ?_⟩
      intro r'
      rw [List.cons_append, scanToClose_other depth ⟨hz, hq, hop, hcl⟩]
      exact ht r'
  | _ => cases h

/-! ## Values -/

/-- An object that leaves room for the NUL is copied whole. -/
theorem copyJsonObjectRaw_whole {n : ℕ} {s : Bytes} (h : Balanced s)
    (hfits : (lbrace :: s ++ [rbrace]).length < n) (r : Bytes) :
    ∃ out : CString n, out.bytes = lbrace :: s ++ [rbrace] ∧
      copyJsonObjectRaw n (lbrace :: s ++ [rbrace] ++ r) = some (out, r) := by
  have hscan := scanToClose_whole (.inl ⟨rfl, rfl⟩) h r
  have hzero := (Balanced.braces h).zero_notMem
  exact ⟨⟨_, hzero, hfits⟩, rfl, copyJsonObjectRaw_eq_some.mpr ⟨rfl, hscan, rfl⟩⟩

/-- A bare scan stops at a byte that ends bare texts. -/
theorem skipBare_cons {c : UInt8} (hc : EndsBare c) (r : Bytes) :
    skipBare (c :: r) = c :: r := by
  rw [skipBare, if_neg]
  rintro ⟨h0, hcomma, hbrace, hbracket⟩
  rcases hc with h | h | h | h
  · exact h0 h
  · exact hcomma h
  · exact hbrace h
  · exact hbracket h

theorem skipBare_append {t : Bytes} (ht : ∀ c ∈ t, ¬ EndsBare c) (p : Bytes) :
    skipBare (t ++ p) = skipBare p := by
  induction t with
  | nil => rfl
  | cons c t ih =>
      have hc := ht c List.mem_cons_self
      simp only [EndsBare, not_or] at hc
      rw [List.cons_append, skipBare, if_pos hc]
      exact ih fun b hb => ht b (List.mem_cons_of_mem c hb)

theorem not_endsBare_of_isBlank {c : UInt8} (h : IsBlank c) : ¬ EndsBare c := by
  rcases h with rfl | rfl | rfl | rfl
  all_goals
    simp only [EndsBare]
    decide

theorem not_endsBare_of_scalarByte {c : UInt8} (h : ScalarByte c) : ¬ EndsBare c := by
  rintro (rfl | rfl | rfl | rfl)
  all_goals
    revert h
    decide

/-- A value, and the blanks after it, are skipped up to the byte that ends the member. -/
theorem skipJsonValue_value {v w : Bytes} (hv : IsValue v)
    (hfits : v.head? = some lbrace → v.length < 1024) (hw : Blank w) {c : UInt8}
    (hc : EndsBare c) (hspace : ¬ isspace c) (r : Bytes) :
    ∃ q, skipJsonValue (v ++ (w ++ c :: r)) = some q ∧ skipWs q = c :: r := by
  have hrest : skipWs (w ++ c :: r) = c :: r := by
    rw [skipWs_blank hw, skipWs_cons hspace]
  rw [skipJsonValue, skipWs_value hv]
  rcases hv.shape with ⟨raw, dec, hraw, rfl⟩ | ⟨s, hs, rfl⟩ | ⟨s, hs, rfl⟩ | hscalar
  · have hd : deref (literal raw ++ (w ++ c :: r)) = quote := rfl
    refine ⟨_, ?_, hrest⟩
    rw [if_pos hd]
    exact skipJsonString_eq_some.mpr ⟨raw, dec, hraw, rfl⟩
  · have hd : deref (lbrace :: s ++ [rbrace] ++ (w ++ c :: r)) = lbrace := rfl
    obtain ⟨out, -, hcopy⟩ := copyJsonObjectRaw_whole hs (hfits rfl) (w ++ c :: r)
    refine ⟨_, ?_, hrest⟩
    rw [if_neg (by rw [hd]; decide), if_pos hd, hcopy, Option.map_some]
  · have hd : deref (lbracket :: s ++ [rbracket] ++ (w ++ c :: r)) = lbracket := rfl
    refine ⟨_, ?_, hrest⟩
    rw [if_neg (by rw [hd]; decide), if_neg (by rw [hd]; decide), if_pos hd]
    exact scanToClose_whole (.inr ⟨rfl, rfl⟩) hs _
  · obtain ⟨hne, hbytes⟩ := hscalar.scalarByte
    obtain ⟨b, t, rfl⟩ := List.exists_cons_of_ne_nil hne
    have hb := (hbytes b List.mem_cons_self).plain
    have hd : deref (b :: t ++ (w ++ c :: r)) = b := rfl
    refine ⟨c :: r, ?_, skipWs_cons hspace⟩
    rw [hd, if_neg hb.2.1, if_neg hb.2.2.1, if_neg hb.2.2.2.2.1,
      skipBare_append fun a ha => not_endsBare_of_scalarByte (hbytes a ha),
      skipBare_append fun a ha => not_endsBare_of_isBlank (hw a ha), skipBare_cons hc]

/-! ## Members -/

theorem skipWs_literal (raw r : Bytes) : skipWs (literal raw ++ r) = literal raw ++ r :=
  skipWs_cons (by decide)

/-- Two literals at the start of one text are the same. -/
theorem literal_append_inj {raw raw' dec dec' r r' : Bytes} (hraw : StringBody raw dec)
    (hraw' : StringBody raw' dec') (h : literal raw ++ r = literal raw' ++ r') :
    dec = dec' ∧ r = r' := by
  have hr : skipJsonString (literal raw ++ r) = some r :=
    skipJsonString_eq_some.mpr ⟨raw, dec, hraw, rfl⟩
  have hr' : skipJsonString (literal raw ++ r) = some r' :=
    skipJsonString_eq_some.mpr ⟨raw', dec', hraw', h⟩
  obtain rfl := Option.some.inj (hr.symm.trans hr')
  have hlit : literal raw = literal raw' := List.append_cancel_right h
  have heq : raw = raw' := by simpa [literal] using hlit
  subst heq
  exact ⟨hraw.functional hraw', rfl⟩

/-- The scan of a member's key succeeds if the key fits, and then finds the key and
the value. -/
theorem scanKey_fromKey {m : Member} (hl : m.Lexes) (hv : IsValue m.value) {r v : Bytes}
    {key : CString 64} :
    scanKey (m.fromKey ++ r) = .ok (key, v) ↔
      key.bytes = m.key ∧ v = m.value ++ (m.blank₃ ++ r) := by
  have htext : m.fromKey ++ r = literal m.rawKey ++
      (m.blank₁ ++ colon :: (m.blank₂ ++ (m.value ++ (m.blank₃ ++ r)))) := by
    simp [Member.fromKey]
  have hcolon : ∀ q, skipWs (m.blank₁ ++ colon :: q) = colon :: q := by
    intro q
    rw [skipWs_blank hl.blank₁, skipWs_cons (by decide)]
  have hvalue : skipWs (m.blank₂ ++ (m.value ++ (m.blank₃ ++ r))) =
      m.value ++ (m.blank₃ ++ r) := by
    rw [skipWs_blank hl.blank₂, skipWs_value hv]
  rw [scanKey_eq_ok, htext]
  constructor
  · rintro ⟨raw, w, q, hraw, hp, hw, hq⟩
    obtain ⟨hkey, rfl⟩ := literal_append_inj hl.key hraw hp
    rw [hcolon] at hw
    rw [← (List.cons.inj hw).2, hvalue] at hq
    exact ⟨hkey.symm, hq.symm⟩
  · rintro ⟨hkey, rfl⟩
    exact ⟨m.rawKey, _, _, hkey ▸ hl.key, rfl, hcolon _, hvalue⟩

/-- A key of at most 63 bytes fits the buffer. -/
theorem exists_scanKey {m : Member} (hl : m.Lexes) (hv : IsValue m.value)
    (hkey : m.key.length ≤ 63) (r : Bytes) :
    ∃ key : CString 64, key.bytes = m.key ∧
      scanKey (m.fromKey ++ r) = .ok (key, m.value ++ (m.blank₃ ++ r)) := by
  have hfits : m.key.length < 64 := by omega
  let key : CString 64 := ⟨m.key, hl.key.zero_notMem.2, hfits⟩
  exact ⟨key, rfl, (scanKey_fromKey hl hv).mpr ⟨rfl, rfl⟩⟩

theorem stringValue_functional {v dec dec' : Bytes} (h : StringValue v dec)
    (h' : StringValue v dec') : dec = dec' := by
  obtain ⟨raw, hraw, rfl⟩ := h
  obtain ⟨raw', hraw', heq⟩ := h'
  have happ : literal raw ++ [] = literal raw' ++ [] := by rw [heq]
  exact (literal_append_inj hraw hraw' happ).1

/-- A string that fits is read into the buffer. -/
theorem exists_parseJsonString {n : ℕ} {v dec : Bytes} (h : StringValue v dec)
    (hfits : dec.length < n) (r : Bytes) :
    ∃ out : CString n, out.bytes = dec ∧ parseJsonString n (v ++ r) = some (out, r) := by
  obtain ⟨raw, hraw, rfl⟩ := h
  exact ⟨⟨dec, hraw.zero_notMem.2, hfits⟩, rfl,
    parseJsonString_eq_some.mpr ⟨raw, hraw, rfl⟩⟩

end AnythingTool
