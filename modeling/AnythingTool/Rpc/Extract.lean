import AnythingTool.Rpc.Values

/-!
# Parameters by name

`anything_rpc_extract_param_string` on the text of an object. It goes over the members one
by one and takes the first with the key, so members inside of values are never looked at.
A key that does not fit the buffer for keys ends the search: `Finds` says which members
are found, `extract_eq_some` that the code finds these, and `extract_exact` what this is
when all keys fit.
-/

namespace AnythingTool

open CText JsonText

/-! ## Members with a key -/

/-- The members with a key, in the order of the text. -/
def membersAt (ms : List Member) (key : Bytes) : List Member :=
  ms.filter fun m => m.key = key

theorem mem_membersAt {ms : List Member} {key : Bytes} {m : Member} :
    m ∈ membersAt ms key ↔ m ∈ ms ∧ m.key = key := by
  simp [membersAt]

theorem membersAt_append (ms ms' : List Member) (key : Bytes) :
    membersAt (ms ++ ms') key = membersAt ms key ++ membersAt ms' key :=
  List.filter_append ms ms'

theorem membersAt_cons_self (ms : List Member) {m : Member} {key : Bytes}
    (h : m.key = key) : membersAt (m :: ms) key = m :: membersAt ms key :=
  List.filter_cons_of_pos (by simpa using h)

theorem membersAt_cons_other (ms : List Member) {m : Member} {key : Bytes}
    (h : m.key ≠ key) : membersAt (m :: ms) key = membersAt ms key :=
  List.filter_cons_of_neg (by simpa using h)

theorem membersAt_snoc_self (done : List Member) {m : Member} {key : Bytes}
    (h : m.key = key) : membersAt (done ++ [m]) key = membersAt done key ++ [m] := by
  simp [membersAt, h]

theorem membersAt_snoc_other (done : List Member) {m : Member} {key : Bytes}
    (h : m.key ≠ key) : membersAt (done ++ [m]) key = membersAt done key := by
  simp [membersAt, h]

/-! ## The loop -/

theorem deref_fromKey_ne {c : UInt8} (hc : quote ≠ c) (m : Member) (r : Bytes) :
    deref (m.fromKey ++ r) ≠ c :=
  hc

theorem skipWs_fromKey_append (m : Member) (r : Bytes) :
    skipWs (m.fromKey ++ r) = m.fromKey ++ r :=
  skipWs_cons (by decide)

/-- The cursor after the blanks before a member is at its key. -/
theorem skipWs_text_append {m : Member} (hl : m.Lexes) (r : Bytes) :
    skipWs (m.text ++ r) = m.fromKey ++ r := by
  rw [Member.text, List.append_assoc, skipWs_blank hl.blank₀, skipWs_fromKey_append]

/-- The scan of a key that matches ends the extraction. -/
theorem extractLoop_match {n : ℕ} {key p v : Bytes} {found : CString 64}
    (hend : ¬ (deref p = 0 ∨ deref p = rbrace)) (hscan : scanKey p = .ok (found, v))
    (hfound : found.bytes = key) :
    extractLoop n key p = (parseJsonString n v).map Prod.fst := by
  rw [extractLoop_eq hend, hscan]
  exact if_pos hfound

/-- A member with another key is passed over. -/
theorem extractLoop_pass {n : ℕ} {key p v r s : Bytes} {c : UInt8} {found : CString 64}
    (hend : ¬ (deref p = 0 ∨ deref p = rbrace)) (hscan : scanKey p = .ok (found, v))
    (hfound : found.bytes ≠ key) (hskip : skipJsonValue v = some r)
    (hnext : skipWs r = c :: s) :
    extractLoop n key p = extractLoop n key (if c = comma then skipWs s else c :: s) := by
  rw [extractLoop_eq hend, hscan]
  simp only [hfound, if_false, hskip, hnext]

theorem extractLoop_end (n : ℕ) (key : Bytes) {p : Bytes}
    (hend : deref p = 0 ∨ deref p = rbrace) : extractLoop n key p = none := by
  rw [extractLoop, if_pos hend]

theorem fromKey_not_end (m : Member) (r : Bytes) :
    ¬ (deref (m.fromKey ++ r) = 0 ∨ deref (m.fromKey ++ r) = rbrace) :=
  not_or.mpr ⟨deref_fromKey_ne (by decide) m r, deref_fromKey_ne (by decide) m r⟩

/-- What the extraction needs of a member to get past it. -/
structure Passable (m : Member) : Prop where
  lexes : m.Lexes
  value : IsValue m.value
  fits : m.value.length < 1024

/-- A member whose key was scanned and does not match is passed over. -/
theorem extractLoop_member {n : ℕ} {key v : Bytes} {m : Member} {found : CString 64}
    (hm : Passable m) {rest : List Member} (hrest : ∀ m ∈ rest, Passable m) {r : Bytes}
    (hscan : scanKey (m.fromKey ++ (afterMember rest ++ r)) = .ok (found, v))
    (hkey : m.key ≠ key) :
    extractLoop n key (m.fromKey ++ (afterMember rest ++ r)) =
      match rest with
      | [] => none
      | m' :: rest' => extractLoop n key (m'.fromKey ++ (afterMember rest' ++ r)) := by
  have hend := fromKey_not_end m (afterMember rest ++ r)
  obtain ⟨hfound, rfl⟩ := (scanKey_fromKey hm.lexes hm.value).mp hscan
  have hne : found.bytes ≠ key := by
    rw [hfound]
    exact hkey
  cases rest with
  | nil =>
      obtain ⟨q, hskip, hq⟩ := skipJsonValue_value hm.value (fun _ => hm.fits)
        hm.lexes.blank₃ (c := rbrace) (.inr (.inr (.inl rfl))) (by decide) r
      rw [extractLoop_pass hend hscan hne hskip hq, if_neg (by decide)]
      exact extractLoop_end n key (.inr rfl)
  | cons m' rest' =>
      obtain ⟨q, hskip, hq⟩ := skipJsonValue_value hm.value (fun _ => hm.fits)
        hm.lexes.blank₃ (c := comma) (.inr (.inl rfl)) (by decide)
        (m'.text ++ afterMember rest' ++ r)
      have hm' := hrest m' List.mem_cons_self
      rw [extractLoop_pass hend hscan hne hskip hq, if_pos rfl, List.append_assoc,
        skipWs_text_append hm'.lexes]

/-- A key that does not fit its buffer ends the extraction. -/
theorem extractLoop_long (n : ℕ) (key : Bytes) {m : Member} (hl : m.Lexes)
    (hv : IsValue m.value) (hlong : 63 < m.key.length) (r : Bytes) :
    extractLoop n key (m.fromKey ++ r) = none := by
  rw [extractLoop_eq (fromKey_not_end m r)]
  cases hscan : scanKey (m.fromKey ++ r) with
  | error e => rfl
  | ok found =>
      have hfits := found.1.fits
      rw [((scanKey_fromKey hl hv).mp hscan).1] at hfits
      omega

/-- A value is read as a string exactly when it is one. -/
theorem parseJsonString_value {n : ℕ} {v r : Bytes} (hv : IsValue v) {out : CString n} :
    (parseJsonString n (v ++ r)).map Prod.fst = some out ↔ StringValue v out.bytes := by
  constructor
  · intro h
    obtain ⟨⟨out', r'⟩, hparse, rfl⟩ := Option.map_eq_some_iff.mp h
    obtain ⟨raw, hraw, heq⟩ := parseJsonString_eq_some.mp hparse
    have hquote : deref (v ++ r) = quote := by
      rw [heq]
      rfl
    rcases hv.shape with ⟨raw', dec, hraw', rfl⟩ | ⟨s, -, rfl⟩ | ⟨s, -, rfl⟩ | hscalar
    · rw [← (literal_append_inj hraw' hraw heq).1]
      exact ⟨raw', hraw', rfl⟩
    · exact absurd hquote (by decide : lbrace ≠ quote)
    · exact absurd hquote (by decide : lbracket ≠ quote)
    · obtain ⟨hne, hbytes⟩ := hscalar.scalarByte
      obtain ⟨c, t, rfl⟩ := List.exists_cons_of_ne_nil hne
      exact absurd hquote (hbytes c List.mem_cons_self).plain.2.1
  · intro h
    obtain ⟨out', hout, hparse⟩ := exists_parseJsonString h out.fits r
    obtain rfl := CString.ext hout
    rw [hparse, Option.map_some]

/-- The value of a member with the key decides the extraction. -/
theorem extractLoop_key {n : ℕ} {key : Bytes} {m : Member} (hl : m.Lexes)
    (hv : IsValue m.value) (hfits : m.key.length ≤ 63) (hkey : m.key = key) (r : Bytes)
    {out : CString n} :
    extractLoop n key (m.fromKey ++ r) = some out ↔ StringValue m.value out.bytes := by
  obtain ⟨found, hfound, hscan⟩ := exists_scanKey hl hv hfits r
  rw [extractLoop_match (fromKey_not_end m r) hscan (hfound.trans hkey),
    parseJsonString_value hv]

/-- The first member with the key is a string, and no key up to it is too long. -/
inductive Finds (key dec : Bytes) : List Member → Prop
  | here {m : Member} {ms : List Member} (hfits : m.key.length ≤ 63) (hkey : m.key = key)
      (hv : StringValue m.value dec) : Finds key dec (m :: ms)
  | later {m : Member} {ms : List Member} (hfits : m.key.length ≤ 63) (hkey : m.key ≠ key)
      (h : Finds key dec ms) : Finds key dec (m :: ms)

theorem Finds.membersAt {key dec : Bytes} {ms : List Member} (h : Finds key dec ms) :
    ∃ s later, membersAt ms key = s :: later ∧ StringValue s.value dec := by
  induction h with
  | here hfits hkey hv => exact ⟨_, _, membersAt_cons_self _ hkey, hv⟩
  | later hfits hkey _ ih =>
      rw [membersAt_cons_other _ hkey]
      exact ih

theorem Finds.of_membersAt {key dec : Bytes} {ms later : List Member} {s : Member}
    (hkeys : ∀ m ∈ ms, m.key.length ≤ 63) (hfirst : AnythingTool.membersAt ms key = s :: later)
    (hv : StringValue s.value dec) : Finds key dec ms := by
  induction ms with
  | nil => cases hfirst
  | cons m ms ih =>
      obtain ⟨hfits, hrest⟩ := List.forall_mem_cons.mp hkeys
      by_cases hkey : m.key = key
      · rw [membersAt_cons_self ms hkey] at hfirst
        obtain ⟨rfl, -⟩ := List.cons.inj hfirst
        exact .here hfits hkey hv
      · rw [membersAt_cons_other ms hkey] at hfirst
        exact .later hfits hkey (ih hrest hfirst)

section FindsCons

variable {key dec : Bytes} {m : Member} {ms : List Member}

theorem finds_here (hfits : m.key.length ≤ 63) (hkey : m.key = key) :
    Finds key dec (m :: ms) ↔ StringValue m.value dec := by
  constructor
  · intro h
    cases h with
    | here _ _ hv => exact hv
    | later _ hne _ => exact absurd hkey hne
  · exact .here hfits hkey

theorem finds_later (hfits : m.key.length ≤ 63) (hkey : m.key ≠ key) :
    Finds key dec (m :: ms) ↔ Finds key dec ms := by
  constructor
  · intro h
    cases h with
    | here _ heq _ => exact absurd heq hkey
    | later _ _ h => exact h
  · exact .later hfits hkey

theorem Finds.keyFits (h : Finds key dec (m :: ms)) : m.key.length ≤ 63 := by
  cases h with
  | here hfits _ _ => exact hfits
  | later hfits _ _ => exact hfits

end FindsCons

/-- The extraction goes from member to member, up to the first one with the key or with a
key that is too long. -/
theorem extractLoop_eq_some {n : ℕ} {key : Bytes} {out : CString n} (r : Bytes)
    (rest : List Member) {m : Member} (hpass : ∀ x ∈ m :: rest, Passable x) :
    extractLoop n key (m.fromKey ++ (afterMember rest ++ r)) = some out ↔
      Finds key out.bytes (m :: rest) := by
  have hlong : ∀ {m : Member} {rest : List Member} (r' : Bytes), Passable m →
      63 < m.key.length → (extractLoop n key (m.fromKey ++ r') = some out ↔
        Finds key out.bytes (m :: rest)) := by
    intro m rest r' hm hlong
    rw [extractLoop_long n key hm.lexes hm.value hlong]
    refine ⟨nofun, ?_⟩
    intro hfinds
    exact absurd hfinds.keyFits (not_le.mpr hlong)
  induction rest generalizing m with
  | nil =>
      have hm := hpass m List.mem_cons_self
      by_cases hfits : m.key.length ≤ 63
      · by_cases hkey : m.key = key
        · rw [extractLoop_key hm.lexes hm.value hfits hkey, finds_here hfits hkey]
        · obtain ⟨found, -, hscan⟩ := exists_scanKey hm.lexes hm.value hfits
            (afterMember [] ++ r)
          rw [extractLoop_member hm (List.forall_mem_nil _) hscan hkey,
            finds_later hfits hkey]
          exact ⟨nofun, nofun⟩
      · exact hlong _ hm (not_le.mp hfits)
  | cons m' rest ih =>
      obtain ⟨hm, hpass'⟩ := List.forall_mem_cons.mp hpass
      by_cases hfits : m.key.length ≤ 63
      · by_cases hkey : m.key = key
        · rw [extractLoop_key hm.lexes hm.value hfits hkey, finds_here hfits hkey]
        · obtain ⟨found, -, hscan⟩ := exists_scanKey hm.lexes hm.value hfits
            (afterMember (m' :: rest) ++ r)
          rw [extractLoop_member hm hpass' hscan hkey, finds_later hfits hkey]
          exact ih hpass'
      · exact hlong _ hm (not_le.mp hfits)

/-! ## Objects -/

theorem length_le_commaSep {t : Bytes} {ts : List Bytes} (h : t ∈ ts) :
    t.length ≤ (commaSep ts).length := by
  induction ts with
  | nil => cases h
  | cons s ts ih =>
      cases ts with
      | nil =>
          rw [List.mem_singleton.mp h]
          exact le_rfl
      | cons u ts =>
          rw [commaSep, List.length_append, List.length_cons]
          rcases List.mem_cons.mp h with rfl | h
          · omega
          · have hle := ih h
            omega

/-- The members of an object that fits the parameter buffer can be passed over. -/
theorem passable_of_isObject {ms : List Member} {t : Bytes} (h : IsObject ms t)
    (hfits : t.length < 1024) : ∀ m ∈ ms, Passable m := by
  intro m hm
  refine ⟨h.lexes m hm, h.value m hm, ?_⟩
  cases h with
  | empty h => cases hm
  | members hne hl hv =>
      have hle := length_le_commaSep (List.mem_map_of_mem (f := Member.text) hm)
      have hvalue : m.value.length ≤ m.text.length := by
        simp only [Member.text, Member.fromKey, List.length_append, List.length_cons]
        omega
      simp only [objectText, List.length_append, List.length_cons] at hfits
      omega

/-- The extraction from an object, whatever stands around it. -/
theorem extract_eq_some {n : ℕ} {ps : List Member} {params key : Bytes} {out : CString n}
    (hobject : IsObject ps params) (hfits : params.length < 1024) {w₀ : Bytes}
    (hw₀ : Blank w₀) (r : Bytes) :
    anythingRpcExtractParamString n (w₀ ++ (params ++ r)) key = some out ↔
      Finds key out.bytes ps := by
  have hpass := passable_of_isObject hobject hfits
  rw [anythingRpcExtractParamString, skipWs_blank hw₀]
  cases hobject with
  | empty hw =>
      have hnone : ¬ Finds key out.bytes [] := nofun
      rw [List.cons_append, List.cons_append, skipWs_cons (by decide)]
      simp only [if_true]
      rw [List.append_assoc, skipWs_blank hw, extractLoop_end n key (.inr rfl)]
      simpa using hnone
  | members hne hl hv =>
      obtain ⟨m, rest, rfl⟩ := List.exists_cons_of_ne_nil hne
      rw [objectText_cons, List.cons_append, skipWs_cons (by decide)]
      simp only [if_true]
      rw [List.append_assoc, skipWs_text_append (hl m List.mem_cons_self)]
      exact extractLoop_eq_some r rest hpass

theorem extract_params_eq_some {n : ℕ} {ps : List Member} {params key : Bytes}
    {out : CString n} (hobject : IsObject ps params) (hfits : params.length < 1024) :
    anythingRpcExtractParamString n params key = some out ↔ Finds key out.bytes ps := by
  have h : anythingRpcExtractParamString n ([] ++ (params ++ [])) key = some out ↔
      Finds key out.bytes ps := extract_eq_some hobject hfits blank_nil []
  rwa [List.append_nil, List.nil_append] at h

/-- The extraction succeeds exactly when the first member with the key is a string that fits
the buffer, and then returns that string. -/
theorem extract_exact {n : ℕ} {ps : List Member} {params key w₀ : Bytes}
    (hobject : IsObject ps params) (hfits : params.length < 1024) (hw₀ : Blank w₀)
    (hkeys : ∀ p ∈ ps, p.key.length ≤ 63) (r : Bytes) :
    ((∃ out, anythingRpcExtractParamString n (w₀ ++ (params ++ r)) key = some out) ↔
      ∃ s later dec, membersAt ps key = s :: later ∧ StringValue s.value dec ∧
        dec.length < n) ∧
      ∀ out, anythingRpcExtractParamString n (w₀ ++ (params ++ r)) key = some out →
        ∃ s later, membersAt ps key = s :: later ∧ StringValue s.value out.bytes := by
  have hfound : ∀ out, anythingRpcExtractParamString n (w₀ ++ (params ++ r)) key = some out →
      ∃ s later, membersAt ps key = s :: later ∧ StringValue s.value out.bytes := by
    intro out hout
    exact ((extract_eq_some hobject hfits hw₀ r).mp hout).membersAt
  refine ⟨⟨?_, ?_⟩, hfound⟩
  · rintro ⟨out, hout⟩
    obtain ⟨s, later, hfirst, hv⟩ := hfound out hout
    exact ⟨s, later, out.bytes, hfirst, hv, out.fits⟩
  · rintro ⟨s, later, dec, hfirst, hv, hdec⟩
    exact ⟨⟨dec, hv.zero_notMem, hdec⟩, (extract_eq_some hobject hfits hw₀ r).mpr
      (.of_membersAt hkeys hfirst hv)⟩

namespace Sample

/-- A member without blanks whose key needs no escapes. -/
def member (key : String) (value : Bytes) : Member :=
  ⟨[], ascii key, ascii key, [], [], value, []⟩

def params : List Member := [member "session_id" (literal (ascii "s1"))]

theorem member_lexes {key : String} (h : ∀ c ∈ ascii key, Unescaped c) (value : Bytes) :
    (member key value).Lexes := by
  have hnil : Blank [] := by simp [Blank]
  exact ⟨hnil, .of_unescaped h, hnil, hnil, hnil⟩

theorem stringValue {s : Bytes} (h : ∀ c ∈ s, Unescaped c) : StringValue (literal s) s :=
  ⟨s, .of_unescaped h, rfl⟩

theorem isValue {s : Bytes} (h : ∀ c ∈ s, Unescaped c) : IsValue (literal s) :=
  .string (.of_unescaped h)

theorem params_isObject : IsObject params (objectText params) := by
  refine .members (by decide) ?_ ?_
  · intro m hm
    obtain rfl := List.mem_singleton.mp hm
    exact member_lexes (by decide) _
  · intro m hm
    obtain rfl := List.mem_singleton.mp hm
    exact isValue (by decide)

/-- Parameters with the key `k` inside of a value, too. -/
def nested : List Member :=
  [member "x" (objectText [member "k" (literal (ascii "inner"))]),
    member "k" (literal (ascii "outer"))]

theorem nested_isObject : IsObject nested (objectText nested) := by
  have hinner : IsValue (objectText [member "k" (literal (ascii "inner"))]) := by
    refine .object (by decide) ?_ ?_
    · exact List.forall_mem_singleton.mpr (member_lexes (by decide) _)
    · exact List.forall_mem_singleton.mpr (isValue (by decide))
  refine .members (by decide) ?_ ?_
  · simp only [nested, List.forall_mem_cons]
    exact ⟨member_lexes (by decide) _, member_lexes (by decide) _, List.forall_mem_nil _⟩
  · simp only [nested, List.forall_mem_cons]
    exact ⟨hinner, isValue (by decide), List.forall_mem_nil _⟩

end Sample

theorem extract_exact_sample :
    ∃ out, anythingRpcExtractParamString 6 (objectText Sample.nested) (ascii "k") = some out := by
  have houter : ∃ s later dec, membersAt Sample.nested (ascii "k") = s :: later ∧
      StringValue s.value dec ∧ dec.length < 6 :=
    ⟨_, [], ascii "outer", rfl, Sample.stringValue (by decide), by decide⟩
  have hfound := (extract_exact Sample.nested_isObject (by decide) blank_nil (by decide)
    []).1.mpr houter
  rwa [List.append_nil, List.nil_append] at hfound

end AnythingTool
