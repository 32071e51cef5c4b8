import AnythingTool.Library.JsonText

/-!
# The scanners of the RPC parser

The static functions of `rpc.c`, on cursors. A C function that moves its cursor
and returns `0` or `-1` returns here the moved cursor or `none`; on `none` the
caller's cursor is the one it had. What a failing call leaves in an output
buffer is read by no caller and is not kept.

`scanToClose` is the bracket loop that `copy_json_object_raw` and the array
branch of `skip_json_value` both contain, with the two brackets as parameters,
and `scanKey` the key scan at the head of both member loops.

Both string scanners accept exactly the literals of the JSON grammar with
one-letter escapes (`skipJsonString_eq_some`, `parseJsonString_eq_some`); every
later fact about strings goes through these two statements.
-/

namespace AnythingTool

open CText JsonText

/-- `isspace` in the C locale. -/
def isspace (c : UInt8) : Prop := c = 0x20 ∨ (0x09 ≤ c ∧ c ≤ 0x0D)

instance (c : UInt8) : Decidable (isspace c) :=
  inferInstanceAs (Decidable (c = 0x20 ∨ (0x09 ≤ c ∧ c ≤ 0x0D)))

def skipWs : Bytes → Bytes
  | [] => []
  | c :: p => if c ≠ 0 ∧ isspace c then skipWs p else c :: p

/-- The byte an escaped byte stands for, by the `switch` both string scanners
contain; `none` is its `default` branch. -/
def unescape (e : UInt8) : Option UInt8 :=
  if e = quote ∨ e = backslash then some e
  else if e = 0x6E then some 0x0A
  else if e = 0x72 then some 0x0D
  else if e = 0x74 then some 0x09
  else none

theorem unescape_ne_zero {e d : UInt8} (h : unescape e = some d) : d ≠ 0 := by
  unfold unescape at h
  split_ifs at h with hq hn hr ht
  · obtain rfl := Option.some.inj h
    rcases hq with rfl | rfl <;> decide
  all_goals
    obtain rfl := Option.some.inj h
    decide

/-- `append_decoded` -/
def appendDecoded {n : ℕ} (out : CString n) (c : UInt8) (hc : c ≠ 0) :
    Option (CString n) :=
  out.push c hc

/-- The loop of `parse_json_string`, after the opening quote. -/
def parseJsonStringLoop {n : ℕ} : CString n → Bytes → Option (CString n × Bytes)
  | _, [] => none
  | out, c :: p =>
      if hc : c = 0 then none
      else if c = quote then some (out, p)
      else if c < 0x20 then none
      else if c = backslash then
        match p with
        | [] => none
        | e :: q =>
            match he : unescape e with
            | none => none
            | some d =>
                match appendDecoded out d (unescape_ne_zero he) with
                | none => none
                | some out' => parseJsonStringLoop out' q
      else
        match appendDecoded out c hc with
        | none => none
        | some out' => parseJsonStringLoop out' p

/-- `parse_json_string`: the decoded string and the cursor past the literal. -/
def parseJsonString (n : ℕ) (p : Bytes) : Option (CString n × Bytes) :=
  if hn : n = 0 then none
  else
    match p with
    | [] => none
    | c :: q =>
        if c = quote then
          haveI : HasRoom n := ⟨Nat.pos_of_ne_zero hn⟩
          parseJsonStringLoop CString.empty q
        else none

/-- The loop of `skip_json_string`, after the opening quote. -/
def skipJsonStringLoop : Bytes → Option Bytes
  | [] => none
  | c :: p =>
      if c = 0 then none
      else if c = quote then some p
      else if c < 0x20 then none
      else if c = backslash then
        match p with
        | [] => none
        | e :: q => if (unescape e).isSome then skipJsonStringLoop q else none
      else skipJsonStringLoop p

/-- `skip_json_string` -/
def skipJsonString : Bytes → Option Bytes
  | [] => none
  | c :: p => if c = quote then skipJsonStringLoop p else none

/-! ## What the string scanners accept -/

theorem unescape_eq (e : UInt8) : unescape e = shortEscape e := by
  unfold unescape shortEscape
  by_cases hq : e = quote
  · simp [hq]
  · by_cases hb : e = backslash
    · simp [hb]
    · simp [hq, hb]

theorem skipJsonStringLoop_eq_some {p r : Bytes} :
    skipJsonStringLoop p = some r ↔
      ∃ raw dec, StringBody raw dec ∧ p = raw ++ quote :: r := by
  constructor
  · intro h
    fun_induction skipJsonStringLoop p with
    | case3 p =>
        obtain rfl := Option.some.inj h
        exact ⟨[], [], .nil, rfl⟩
    | case6 e q he hz hq hlt ih =>
        obtain ⟨raw, dec, hbody, rfl⟩ := ih h
        obtain ⟨d, hd⟩ := Option.isSome_iff_exists.mp he
        rw [unescape_eq] at hd
        exact ⟨backslash :: e :: raw, d :: dec, .escape hd hbody, rfl⟩
    | case8 c p hn hq hlt hb ih =>
        obtain ⟨raw, dec, hbody, rfl⟩ := ih h
        exact ⟨c :: raw, c :: dec, .plain ⟨UInt8.not_lt.mp hlt, hq, hb⟩ hbody, rfl⟩
    | _ => simp at h
  · rintro ⟨raw, dec, hbody, rfl⟩
    induction hbody with
    | nil =>
        rw [List.nil_append, skipJsonStringLoop.eq_def]
        rfl
    | plain hc _ ih =>
        obtain ⟨hn, hq, hlt, hb⟩ := hc.branches
        rw [List.cons_append, skipJsonStringLoop.eq_def]
        simp only [hn, hq, hlt, hb, if_false, ih]
    | escape he _ ih =>
        rw [← unescape_eq] at he
        obtain ⟨hn, hq, hlt⟩ := backslash_branches
        rw [List.cons_append, List.cons_append, skipJsonStringLoop.eq_def]
        simpa [hn, hq, hlt, he] using ih

theorem skipJsonString_eq_some {p r : Bytes} :
    skipJsonString p = some r ↔
      ∃ raw dec, StringBody raw dec ∧ p = literal raw ++ r := by
  cases p with
  | nil => simp [skipJsonString, literal]
  | cons c q =>
      by_cases hc : c = quote
      · subst hc
        simp [skipJsonString, skipJsonStringLoop_eq_some, literal]
      · simp [skipJsonString, literal, hc]

theorem parseJsonStringLoop_badEscape {n : ℕ} (out : CString n) {e : UInt8} (t : Bytes)
    (he : unescape e = none) : parseJsonStringLoop out (backslash :: e :: t) = none := by
  rw [parseJsonStringLoop.eq_def]
  simp only [dif_neg (by decide : backslash ≠ 0), if_neg (by decide : backslash ≠ quote),
    if_neg (by decide : ¬ backslash < 0x20), if_true]
  split
  · rfl
  · rename_i d hd
    rw [he] at hd
    cases hd

theorem parseJsonStringLoop_escape {n : ℕ} (out : CString n) {e d : UInt8} (t : Bytes)
    (he : unescape e = some d) :
    parseJsonStringLoop out (backslash :: e :: t) =
      (appendDecoded out d (unescape_ne_zero he)).bind fun out' => parseJsonStringLoop out' t := by
  rw [parseJsonStringLoop.eq_def]
  simp only [dif_neg (by decide : backslash ≠ 0), if_neg (by decide : backslash ≠ quote),
    if_neg (by decide : ¬ backslash < 0x20), if_true]
  split
  · rename_i hnone
    rw [he] at hnone
    cases hnone
  · rename_i d' hd
    obtain rfl : d = d' := Option.some.inj (he.symm.trans hd)
    cases appendDecoded out d (unescape_ne_zero he) with
    | none => rfl
    | some out' => rfl

theorem parseJsonStringLoop_eq_some {n : ℕ} {out out' : CString n} {p r : Bytes} :
    parseJsonStringLoop out p = some (out', r) ↔
      ∃ raw dec, StringBody raw dec ∧ p = raw ++ quote :: r ∧
        out'.bytes = out.bytes ++ dec := by
  constructor
  · intro h
    fun_induction parseJsonStringLoop out p with
    | case3 out p =>
        obtain ⟨rfl, rfl⟩ := Prod.mk.inj (Option.some.inj h)
        exact ⟨[], [], .nil, rfl, by simp⟩
    | case8 out e q d he out₁ hpush hz hq hlt ih =>
        obtain ⟨raw, dec, hbody, rfl, hout⟩ := ih h
        rw [unescape_eq] at he
        rw [appendDecoded, CString.push_eq_some] at hpush
        exact ⟨backslash :: e :: raw, d :: dec, .escape he hbody, rfl,
          by simp [hout, hpush]⟩
    | case10 out c p hz hq hlt hb out₁ hpush ih =>
        obtain ⟨raw, dec, hbody, rfl, hout⟩ := ih h
        rw [appendDecoded, CString.push_eq_some] at hpush
        exact ⟨c :: raw, c :: dec, .plain ⟨UInt8.not_lt.mp hlt, hq, hb⟩ hbody, rfl,
          by simp [hout, hpush]⟩
    | _ => simp at h
  · rintro ⟨raw, dec, hbody, rfl, hout⟩
    induction hbody generalizing out with
    | nil =>
        have heq : out' = out := CString.ext (by simpa using hout)
        rw [heq, List.nil_append, parseJsonStringLoop.eq_def]
        rfl
    | @plain c raw dec hc _ ih =>
        obtain ⟨hn, hq, hlt, hb⟩ := hc.branches
        obtain ⟨out₁, hpush⟩ := CString.exists_push hn
          (by have := out'.fits; simp [hout] at this; omega : out.bytes.length + 1 < n)
        rw [List.cons_append, parseJsonStringLoop.eq_def]
        simp only [hn, hq, hlt, hb, if_false, dite_false, appendDecoded, hpush]
        exact ih (by rw [hout, CString.push_eq_some.mp hpush]; simp)
    | @escape e d raw dec he _ ih =>
        have hd := (shortEscape_ne_zero he).2
        rw [← unescape_eq] at he
        obtain ⟨out₁, hpush⟩ := CString.exists_push hd
          (by have := out'.fits; simp [hout] at this; omega : out.bytes.length + 1 < n)
        rw [List.cons_append, List.cons_append, parseJsonStringLoop_escape out _ he,
          appendDecoded, hpush]
        exact ih (by rw [hout, CString.push_eq_some.mp hpush]; simp)

theorem parseJsonString_eq_some {n : ℕ} {out : CString n} {p r : Bytes} :
    parseJsonString n p = some (out, r) ↔
      ∃ raw, StringBody raw out.bytes ∧ p = literal raw ++ r := by
  have hn : n ≠ 0 := by have := out.fits; omega
  have : HasRoom n := ⟨Nat.pos_of_ne_zero hn⟩
  rw [parseJsonString, dif_neg hn]
  cases p with
  | nil => simp [literal]
  | cons c q =>
      by_cases hc : c = quote
      · subst hc
        simp [parseJsonStringLoop_eq_some, literal]
      · simp [literal, hc]

theorem skipJsonString_length {p r : Bytes} (h : skipJsonString p = some r) :
    r.length < p.length := by
  obtain ⟨raw, dec, -, rfl⟩ := skipJsonString_eq_some.mp h
  simp [literal]
  omega

theorem parseJsonString_length {n : ℕ} {out : CString n} {p r : Bytes}
    (h : parseJsonString n p = some (out, r)) : r.length < p.length := by
  obtain ⟨raw, -, rfl⟩ := parseJsonString_eq_some.mp h
  simp [literal]
  omega

/-! ## Objects, arrays and bare values -/

/-- The bracket loop: from `p` at `depth`, the cursor past the `close` that takes
the depth to zero. -/
def scanToClose (op cl : UInt8) (depth : ℤ) (p : Bytes) : Option Bytes :=
  match p with
  | [] => none
  | c :: q =>
      if c = 0 then none
      else if c = quote then
        match _h : skipJsonString (c :: q) with
        | none => none
        | some r => scanToClose op cl depth r
      else if c = op then scanToClose op cl (depth + 1) q
      else if c = cl then
        if depth - 1 = 0 then some q else scanToClose op cl (depth - 1) q
      else scanToClose op cl depth q
termination_by p.length
decreasing_by
  · exact skipJsonString_length _h
  all_goals simp

/-- A literal in front of the bracket loop is skipped first. -/
theorem scanToClose_cons_quote (op cl : UInt8) (depth : ℤ) (q : Bytes) :
    scanToClose op cl depth (quote :: q) =
      (skipJsonString (quote :: q)).bind fun r => scanToClose op cl depth r := by
  rw [scanToClose, if_neg (by decide : quote ≠ 0), if_pos rfl]
  split
  · rename_i hskip
    rw [hskip]
    rfl
  · rename_i r hskip
    rw [hskip]
    rfl

/-- What the bracket loop passes over is a stretch of bytes without NUL. -/
theorem scanToClose_split {op cl : UInt8} {depth : ℤ} {p r : Bytes}
    (h : scanToClose op cl depth p = some r) :
    ∃ t, p = t ++ r ∧ t ≠ [] ∧ (0 : UInt8) ∉ t := by
  fun_induction scanToClose op cl depth p with
  | case4 depth q r' hz hskip ih =>
      obtain ⟨raw, dec, hbody, heq⟩ := skipJsonString_eq_some.mp hskip
      obtain ⟨t, rfl, -, ht⟩ := ih h
      exact ⟨literal raw ++ t, by rw [heq, List.append_assoc], by simp [literal],
        by simp [literal, hbody.zero_notMem.1, ht, quote]⟩
  | case5 depth q hz hq ih =>
      obtain ⟨t, rfl, -, ht⟩ := ih h
      exact ⟨op :: t, rfl, by simp, by simp [ht, Ne.symm hz]⟩
  | case6 depth q hd hz hq hop =>
      obtain rfl := Option.some.inj h
      exact ⟨[cl], rfl, by simp, by simp [Ne.symm hz]⟩
  | case7 depth q hd hz hq hop ih =>
      obtain ⟨t, rfl, -, ht⟩ := ih h
      exact ⟨cl :: t, rfl, by simp, by simp [ht, Ne.symm hz]⟩
  | case8 depth c q hz hq hop hcl ih =>
      obtain ⟨t, rfl, -, ht⟩ := ih h
      exact ⟨c :: t, rfl, by simp, by simp [ht, Ne.symm hz]⟩
  | _ => simp at h

theorem scanToClose_length {op cl : UInt8} {depth : ℤ} {p r : Bytes}
    (h : scanToClose op cl depth p = some r) : r.length < p.length := by
  obtain ⟨t, rfl, hne, -⟩ := scanToClose_split h
  have hpos := List.length_pos_iff.mpr hne
  rw [List.length_append]
  omega

theorem zero_notMem_take_scanToClose {op cl : UInt8} {depth : ℤ} {p r : Bytes}
    (h : scanToClose op cl depth p = some r) :
    (0 : UInt8) ∉ p.take (p.length - r.length) := by
  obtain ⟨t, rfl, -, ht⟩ := scanToClose_split h
  simpa using ht

/-- `copy_json_object_raw`: the text of the object and the cursor past it. -/
def copyJsonObjectRaw (n : ℕ) (start : Bytes) : Option (CString n × Bytes) :=
  if deref start ≠ lbrace then none
  else
    match h : scanToClose lbrace rbrace 0 start with
    | none => none
    | some p =>
        let len := start.length - p.length
        if hn : len ≥ n then none
        else
          some (⟨start.take len, zero_notMem_take_scanToClose h,
            by rw [List.length_take]; omega⟩, p)

/-- The last loop of `skip_json_value`: up to a comma, a closing bracket or NUL. -/
def skipBare : Bytes → Bytes
  | [] => []
  | c :: p =>
      if c ≠ 0 ∧ c ≠ comma ∧ c ≠ rbrace ∧ c ≠ rbracket then skipBare p else c :: p

/-- `skip_json_value`, with the scratch buffer of `ANYTHING_RPC_MAX_PARAMS`. -/
def skipJsonValue (cursor : Bytes) : Option Bytes :=
  let p := skipWs cursor
  if deref p = quote then skipJsonString p
  else if deref p = lbrace then (copyJsonObjectRaw 1024 p).map Prod.snd
  else if deref p = lbracket then scanToClose lbracket rbracket 0 p
  else some (skipBare p)

/-- Why the scan of a key and its colon fails. -/
inductive KeyFault
  | badKey
  | noColon
deriving DecidableEq, Repr

/-- A key in `char[64]`, blanks, a colon, blanks: the key and the cursor at the
value. Both member loops begin with it. -/
def scanKey (p : Bytes) : Except KeyFault (CString 64 × Bytes) :=
  match parseJsonString 64 p with
  | none => .error .badKey
  | some (key, p) =>
      match skipWs p with
      | [] => .error .noColon
      | c :: q => if c = colon then .ok (key, skipWs q) else .error .noColon

/-! ## Cursors only move forward -/

theorem skipWs_suffix (p : Bytes) : skipWs p <:+ p := by
  fun_induction skipWs p with
  | case1 => exact List.suffix_refl _
  | case2 c p hc ih => exact ih.trans (List.suffix_cons c p)
  | case3 => exact List.suffix_refl _

theorem skipBare_suffix (p : Bytes) : skipBare p <:+ p := by
  fun_induction skipBare p with
  | case1 => exact List.suffix_refl _
  | case2 c p hc ih => exact ih.trans (List.suffix_cons c p)
  | case3 => exact List.suffix_refl _

theorem copyJsonObjectRaw_eq_some {n : ℕ} {out : CString n} {p r : Bytes} :
    copyJsonObjectRaw n p = some (out, r) ↔
      deref p = lbrace ∧ scanToClose lbrace rbrace 0 p = some r ∧ p = out.bytes ++ r := by
  by_cases hd : deref p = lbrace
  · rw [copyJsonObjectRaw, if_neg (not_not.mpr hd)]
    split
    · rename_i hnone
      simp [hnone]
    · rename_i p' hsome
      obtain ⟨t, rfl, -, -⟩ := scanToClose_split hsome
      have hlen : (t ++ p').length - p'.length = t.length := by simp
      simp only [hlen, List.take_left, hd, hsome, true_and, Option.some.injEq]
      constructor
      · intro h
        split_ifs at h
        obtain ⟨rfl, rfl⟩ := Prod.mk.inj (Option.some.inj h)
        exact ⟨rfl, rfl⟩
      · rintro ⟨rfl, heq⟩
        have hout := List.append_cancel_right heq
        have hfit := out.fits
        rw [dif_neg (by rw [hout]; omega)]
        simp [hout]
  · simp [copyJsonObjectRaw, hd]

theorem copyJsonObjectRaw_length {n : ℕ} {out : CString n} {p r : Bytes}
    (h : copyJsonObjectRaw n p = some (out, r)) : r.length < p.length :=
  scanToClose_length (copyJsonObjectRaw_eq_some.mp h).2.1

theorem skipJsonValue_length {p r : Bytes} (h : skipJsonValue p = some r) :
    r.length ≤ p.length := by
  have hws := (skipWs_suffix p).length_le
  rw [skipJsonValue] at h
  split_ifs at h
  · have hlt := skipJsonString_length h
    omega
  · obtain ⟨⟨out, r'⟩, hcopy, rfl⟩ := Option.map_eq_some_iff.mp h
    have hlt := copyJsonObjectRaw_length hcopy
    simp only
    omega
  · have hlt := scanToClose_length h
    omega
  · obtain rfl := Option.some.inj h
    have hle := (skipBare_suffix (skipWs p)).length_le
    omega

theorem scanKey_eq_ok {p r : Bytes} {key : CString 64} :
    scanKey p = .ok (key, r) ↔
      ∃ raw w q, StringBody raw key.bytes ∧ p = literal raw ++ w ∧
        skipWs w = colon :: q ∧ skipWs q = r := by
  constructor
  · intro h
    unfold scanKey at h
    split at h
    · cases h
    · rename_i key' w hparse
      split at h
      · cases h
      · rename_i c q hw
        split_ifs at h with hc
        obtain ⟨rfl, rfl⟩ := Prod.mk.inj (Except.ok.inj h)
        obtain ⟨raw, hbody, rfl⟩ := parseJsonString_eq_some.mp hparse
        exact ⟨raw, w, q, hbody, rfl, by rw [hw, hc], rfl⟩
  · rintro ⟨raw, w, q, hbody, rfl, hw, rfl⟩
    have hparse : parseJsonString 64 (literal raw ++ w) = some (key, w) :=
      parseJsonString_eq_some.mpr ⟨raw, hbody, rfl⟩
    simp [scanKey, hparse, hw]

theorem scanKey_length {p r : Bytes} {key : CString 64} (h : scanKey p = .ok (key, r)) :
    r.length < p.length := by
  obtain ⟨raw, w, q, -, rfl, hw, rfl⟩ := scanKey_eq_ok.mp h
  have hle := (skipWs_suffix w).length_le
  have hle' := (skipWs_suffix q).length_le
  rw [hw, List.length_cons] at hle
  simp only [literal, List.length_append, List.length_cons]
  omega

/-! ## Parameters -/

/-- The loop of `anything_rpc_extract_param_string`, with the cursor at a key or at
the end of the object. -/
def extractLoop (n : ℕ) (key : Bytes) (p : Bytes) : Option (CString n) :=
  if deref p = 0 ∨ deref p = rbrace then none
  else
    match _hk : scanKey p with
    | .error _ => none
    | .ok (foundKey, v) =>
        if foundKey.bytes = key then (parseJsonString n v).map Prod.fst
        else
          match _hv : skipJsonValue v with
          | none => none
          | some r =>
              match _hr : skipWs r with
              | [] => none
              | c :: q => extractLoop n key (if c = comma then skipWs q else c :: q)
termination_by p.length
decreasing_by
  have hk := scanKey_length _hk
  have hv := skipJsonValue_length _hv
  have hr := (skipWs_suffix r).length_le
  have hq := (skipWs_suffix q).length_le
  rw [_hr, List.length_cons] at hr
  split_ifs
  · omega
  · rw [List.length_cons]
    omega

/-- One round of the loop, away from the end of the object. -/
theorem extractLoop_eq {n : ℕ} {key p : Bytes} (hend : ¬ (deref p = 0 ∨ deref p = rbrace)) :
    extractLoop n key p =
      match scanKey p with
      | .error _ => none
      | .ok (foundKey, v) =>
          if foundKey.bytes = key then (parseJsonString n v).map Prod.fst
          else
            match skipJsonValue v with
            | none => none
            | some r =>
                match skipWs r with
                | [] => none
                | c :: q => extractLoop n key (if c = comma then skipWs q else c :: q) := by
  rw [extractLoop, if_neg hend]
  split
  · rename_i hk
    rw [hk]
  · rename_i foundKey v hk
    rw [hk]
    simp only
    split
    · rfl
    · split
      · rename_i hv
        rw [hv]
      · rename_i r hv
        rw [hv]
        simp only
        split
        · rename_i hr
          rw [hr]
        · rename_i c q hr
          rw [hr]

/-- `anything_rpc_extract_param_string` -/
def anythingRpcExtractParamString (n : ℕ) (params key : Bytes) : Option (CString n) :=
  match skipWs params with
  | [] => none
  | c :: p => if c = lbrace then extractLoop n key (skipWs p) else none

end AnythingTool
