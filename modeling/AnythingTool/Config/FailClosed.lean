import AnythingTool.Config.Settings

/-!
# The loader is fail-closed

Who is an admin is decided by two entries of the file, the last one of each of the two
allowlists, and by nothing else in it. `loadWrites` are the array elements the loader writes
to on its way, in files it refuses as well: behind each line the arrays have changed where
the line writes (`traced_line`), and all of it is within their bounds.
-/

namespace AnythingTool

open CText JsonText

/-! ## What a refused line leaves -/

/-- The ids `parse_long_array` has stored when it returns, whatever it returns. -/
def storedIds (maxCount : ℕ) (out : List ℤ) (p : Bytes) : List ℤ :=
  if p = [] then out
  else if deref (trim p) = rbracket then out
  else if out.length ≥ maxCount then out
  else
    match _h : strtol (trim p) with
    | none => out
    | some (parsed, stop) =>
        match _hs : stop.dropWhile fun c => isspace c with
        | [] => out ++ [parsed]
        | c :: q =>
            if c = comma then storedIds maxCount (out ++ [parsed]) q else out ++ [parsed]
termination_by p.length
decreasing_by
  have h₁ := strtol_length _h
  have h₂ := trim_length p
  have h₃ := (stop.dropWhile_suffix fun c => isspace c).length_le
  rw [_hs, List.length_cons] at h₃
  omega

theorem storedIds_number {maxCount : ℕ} {out : List ℤ} {p stop : Bytes} {parsed : ℤ}
    (hne : ¬ p = []) (hopen : ¬ deref (trim p) = rbracket) (hroom : ¬ out.length ≥ maxCount)
    (hnumber : strtol (trim p) = some (parsed, stop)) :
    storedIds maxCount out p =
      match stop.dropWhile fun c => isspace c with
      | [] => out ++ [parsed]
      | c :: q =>
          if c = comma then storedIds maxCount (out ++ [parsed]) q else out ++ [parsed] := by
  rw [storedIds, if_neg hne, if_neg hopen, if_neg hroom]
  split
  · rename_i hnone
    rw [hnumber] at hnone
    cases hnone
  · rename_i parsed' stop' hsome
    obtain ⟨rfl, rfl⟩ := Prod.mk.inj (Option.some.inj (hnumber.symm.trans hsome))
    cases stop.dropWhile fun c => isspace c
    · rfl
    · rfl

/-- A list that is accepted is stored. -/
theorem storedIds_of_some {maxCount : ℕ} {out res : List ℤ} {p : Bytes}
    (h : parseLongArrayLoop maxCount out p = some res) : storedIds maxCount out p = res := by
  fun_induction parseLongArrayLoop maxCount out p with
  | case1 => cases h
  | case2 out p hne hclose =>
      rw [storedIds, if_neg hne, if_pos hclose]
      exact Option.some.inj h
  | case3 => cases h
  | case4 => cases h
  | case5 => cases h
  | case6 out p hne hopen hroom parsed stop hnumber q hstop ih =>
      rw [storedIds_number hne hopen hroom hnumber, hstop]
      exact ih h
  | case7 out p hne hopen hroom parsed stop hnumber q hstop hcomma =>
      rw [storedIds_number hne hopen hroom hnumber, hstop]
      exact Option.some.inj h
  | case8 => cases h

/-- The configuration behind a line that is refused: only the allowlists are written to
before the check of their entries ends. -/
def refusedConfig (config : Config) (line : Bytes) : Config :=
  match entryOf line with
  | none => config
  | some (key, value) =>
      match strchr lbracket value with
      | none => config
      | some start =>
          if key = ascii "allowed_uids" then
            { config with adminAllowedUids := storedIds 16 [] start.tail }
          else if key = ascii "allowed_gids" then
            { config with adminAllowedGids := storedIds 16 [] start.tail }
          else config

/-- The configuration behind a line. -/
def lineConfig (st : LoadState) (line : Bytes) : Config :=
  match loadLine st line with
  | .error _ => refusedConfig st.config line
  | .ok st' => st'.config

/-! ## The writes to the arrays -/

/-- The indices `parse_long_array` writes to, from `count` on, whether it returns `0` or
not. -/
def idWrites (maxCount count : ℕ) (p : Bytes) : List ℕ :=
  if p = [] then []
  else if deref (trim p) = rbracket then []
  else if count ≥ maxCount then []
  else
    match _h : strtol (trim p) with
    | none => []
    | some (_, stop) =>
        match _hs : stop.dropWhile fun c => isspace c with
        | [] => [count]
        | c :: q => if c = comma then count :: idWrites maxCount (count + 1) q else [count]
termination_by p.length
decreasing_by
  have h₁ := strtol_length _h
  have h₂ := trim_length p
  have h₃ := (stop.dropWhile_suffix fun c => isspace c).length_le
  rw [_hs, List.length_cons] at h₃
  omega

/-- A write to an element of `admin_allowed_uids`, `admin_allowed_gids` or `paths`. -/
inductive ArrayWrite
  | allowed (kind : IdKind) (index : ℕ)
  | path (index : ℕ)
deriving DecidableEq, Repr

/-- The arrays have sixteen elements each. -/
def ArrayWrite.InRange : ArrayWrite → Prop
  | .allowed _ index => index < 16
  | .path index => index < 16

/-- The element writes of the loop body on one line. -/
def lineWrites (st : LoadState) (line : Bytes) : List ArrayWrite :=
  match entryOf line with
  | none => []
  | some (key, value) =>
      let ids :=
        match strchr lbracket value with
        | none => []
        | some start => idWrites 16 0 start.tail
      if key = IdKind.uid.key then ids.map (.allowed .uid)
      else if key = IdKind.gid.key then ids.map (.allowed .gid)
      else if st.inPathRule ∧ st.config.paths.length > 0 ∧
          (key = ascii "path" ∧ (parseQuoted 256 value).isSome ∨
            key = ascii "mode" ∧ (parseQuoted 32 value).isSome) then
        [.path (st.config.paths.length - 1)]
      else []

/-- The element writes of the loader, up to the line it refuses. -/
def loadWrites (st : LoadState) : List Bytes → List ArrayWrite
  | [] => []
  | line :: lines =>
      lineWrites st line ++
        match loadLine st line with
        | .error _ => []
        | .ok st' => loadWrites st' lines

theorem idWrites_lt {maxCount count : ℕ} {p : Bytes} :
    ∀ index ∈ idWrites maxCount count p, index < maxCount := by
  fun_induction idWrites maxCount count p with
  | case1 => simp
  | case2 => simp
  | case3 => simp
  | case4 => simp
  | case5 count p hne hopen hroom v stop hnumber hstop =>
      simpa using hroom
  | case6 count p hne hopen hroom v stop hnumber q hstop ih =>
      intro index hindex
      rcases List.mem_cons.mp hindex with rfl | hindex
      · exact not_le.mp hroom
      · exact ih index hindex
  | case7 count p hne hopen hroom v stop hnumber c q hstop hcomma =>
      simpa using hroom

/-- The write of one number. -/
theorem idWrites_number {maxCount count : ℕ} {p stop : Bytes} {parsed : ℤ}
    (hne : ¬ p = []) (hopen : ¬ deref (trim p) = rbracket) (hroom : ¬ count ≥ maxCount)
    (hnumber : strtol (trim p) = some (parsed, stop)) :
    idWrites maxCount count p =
      match stop.dropWhile fun c => isspace c with
      | [] => [count]
      | c :: q => if c = comma then count :: idWrites maxCount (count + 1) q else [count] := by
  rw [idWrites, if_neg hne, if_neg hopen, if_neg hroom]
  split
  · rename_i hnone
    rw [hnumber] at hnone
    cases hnone
  · rename_i parsed' stop' hsome
    obtain ⟨rfl, rfl⟩ := Prod.mk.inj (Option.some.inj (hnumber.symm.trans hsome))
    cases stop.dropWhile fun c => isspace c
    · rfl
    · rfl

/-- What is stored was written element by element. -/
theorem idWrites_eq (maxCount : ℕ) (out : List ℤ) (p : Bytes) :
    ∃ k, (storedIds maxCount out p).length = out.length + k ∧
      idWrites maxCount out.length p = List.range' out.length k := by
  fun_induction storedIds maxCount out p with
  | case1 out =>
      refine ⟨0, rfl, ?_⟩
      rw [idWrites, if_pos rfl]
      rfl
  | case2 out p hne hclose =>
      refine ⟨0, rfl, ?_⟩
      rw [idWrites, if_neg hne, if_pos hclose]
      rfl
  | case3 out p hne hopen hfull =>
      refine ⟨0, rfl, ?_⟩
      rw [idWrites, if_neg hne, if_neg hopen, if_pos hfull]
      rfl
  | case4 out p hne hopen hroom hnone =>
      refine ⟨0, rfl, ?_⟩
      rw [idWrites, if_neg hne, if_neg hopen, if_neg hroom]
      split
      · rfl
      · rename_i hsome
        rw [hnone] at hsome
        cases hsome
  | case5 out p hne hopen hroom parsed stop hnumber hstop =>
      refine ⟨1, List.length_append, ?_⟩
      rw [idWrites_number hne hopen hroom hnumber, hstop]
      rfl
  | case6 out p hne hopen hroom parsed stop hnumber q hstop ih =>
      obtain ⟨k, hlen, hwrites⟩ := ih
      rw [List.length_append, List.length_singleton] at hlen hwrites
      refine ⟨k + 1, by omega, ?_⟩
      rw [idWrites_number hne hopen hroom hnumber, hstop]
      change (if comma = comma then out.length :: idWrites maxCount (out.length + 1) q
        else [out.length]) = _
      rw [if_pos rfl, hwrites, List.range'_succ]
  | case7 out p hne hopen hroom parsed stop hnumber c q hstop hcomma =>
      refine ⟨1, List.length_append, ?_⟩
      rw [idWrites_number hne hopen hroom hnumber, hstop]
      exact if_neg hcomma

/-- The writes of a line account for what it changes in the arrays: a list of ids that is not
replaced is not written to, one that is replaced was written id by id, and of the path rules
only the last is, where it is written to. -/
structure Traced (writes : List ArrayWrite) (config config' : Config) : Prop where
  allowed : ∀ kind : IdKind,
    config'.allowed kind = config.allowed kind ∧ (∀ index, .allowed kind index ∉ writes) ∨
      writes = (List.range (config'.allowed kind).length).map (.allowed kind)
  paths : config.paths <+: config'.paths ∧ (∀ index, .path index ∉ writes) ∨
    config.paths ≠ [] ∧ writes = [.path (config.paths.length - 1)] ∧
      ∃ f, config' = config.updateLastRule f

theorem Traced.nil {config config' : Config}
    (hallowed : ∀ kind, config'.allowed kind = config.allowed kind)
    (hpaths : config.paths <+: config'.paths) : Traced [] config config' :=
  ⟨fun kind => .inl ⟨hallowed kind, fun _ => List.not_mem_nil⟩,
    .inl ⟨hpaths, fun _ => List.not_mem_nil⟩⟩

/-- A list of ids is replaced. -/
theorem Traced.ids (kind : IdKind) (ids : List ℤ) (config : Config) :
    Traced ((List.range ids.length).map (.allowed kind)) config
      ((Setting.allowed kind ids).apply config) := by
  have hother : ∀ {kind' : IdKind}, kind' ≠ kind → ∀ index, ArrayWrite.allowed kind' index ∉
      (List.range ids.length).map (ArrayWrite.allowed kind) := by
    rintro kind' hne index hmem
    obtain ⟨_, _, heq⟩ := List.mem_map.mp hmem
    exact hne (ArrayWrite.allowed.inj heq).1.symm
  constructor
  · intro kind'
    cases kind
    all_goals
      cases kind'
      · first | exact .inr rfl | exact .inl ⟨rfl, hother (by decide)⟩
      · first | exact .inr rfl | exact .inl ⟨rfl, hother (by decide)⟩
  · left
    refine ⟨?_, ?_⟩
    · cases kind
      · exact List.prefix_rfl
      · exact List.prefix_rfl
    · intro index hmem
      obtain ⟨_, _, heq⟩ := List.mem_map.mp hmem
      cases heq

/-- The entry of an allowlist is written to it, as far as it is read. -/
theorem traced_ids (st : LoadState) {line value : Bytes} {kind : IdKind}
    (hentry : entryOf line = some (kind.key, value)) :
    Traced (lineWrites st line) st.config (lineConfig st line) := by
  have hconfig : lineConfig st line =
      match strchr lbracket value with
      | none => st.config
      | some start => (Setting.allowed kind (storedIds 16 [] start.tail)).apply st.config := by
    have hkey : kind.key ∈ Field.rulePath.keys ++ Field.ruleMode.keys → st.InRule := by
      intro hkey
      cases kind
      · exact absurd hkey (by decide)
      · exact absurd hkey (by decide)
    have hload := loadLine_of_entry hentry st
    rw [loadEntry_of_setting hkey, settingOf_ids, parseLongArray] at hload
    rw [lineConfig, refusedConfig, hentry, hload]
    simp only
    cases strchr lbracket value with
    | none => rfl
    | some start =>
        simp only
        cases hloop : parseLongArrayLoop 16 [] start.tail with
        | none =>
            cases kind
            · rfl
            · rfl
        | some ids =>
            rw [storedIds_of_some hloop]
            rfl
  have hwrites : lineWrites st line =
      match strchr lbracket value with
      | none => []
      | some start =>
          (List.range (storedIds 16 [] start.tail).length).map (ArrayWrite.allowed kind) := by
    have hids : (match strchr lbracket value with
        | none => []
        | some start => idWrites 16 0 start.tail) =
        match strchr lbracket value with
        | none => []
        | some start => List.range (storedIds 16 [] start.tail).length := by
      cases strchr lbracket value with
      | none => rfl
      | some start =>
          obtain ⟨k, hlen, hids⟩ := idWrites_eq 16 [] start.tail
          rw [List.length_nil, Nat.zero_add] at hlen
          simp only
          rw [hlen, List.range_eq_range']
          exact hids
    rw [lineWrites, hentry]
    simp only
    rw [hids]
    cases kind with
    | uid =>
        rw [if_pos rfl]
        cases strchr lbracket value
        · rfl
        · rfl
    | gid =>
        rw [if_neg (by decide), if_pos rfl]
        cases strchr lbracket value
        · rfl
        · rfl
  rw [hconfig, hwrites]
  cases strchr lbracket value with
  | none => exact .nil (fun _ => rfl) List.prefix_rfl
  | some start => exact .ids kind _ st.config

/-- The last path rule is changed. -/
theorem Traced.rule {config : Config} (hpaths : config.paths ≠ []) (f : PathRule → PathRule) :
    Traced [.path (config.paths.length - 1)] config (config.updateLastRule f) := by
  refine ⟨?_, .inr ⟨hpaths, rfl, f, rfl⟩⟩
  rintro (_ | _)
  · exact .inl ⟨rfl, by simp⟩
  · exact .inl ⟨rfl, by simp⟩

theorem parsed_of_rulePath {key value : Bytes} {path : CString 256}
    (h : settingOf key value = .ok (some (.rulePath path))) :
    key = ascii "path" ∧ (parseQuoted 256 value).isSome = true := by
  have hkey := settingOf_key key value
  rw [h] at hkey
  obtain rfl := List.mem_singleton.mp hkey
  rw [settingOf_path] at h
  cases hpath : parseQuoted 256 value with
  | none =>
      rw [hpath] at h
      cases h
  | some _ => exact ⟨rfl, rfl⟩

theorem parsed_of_ruleMode {key value : Bytes} {writable : Bool}
    (h : settingOf key value = .ok (some (.ruleMode writable))) :
    key = ascii "mode" ∧ (parseQuoted 32 value).isSome = true := by
  have hkey := settingOf_key key value
  rw [h] at hkey
  obtain rfl := List.mem_singleton.mp hkey
  rw [settingOf_mode] at h
  cases hmode : parseQuoted 32 value with
  | none =>
      rw [hmode] at h
      cases h
  | some _ => exact ⟨rfl, rfl⟩

/-- The entry of another key is written to the last path rule, or to none of the arrays. -/
theorem traced_entry (st : LoadState) {line key value : Bytes}
    (hentry : entryOf line = some (key, value)) (hids : ∀ kind : IdKind, key ≠ kind.key) :
    Traced (lineWrites st line) st.config (lineConfig st line) := by
  have hrefused : refusedConfig st.config line = st.config := by
    rw [refusedConfig, hentry]
    simp only
    split
    · rfl
    · exact (if_neg (hids .uid)).trans (if_neg (hids .gid))
  rw [lineWrites, lineConfig, loadLine_of_entry hentry, hrefused, hentry]
  simp only
  rw [if_neg (hids .uid), if_neg (hids .gid)]
  by_cases hwrite : st.inPathRule = true ∧ st.config.paths.length > 0 ∧
      (key = ascii "path" ∧ (parseQuoted 256 value).isSome ∨
        key = ascii "mode" ∧ (parseQuoted 32 value).isSome)
  · rw [if_pos hwrite]
    obtain ⟨hopen, hpos, hset⟩ := hwrite
    have hpaths : st.config.paths ≠ [] := List.length_pos_iff.mp hpos
    rw [loadEntry_of_setting fun _ => ⟨hopen, hpaths⟩]
    rcases hset with ⟨rfl, hparse⟩ | ⟨rfl, hparse⟩
    · obtain ⟨path, hpath⟩ := Option.isSome_iff_exists.mp hparse
      rw [settingOf_path, hpath]
      exact .rule hpaths _
    · obtain ⟨mode, hmode⟩ := Option.isSome_iff_exists.mp hparse
      rw [settingOf_mode, hmode]
      exact .rule hpaths _
  · rw [if_neg hwrite]
    by_cases hkey : key ∈ Field.rulePath.keys ++ Field.ruleMode.keys → st.InRule
    · have hopen : key ∈ Field.rulePath.keys ++ Field.ruleMode.keys →
          st.inPathRule = true ∧ st.config.paths.length > 0 :=
        fun hmem => ⟨(hkey hmem).inPathRule, List.length_pos_iff.mpr (hkey hmem).paths⟩
      rw [loadEntry_of_setting hkey]
      have hsettingKey := settingOf_key key value
      cases hsetting : settingOf key value with
      | error e => exact .nil (fun _ => rfl) List.prefix_rfl
      | ok setting =>
          rw [hsetting] at hsettingKey
          cases setting with
          | none => exact .nil (fun _ => rfl) List.prefix_rfl
          | some s =>
              cases s with
              | allowed kind ids =>
                  refine absurd ?_ (hids kind)
                  cases kind
                  · exact List.mem_singleton.mp hsettingKey
                  · exact List.mem_singleton.mp hsettingKey
              | rulePath path =>
                  obtain ⟨hrule, hpos⟩ := hopen (List.mem_append_left _ hsettingKey)
                  exact absurd ⟨hrule, hpos, .inl (parsed_of_rulePath hsetting)⟩ hwrite
              | ruleMode writable =>
                  obtain ⟨hrule, hpos⟩ := hopen (List.mem_append_right _ hsettingKey)
                  exact absurd ⟨hrule, hpos, .inr (parsed_of_ruleMode hsetting)⟩ hwrite
              | _ =>
                  refine .nil ?_ List.prefix_rfl
                  rintro (_ | _)
                  · rfl
                  · rfl
    · obtain ⟨hmem, hclosed⟩ := Classical.not_imp.mp hkey
      rw [loadEntry_noRule hclosed hmem]
      exact .nil (fun _ => rfl) List.prefix_rfl

/-- What a line changes in the arrays, it has written, whether it is refused or not. -/
theorem traced_line (st : LoadState) (line : Bytes) :
    Traced (lineWrites st line) st.config (lineConfig st line) := by
  cases hentry : entryOf line with
  | none =>
      have hwrites : lineWrites st line = [] := by rw [lineWrites, hentry]
      have hrefused : refusedConfig st.config line = st.config := by rw [refusedConfig, hentry]
      rw [hwrites, lineConfig, loadLine_eq, hentry, hrefused]
      split_ifs
      · exact .nil (fun _ => rfl) List.prefix_rfl
      · refine .nil ?_ (List.prefix_append ..)
        rintro (_ | _)
        · rfl
        · rfl
      · exact .nil (fun _ => rfl) List.prefix_rfl
  | some entry =>
      obtain ⟨key, value⟩ := entry
      by_cases huid : key = IdKind.uid.key
      · exact traced_ids st (by rw [hentry, huid])
      by_cases hgid : key = IdKind.gid.key
      · exact traced_ids st (by rw [hentry, hgid])
      apply traced_entry st hentry
      rintro (_ | _)
      · exact huid
      · exact hgid

theorem lineWrites_inRange {st : LoadState} (hpaths : st.config.paths.length ≤ 16)
    (line : Bytes) : ∀ write ∈ lineWrites st line, write.InRange := by
  unfold lineWrites
  cases entryOf line with
  | none => simp
  | some entry =>
      obtain ⟨key, value⟩ := entry
      simp only
      have hids : ∀ index ∈ (match strchr lbracket value with
          | none => []
          | some start => idWrites 16 0 start.tail), index < 16 := by
        split
        · simp
        · exact idWrites_lt
      by_cases huid : key = IdKind.uid.key
      · rw [if_pos huid]
        intro write hwrite
        obtain ⟨index, hindex, rfl⟩ := List.mem_map.mp hwrite
        exact hids index hindex
      rw [if_neg huid]
      by_cases hgid : key = IdKind.gid.key
      · rw [if_pos hgid]
        intro write hwrite
        obtain ⟨index, hindex, rfl⟩ := List.mem_map.mp hwrite
        exact hids index hindex
      rw [if_neg hgid]
      intro write hwrite
      split at hwrite
      · rename_i hrule
        rw [List.mem_singleton.mp hwrite]
        have hpos := hrule.2.1
        change _ - 1 < 16
        omega
      · cases hwrite

theorem loadWrites_inRange {past lines : List Bytes} {st : LoadState}
    (hinv : LoadInvariant past st) : ∀ write ∈ loadWrites st lines, write.InRange := by
  induction lines generalizing past st with
  | nil => simp [loadWrites]
  | cons line lines ih =>
      intro write hwrite
      rcases List.mem_append.mp hwrite with hwrite | hwrite
      · exact lineWrites_inRange hinv.paths line write hwrite
      · cases hline : loadLine st line with
        | error e =>
            rw [hline] at hwrite
            cases hwrite
        | ok st' =>
            rw [hline] at hwrite
            exact ih (hinv.step hline) write hwrite

/-! ## Who is an admin -/

theorem isAdmin_iff_allowed {config : Config}
    (h : config.requireAdminAllowlist = true) (identity : Identity) :
    anythingConfigIdentityIsAdmin config identity = true ↔
      ∃ kind, ((identity.id kind).toNat : ℤ) ∈ config.allowed kind := by
  simp only [anythingConfigIdentityIsAdmin, h, Bool.not_true, Bool.false_eq_true, if_false,
    Bool.or_eq_true, List.any_eq_true, beq_iff_eq, exists_eq_right]
  constructor
  · rintro (hid | hid)
    · exact ⟨.uid, hid⟩
    · exact ⟨.gid, hid⟩
  · rintro ⟨_ | _, hid⟩
    · exact .inl hid
    · exact .inr hid

theorem Agrees.mem_iff {kind : IdKind} {lines : List Bytes} {ids : List ℤ}
    (h : Agrees kind lines ids) (id : UInt32) :
    (id.toNat : ℤ) ∈ ids ↔
      ∃ value, (lines.filterMap (valueAt kind.key)).getLast? = some value ∧
        Lists value id.toNat := by
  unfold Agrees at h
  split at h
  · rename_i hnone
    rw [h]
    simp [hnone]
  · rename_i value hlast
    rw [hlast, mem_parseLongArray_iff h]
    exact ⟨fun hlists => ⟨value, rfl, hlists⟩, fun ⟨value', heq, hlists⟩ => by
      obtain rfl := Option.some.inj heq
      exact hlists⟩

/-- What a loaded file says about admins: an allowlist is required and not empty, the
arrays were kept within their bounds by writes that account for all that was changed in
them, and an identity is an admin exactly when one of its ids is in the list of the last
entry of its kind. -/
structure FailClosed (file : Bytes) (config : Config) : Prop where
  required : config.requireAdminAllowlist = true
  listed : ∃ kind, config.allowed kind ≠ []
  counts : ∀ (past : List Bytes) (st : LoadState), past <+: fgetsLines file →
    past.foldlM loadLine ⟨anythingConfigInit, false⟩ = .ok st →
    st.config.paths.length ≤ 16 ∧ ∀ kind, (st.config.allowed kind).length ≤ 16
  writes : ∀ write ∈ loadWrites ⟨anythingConfigInit, false⟩ (fgetsLines file), write.InRange
  traced : ∀ (past : List Bytes) (line : Bytes) (st : LoadState),
    past ++ [line] <+: fgetsLines file →
    past.foldlM loadLine ⟨anythingConfigInit, false⟩ = .ok st →
    Traced (lineWrites st line) st.config (lineConfig st line)
  paths : config.paths.length ≤ 16
  ids : ∀ kind, (config.allowed kind).length ≤ 16
  admin : ∀ identity, anythingConfigIdentityIsAdmin config identity = true ↔
    ∃ kind value, lastValue kind.key file = some value ∧
      Lists value (identity.id kind).toNat

theorem ValidConfig.listed {config : Config} (h : ValidConfig config false) :
    config.requireAdminAllowlist = true ∧ ∃ kind, config.allowed kind ≠ [] := by
  have hrequired := h.secure.resolve_right Bool.false_ne_true
  refine ⟨hrequired, ?_⟩
  rcases h.allowlist hrequired with huids | hgids
  · exact ⟨.uid, huids⟩
  · exact ⟨.gid, hgids⟩

theorem loadLoop_of_load {file : Bytes} {allow : Bool} {config : Config}
    (h : anythingConfigLoadWithOptions (some file) allow = .ok config) :
    ∃ st, loadLoop ⟨anythingConfigInit, false⟩ file = .ok st ∧ st.config = config := by
  unfold anythingConfigLoadWithOptions at h
  simp only at h
  split at h
  · cases h
  · rename_i st hst
    split at h
    · cases h
    · exact ⟨st, hst, Except.ok.inj h⟩

/-- The loader is fail-closed for every file. -/
theorem failClosed_of_load (file : Bytes) (config : Config)
    (h : anythingConfigLoad (some file) = .ok config) : FailClosed file config := by
  have hvalid := validConfig_of_load h
  obtain ⟨st, hloop, rfl⟩ := loadLoop_of_load h
  rw [loadLoop_eq] at hloop
  have hinv := loadInvariant_run hloop
  obtain ⟨hrequired, hlisted⟩ := hvalid.listed
  have hinit : LoadInvariant [] ⟨anythingConfigInit, false⟩ := loadInvariant_run rfl
  refine ⟨hrequired, hlisted, ?_, loadWrites_inRange hinit, fun _ line st _ _ =>
    traced_line st line, hinv.paths, fun kind => (hinv.agrees kind).length_le, ?_⟩
  · intro past st' _ hpast
    have hpast' := loadInvariant_run hpast
    exact ⟨hpast'.paths, fun kind => (hpast'.agrees kind).length_le⟩
  · intro identity
    rw [isAdmin_iff_allowed hrequired]
    exact exists_congr fun kind => (hinv.agrees kind).mem_iff _

/-- Two entries for users and one for groups. -/
def allowlistFile : Bytes :=
  ascii "allowed_uids = [1, 2]
allowed_gids = [ 7, ] # ops
allowed_uids = [1000]
"

theorem failClosed_sample :
    ∃ config, anythingConfigLoad (some allowlistFile) = .ok config ∧
      FailClosed allowlistFile config := by
  obtain ⟨config, hload⟩ := exists_ok_of_isSome
    (by decide +kernel : (anythingConfigLoad (some allowlistFile)).toOption.isSome = true)
  exact ⟨config, hload, failClosed_of_load allowlistFile config hload⟩

end AnythingTool
