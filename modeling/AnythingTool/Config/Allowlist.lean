import AnythingTool.Config.IdList

/-!
# The admin allowlist of a loaded file

The two allowlists of a configuration are those of the last entries of their keys.
`LoadInvariant.step` says what one line can do to the allowlists, `loadInvariant_run` what a
whole file does.
-/

namespace AnythingTool

open CText JsonText

/-! ## Lines and entries -/

/-- The lines `fgets` delivers. -/
def fgetsLines (file : Bytes) : List Bytes :=
  match _h : fgets 512 file with
  | none => []
  | some (line, rest) => line :: fgetsLines rest
termination_by file.length
decreasing_by exact fgets_length (by decide) _h

theorem fgetsLines_none {file : Bytes} (h : fgets 512 file = none) : fgetsLines file = [] := by
  rw [fgetsLines]
  split
  · rfl
  · rename_i hsome
    rw [h] at hsome
    cases hsome

theorem fgetsLines_some {file line rest : Bytes} (h : fgets 512 file = some (line, rest)) :
    fgetsLines file = line :: fgetsLines rest := by
  rw [fgetsLines]
  split
  · rename_i hnone
    rw [h] at hnone
    cases hnone
  · rename_i line' rest' hsome
    obtain ⟨rfl, rfl⟩ := Prod.mk.inj (Option.some.inj (h.symm.trans hsome))
    rfl

theorem loadLoop_none {file : Bytes} (h : fgets 512 file = none) (st : LoadState) :
    loadLoop st file = .ok st := by
  rw [loadLoop]
  split
  · rfl
  · rename_i hsome
    rw [h] at hsome
    cases hsome

theorem loadLoop_some {file line rest : Bytes} (h : fgets 512 file = some (line, rest))
    (st : LoadState) : loadLoop st file = loadLine st line >>= fun st' => loadLoop st' rest := by
  rw [loadLoop]
  split
  · rename_i hnone
    rw [h] at hnone
    cases hnone
  · rename_i line' rest' hsome
    obtain ⟨rfl, rfl⟩ := Prod.mk.inj (Option.some.inj (h.symm.trans hsome))
    cases loadLine st line
    · rfl
    · rfl

/-- The loop goes through the lines. -/
theorem loadLoop_eq (st : LoadState) (file : Bytes) :
    loadLoop st file = (fgetsLines file).foldlM loadLine st := by
  induction file using fgetsLines.induct generalizing st with
  | case1 file hend =>
      rw [fgetsLines_none hend, loadLoop_none hend]
      rfl
  | case2 file line rest hline ih =>
      rw [fgetsLines_some hline, loadLoop_some hline, List.foldlM_cons]
      cases loadLine st line with
      | error e => rfl
      | ok st' => exact ih st'

/-- The key and the value of the entry on a line. -/
def entryOf (line : Bytes) : Option (Bytes × Bytes) :=
  let entry := trim ((cstr line).takeWhile (· ≠ 0x23))
  match strchr 0x3D entry with
  | none => none
  | some equals => some (trim (entry.take (entry.length - equals.length)), trim equals.tail)

/-- The value of a line that is an entry with this key. -/
def valueAt (key line : Bytes) : Option Bytes :=
  match entryOf line with
  | none => none
  | some (key', value) => if key' = key then some value else none

/-- The value of the last entry with this key. -/
def lastValue (key file : Bytes) : Option Bytes :=
  ((fgetsLines file).filterMap (valueAt key)).getLast?

/-! ## The two allowlists -/

inductive IdKind
  | uid
  | gid
deriving DecidableEq, Repr

def IdKind.key : IdKind → Bytes
  | .uid => ascii "allowed_uids"
  | .gid => ascii "allowed_gids"

def Config.allowed (config : Config) : IdKind → List ℤ
  | .uid => config.adminAllowedUids
  | .gid => config.adminAllowedGids

def Identity.id (identity : Identity) : IdKind → UInt32
  | .uid => identity.uid
  | .gid => identity.gid

/-- What a line does to the configuration. -/
inductive LineStep (st : LoadState) (line : Bytes) : LoadState → Prop
  | skipped (hentry : entryOf line = none) : LineStep st line st
  | header (hentry : entryOf line = none) (hroom : st.config.paths.length < 16) :
      LineStep st line
        ⟨{ st.config with paths := st.config.paths ++ [⟨.empty, false⟩] }, true⟩
  | entry {key value : Bytes} {st' : LoadState} (hentry : entryOf line = some (key, value))
      (h : loadEntry st key value = .ok st') : LineStep st line st'

theorem lineStep_of_ok {st st' : LoadState} {line : Bytes} (h : loadLine st line = .ok st') :
    LineStep st line st' := by
  have hempty : strchr 0x3D [] = none := by decide
  have hheader : strchr 0x3D (ascii "[[paths]]") = none := by decide
  unfold loadLine at h
  simp only at h
  split_ifs at h with hnil hpaths hfull
  · obtain rfl := Except.ok.inj h
    exact .skipped (by simp only [entryOf, hnil, hempty])
  · obtain rfl := Except.ok.inj h
    exact .header (by simp only [entryOf, hpaths, hheader]) (not_le.mp hfull)
  · split at h
    · rename_i hnone
      obtain rfl := Except.ok.inj h
      exact .skipped (by simp only [entryOf, hnone])
    · rename_i equals hequals
      exact .entry (by simp only [entryOf, hequals]) h

theorem ite_eq_ok {ε α : Type} {p : Prop} [Decidable p] {x y : Except ε α} {b : α}
    (h : (if p then x else y) = .ok b) : p ∧ x = .ok b ∨ ¬ p ∧ y = .ok b := by
  by_cases hp : p
  · exact .inl ⟨hp, by rwa [if_pos hp] at h⟩
  · exact .inr ⟨hp, by rwa [if_neg hp] at h⟩

/-- What an entry with this key does not change. -/
structure Keeps (key : Bytes) (st st' : LoadState) : Prop where
  paths : st'.config.paths.length = st.config.paths.length
  allowed : ∀ kind : IdKind, key ≠ kind.key → st'.config.allowed kind = st.config.allowed kind

theorem Keeps.of_fields {key : Bytes} {st : LoadState} {config : Config} {inPathRule : Bool}
    (hpaths : config.paths.length = st.config.paths.length)
    (huids : config.adminAllowedUids = st.config.adminAllowedUids)
    (hgids : config.adminAllowedGids = st.config.adminAllowedGids) :
    Keeps key st ⟨config, inPathRule⟩ := by
  refine ⟨hpaths, ?_⟩
  rintro (_ | _) -
  · exact huids
  · exact hgids

theorem loadEntry_keeps {st st' : LoadState} {key value : Bytes}
    (h : loadEntry st key value = .ok st') : Keeps key st st' := by
  have hrule : ∀ (config : Config) (f : PathRule → PathRule),
      (config.updateLastRule f).paths.length = config.paths.length :=
    fun config f => List.length_modify ..
  unfold loadEntry at h
  rcases ite_eq_ok h with ⟨-, h⟩ | ⟨-, h⟩
  · split at h
    · cases h
    · obtain rfl := Except.ok.inj h
      exact .of_fields rfl rfl rfl
  rcases ite_eq_ok h with ⟨-, h⟩ | ⟨-, h⟩
  · split at h
    · cases h
    · obtain rfl := Except.ok.inj h
      exact .of_fields rfl rfl rfl
  rcases ite_eq_ok h with ⟨-, h⟩ | ⟨-, h⟩
  · split at h
    · cases h
    · obtain rfl := Except.ok.inj h
      exact .of_fields rfl rfl rfl
  rcases ite_eq_ok h with ⟨-, h⟩ | ⟨-, h⟩
  · obtain rfl := Except.ok.inj h
    exact .of_fields rfl rfl rfl
  rcases ite_eq_ok h with ⟨-, h⟩ | ⟨-, h⟩
  · obtain rfl := Except.ok.inj h
    exact .of_fields rfl rfl rfl
  rcases ite_eq_ok h with ⟨-, h⟩ | ⟨-, h⟩
  · obtain rfl := Except.ok.inj h
    exact .of_fields rfl rfl rfl
  rcases ite_eq_ok h with ⟨-, h⟩ | ⟨-, h⟩
  · obtain rfl := Except.ok.inj h
    exact .of_fields rfl rfl rfl
  rcases ite_eq_ok h with ⟨-, h⟩ | ⟨-, h⟩
  · obtain rfl := Except.ok.inj h
    exact .of_fields rfl rfl rfl
  rcases ite_eq_ok h with ⟨hkey, h⟩ | ⟨-, h⟩
  · split at h
    · cases h
    · rename_i ids hids
      obtain rfl := Except.ok.inj h
      refine ⟨rfl, ?_⟩
      rintro (_ | _) hkind
      · exact absurd hkey hkind
      · rfl
  rcases ite_eq_ok h with ⟨hkey, h⟩ | ⟨-, h⟩
  · split at h
    · cases h
    · rename_i ids hids
      obtain rfl := Except.ok.inj h
      refine ⟨rfl, ?_⟩
      rintro (_ | _) hkind
      · rfl
      · exact absurd hkey hkind
  rcases ite_eq_ok h with ⟨-, h⟩ | ⟨-, h⟩
  · obtain rfl := Except.ok.inj h
    exact .of_fields rfl rfl rfl
  rcases ite_eq_ok h with ⟨-, h⟩ | ⟨-, h⟩
  · split at h
    · cases h
    · obtain rfl := Except.ok.inj h
      exact .of_fields (hrule _ _) rfl rfl
  rcases ite_eq_ok h with ⟨-, h⟩ | ⟨-, h⟩
  · split at h
    · cases h
    · obtain rfl := Except.ok.inj h
      exact .of_fields (hrule _ _) rfl rfl
  obtain rfl := Except.ok.inj h
  exact .of_fields rfl rfl rfl

/-- An entry with the key of an allowlist replaces it. -/
theorem loadEntry_allowed {st st' : LoadState} {kind : IdKind} {value : Bytes}
    (h : loadEntry st kind.key value = .ok st') :
    parseLongArray value 16 = some (st'.config.allowed kind) := by
  cases kind with
  | uid =>
      unfold loadEntry IdKind.key at h
      simp only at h
      rw [if_neg (by decide), if_neg (by decide), if_neg (by decide), if_neg (by decide),
        if_neg (by decide), if_neg (by decide), if_neg (by decide), if_neg (by decide),
        if_pos trivial] at h
      split at h
      · cases h
      · rename_i ids hids
        obtain rfl := Except.ok.inj h
        exact hids
  | gid =>
      unfold loadEntry IdKind.key at h
      simp only at h
      rw [if_neg (by decide), if_neg (by decide), if_neg (by decide), if_neg (by decide),
        if_neg (by decide), if_neg (by decide), if_neg (by decide), if_neg (by decide),
        if_neg (by decide), if_pos trivial] at h
      split at h
      · cases h
      · rename_i ids hids
        obtain rfl := Except.ok.inj h
        exact hids

/-! ## Over a file -/

/-- The ids are those of the last entry of their kind. -/
def Agrees (kind : IdKind) (lines : List Bytes) (ids : List ℤ) : Prop :=
  match (lines.filterMap (valueAt kind.key)).getLast? with
  | none => ids = []
  | some value => parseLongArray value 16 = some ids

theorem Agrees.length_le {kind : IdKind} {lines : List Bytes} {ids : List ℤ}
    (h : Agrees kind lines ids) : ids.length ≤ 16 := by
  unfold Agrees at h
  split at h
  · rw [h]
    exact Nat.zero_le 16
  · obtain ⟨before, ids', text, -, -, -, hroom, rfl⟩ := parseLongArray_eq_some.mp h
    rwa [List.length_map]

theorem Agrees.keep {kind : IdKind} {lines : List Bytes} {line : Bytes} {ids : List ℤ}
    (h : Agrees kind lines ids) (hline : valueAt kind.key line = none) :
    Agrees kind (lines ++ [line]) ids := by
  have hsame : (lines ++ [line]).filterMap (valueAt kind.key) =
      lines.filterMap (valueAt kind.key) := by
    rw [List.filterMap_append, List.filterMap_cons_none hline, List.filterMap_nil,
      List.append_nil]
  rwa [Agrees, hsame]

theorem Agrees.replace {kind : IdKind} {line value : Bytes} {ids : List ℤ}
    (lines : List Bytes) (hline : valueAt kind.key line = some value)
    (h : parseLongArray value 16 = some ids) : Agrees kind (lines ++ [line]) ids := by
  have hlast : ((lines ++ [line]).filterMap (valueAt kind.key)).getLast? = some value := by
    rw [List.filterMap_append, List.filterMap_cons_some hline, List.filterMap_nil,
      List.getLast?_concat]
  rwa [Agrees, hlast]

/-- What holds between two lines. -/
structure LoadInvariant (lines : List Bytes) (st : LoadState) : Prop where
  paths : st.config.paths.length ≤ 16
  agrees : ∀ kind, Agrees kind lines (st.config.allowed kind)

theorem LoadInvariant.step {lines : List Bytes} {line : Bytes} {st st' : LoadState}
    (hinv : LoadInvariant lines st) (h : loadLine st line = .ok st') :
    LoadInvariant (lines ++ [line]) st' := by
  cases lineStep_of_ok h with
  | skipped hentry =>
      exact ⟨hinv.paths, fun kind => (hinv.agrees kind).keep (by rw [valueAt, hentry])⟩
  | header hentry hroom =>
      refine ⟨?_, ?_⟩
      · rw [List.length_append]
        exact hroom
      · intro kind
        have hnone : valueAt kind.key line = none := by rw [valueAt, hentry]
        have hagrees := (hinv.agrees kind).keep hnone
        cases kind
        · exact hagrees
        · exact hagrees
  | @entry key value _ hentry hload =>
      have hkeeps := loadEntry_keeps hload
      refine ⟨hkeeps.paths.trans_le hinv.paths, ?_⟩
      intro kind
      by_cases hkey : key = kind.key
      · have hline : valueAt kind.key line = some value := by
          simp only [valueAt, hentry, if_pos hkey]
        rw [hkey] at hload
        exact .replace lines hline (loadEntry_allowed hload)
      · have hline : valueAt kind.key line = none := by
          simp only [valueAt, hentry, if_neg hkey]
        rw [hkeeps.allowed kind hkey]
        exact (hinv.agrees kind).keep hline

theorem loadInvariant_run {lines : List Bytes} {st : LoadState}
    (h : lines.foldlM loadLine ⟨anythingConfigInit, false⟩ = .ok st) :
    LoadInvariant lines st := by
  induction lines using List.reverseRecOn generalizing st with
  | nil =>
      obtain rfl := Except.ok.inj h
      refine ⟨Nat.zero_le 16, ?_⟩
      rintro (_ | _)
      · rfl
      · rfl
  | append_singleton lines line ih =>
      rw [List.foldlM_append, bind_eq_ok] at h
      obtain ⟨st', hlines, hline⟩ := h
      rw [List.foldlM_cons, bind_eq_ok] at hline
      obtain ⟨st'', hstep, hnil⟩ := hline
      obtain rfl := Except.ok.inj hnil
      exact (ih hlines).step hstep

end AnythingTool
