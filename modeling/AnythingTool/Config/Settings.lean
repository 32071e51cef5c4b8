import AnythingTool.Config.Allowlist

/-!
# Settings

What one line of a configuration file sets. The value an entry sets depends on the entry
alone (`settingOf`), and it replaces one field of the configuration. So a line leaves the
state of a load alone exactly when it is no header and its entry is none of the loader's,
stands where no path rule is open, or sets what is set (`loadLine_eq_self_iff`).
-/

namespace AnythingTool

open CText

/-! ## Lines -/

/-- What the loader looks at of a line: the text before its first `#`, without the blanks
around it. -/
def lineText (line : Bytes) : Bytes := trim ((cstr line).takeWhile (· ≠ 0x23))

theorem entryOf_eq (line : Bytes) :
    entryOf line = (strchr 0x3D (lineText line)).map fun equals =>
      (trim ((lineText line).take ((lineText line).length - equals.length)), trim equals.tail) := by
  unfold entryOf
  simp only
  rw [← lineText]
  cases strchr 0x3D (lineText line)
  · rfl
  · rfl

/-- A line is a header, an entry, or nothing. -/
theorem loadLine_eq (st : LoadState) (line : Bytes) :
    loadLine st line =
      if lineText line = ascii "[[paths]]" then
        if st.config.paths.length ≥ 16 then .error .tooManyPathRules
        else .ok ⟨{ st.config with paths := st.config.paths ++ [⟨.empty, false⟩] }, true⟩
      else
        match entryOf line with
        | none => .ok st
        | some (key, value) => loadEntry st key value := by
  have hempty : strchr 0x3D [] = none := by decide
  have hheader : ([] : Bytes) ≠ ascii "[[paths]]" := by decide
  rw [entryOf_eq]
  unfold loadLine
  simp only
  rw [← lineText]
  by_cases hnil : lineText line = []
  · rw [hnil, if_pos rfl, if_neg hheader, hempty]
    rfl
  · rw [if_neg hnil]
    split_ifs with hpaths hfull
    · rfl
    · rfl
    · cases strchr 0x3D (lineText line)
      · rfl
      · rfl

theorem loadLine_of_entry {line key value : Bytes} (h : entryOf line = some (key, value))
    (st : LoadState) : loadLine st line = loadEntry st key value := by
  have hheader : lineText line ≠ ascii "[[paths]]" := by
    have hequals : strchr 0x3D (ascii "[[paths]]") = none := by decide
    intro htext
    rw [entryOf_eq, htext, hequals] at h
    cases h
  rw [loadLine_eq, if_neg hheader, h]

/-! ## Fields -/

inductive Field
  | toolSocketPath
  | adminSocketPath
  | auditLogPath
  | capabilitySysRead
  | maxRequestBytes
  | maxOutputBytes
  | approvalTtlSeconds
  | readTimeoutMs
  | allowed (kind : IdKind)
  | requireAdminAllowlist
  | rulePath
  | ruleMode
deriving DecidableEq

/-- A field and its value. -/
inductive Setting
  | toolSocketPath (path : CString 256)
  | adminSocketPath (path : CString 256)
  | auditLogPath (path : CString 256)
  | capabilitySysRead (enabled : Bool)
  | maxRequestBytes (bytes : ℕ)
  | maxOutputBytes (bytes : ℕ)
  | approvalTtlSeconds (seconds : ℤ)
  | readTimeoutMs (ms : ℤ)
  | allowed (kind : IdKind) (ids : List ℤ)
  | requireAdminAllowlist (required : Bool)
  | rulePath (path : CString 256)
  | ruleMode (writable : Bool)
deriving DecidableEq

/-- The keys under which a file sets a field. -/
def Field.keys : Field → List Bytes
  | .toolSocketPath => [ascii "tool_socket_path", ascii "socket_path"]
  | .adminSocketPath => [ascii "admin_socket_path"]
  | .auditLogPath => [ascii "audit_log"]
  | .capabilitySysRead => [ascii "sys_read"]
  | .maxRequestBytes => [ascii "max_request_bytes"]
  | .maxOutputBytes => [ascii "max_output_bytes"]
  | .approvalTtlSeconds => [ascii "approval_ttl_seconds"]
  | .readTimeoutMs => [ascii "read_timeout_ms"]
  | .allowed .uid => [ascii "allowed_uids"]
  | .allowed .gid => [ascii "allowed_gids"]
  | .requireAdminAllowlist => [ascii "require_admin_allowlist"]
  | .rulePath => [ascii "path"]
  | .ruleMode => [ascii "mode"]

def Setting.field : Setting → Field
  | .toolSocketPath _ => .toolSocketPath
  | .adminSocketPath _ => .adminSocketPath
  | .auditLogPath _ => .auditLogPath
  | .capabilitySysRead _ => .capabilitySysRead
  | .maxRequestBytes _ => .maxRequestBytes
  | .maxOutputBytes _ => .maxOutputBytes
  | .approvalTtlSeconds _ => .approvalTtlSeconds
  | .readTimeoutMs _ => .readTimeoutMs
  | .allowed kind _ => .allowed kind
  | .requireAdminAllowlist _ => .requireAdminAllowlist
  | .rulePath _ => .rulePath
  | .ruleMode _ => .ruleMode

/-- The path rule the last header opened. -/
def Config.lastRule (config : Config) : PathRule := config.paths.getLast?.getD ⟨.empty, false⟩

def Config.get (config : Config) : Field → Setting
  | .toolSocketPath => .toolSocketPath config.toolSocketPath
  | .adminSocketPath => .adminSocketPath config.adminSocketPath
  | .auditLogPath => .auditLogPath config.auditLogPath
  | .capabilitySysRead => .capabilitySysRead config.capabilitySysRead
  | .maxRequestBytes => .maxRequestBytes config.maxRequestBytes
  | .maxOutputBytes => .maxOutputBytes config.maxOutputBytes
  | .approvalTtlSeconds => .approvalTtlSeconds config.approvalTtlSeconds
  | .readTimeoutMs => .readTimeoutMs config.readTimeoutMs
  | .allowed kind => .allowed kind (config.allowed kind)
  | .requireAdminAllowlist => .requireAdminAllowlist config.requireAdminAllowlist
  | .rulePath => .rulePath config.lastRule.path
  | .ruleMode => .ruleMode config.lastRule.writable

def Setting.apply (config : Config) : Setting → Config
  | .toolSocketPath path => { config with toolSocketPath := path }
  | .adminSocketPath path => { config with adminSocketPath := path }
  | .auditLogPath path => { config with auditLogPath := path }
  | .capabilitySysRead enabled => { config with capabilitySysRead := enabled }
  | .maxRequestBytes bytes => { config with maxRequestBytes := bytes }
  | .maxOutputBytes bytes => { config with maxOutputBytes := bytes }
  | .approvalTtlSeconds seconds => { config with approvalTtlSeconds := seconds }
  | .readTimeoutMs ms => { config with readTimeoutMs := ms }
  | .allowed .uid ids => { config with adminAllowedUids := ids }
  | .allowed .gid ids => { config with adminAllowedGids := ids }
  | .requireAdminAllowlist required => { config with requireAdminAllowlist := required }
  | .rulePath path => config.updateLastRule fun rule => { rule with path := path }
  | .ruleMode writable => config.updateLastRule fun rule => { rule with writable := writable }

theorem lastRule_updateLastRule {config : Config} (h : config.paths ≠ [])
    (f : PathRule → PathRule) : (config.updateLastRule f).lastRule = f config.lastRule := by
  have hlast : (config.updateLastRule f).paths.getLast? = config.paths.getLast?.map f := by
    rw [Config.updateLastRule, List.getLast?_eq_getElem?, List.length_modify,
      List.getElem?_modify_eq, List.getLast?_eq_getElem?]
    rfl
  rw [Config.lastRule, Config.lastRule, hlast, List.getLast?_eq_some_getLast h]
  rfl

theorem get_apply_self {config : Config} {s : Setting}
    (h : s.field = .rulePath ∨ s.field = .ruleMode → config.paths ≠ []) :
    (s.apply config).get s.field = s := by
  cases s with
  | allowed kind ids =>
      cases kind
      · rfl
      · rfl
  | rulePath path =>
      simp only [Setting.field, Setting.apply, Config.get,
        lastRule_updateLastRule (h (.inl rfl))]
  | ruleMode writable =>
      simp only [Setting.field, Setting.apply, Config.get,
        lastRule_updateLastRule (h (.inr rfl))]
  | _ => rfl

theorem apply_of_get {config : Config} {s : Setting} (h : config.get s.field = s) :
    s.apply config = config := by
  have hrule : ∀ f : PathRule → PathRule, f config.lastRule = config.lastRule →
      config.updateLastRule f = config := by
    intro f hf
    have hpaths : config.paths.modify (config.paths.length - 1) f = config.paths := by
      apply List.ext_getElem (List.length_modify ..)
      intro i _ hi
      rw [List.getElem_modify]
      split_ifs with hlast
      · have hrule : config.lastRule = config.paths[i] := by
          rw [Config.lastRule, List.getLast?_eq_getElem?, hlast, List.getElem?_eq_getElem hi]
          rfl
        rw [← hrule, hf]
      · rfl
    rw [Config.updateLastRule, hpaths]
  cases s with
  | allowed kind ids =>
      cases kind
      · rw [← Setting.allowed.inj h |>.2]
        rfl
      · rw [← Setting.allowed.inj h |>.2]
        rfl
  | rulePath path =>
      apply hrule
      rw [← Setting.rulePath.inj h]
  | ruleMode writable =>
      apply hrule
      rw [← Setting.ruleMode.inj h]
  | _ =>
      cases h
      rfl

/-! ## Entries -/

/-- The setting of an entry inside of a path rule, if its key is one of the loader's. -/
def settingOf (key value : Bytes) : Except ConfigError (Option Setting) :=
  if key = ascii "tool_socket_path" ∨ key = ascii "socket_path" then
    match parseQuoted 256 value with
    | none => .error .invalidToolSocketPath
    | some path => .ok (some (.toolSocketPath path))
  else if key = ascii "admin_socket_path" then
    match parseQuoted 256 value with
    | none => .error .invalidAdminSocketPath
    | some path => .ok (some (.adminSocketPath path))
  else if key = ascii "audit_log" then
    match parseQuoted 256 value with
    | none => .error .invalidAuditLogPath
    | some path => .ok (some (.auditLogPath path))
  else if key = ascii "sys_read" then
    .ok (some (.capabilitySysRead (strncmpEq value (ascii "true") 4)))
  else if key = ascii "max_request_bytes" then .ok (some (.maxRequestBytes (strtoull value)))
  else if key = ascii "max_output_bytes" then .ok (some (.maxOutputBytes (strtoull value)))
  else if key = ascii "approval_ttl_seconds" then .ok (some (.approvalTtlSeconds (atoi value)))
  else if key = ascii "read_timeout_ms" then .ok (some (.readTimeoutMs (atoi value)))
  else if key = ascii "allowed_uids" then
    match parseLongArray value 16 with
    | none => .error .invalidAllowedUids
    | some ids => .ok (some (.allowed .uid ids))
  else if key = ascii "allowed_gids" then
    match parseLongArray value 16 with
    | none => .error .invalidAllowedGids
    | some ids => .ok (some (.allowed .gid ids))
  else if key = ascii "require_admin_allowlist" then
    .ok (some (.requireAdminAllowlist (strncmpEq value (ascii "true") 4)))
  else if key = ascii "path" then
    match parseQuoted 256 value with
    | none => .error .invalidPathRule
    | some path => .ok (some (.rulePath path))
  else if key = ascii "mode" then
    match parseQuoted 32 value with
    | none => .error .invalidPathMode
    | some mode => .ok (some (.ruleMode (ascii "write" <:+: mode.bytes)))
  else .ok none

/-- The refusal of a list of ids. -/
def IdKind.refusal : IdKind → ConfigError
  | .uid => .invalidAllowedUids
  | .gid => .invalidAllowedGids

theorem settingOf_ids (kind : IdKind) (value : Bytes) :
    settingOf kind.key value =
      match parseLongArray value 16 with
      | none => .error kind.refusal
      | some ids => .ok (some (.allowed kind ids)) := by
  cases kind
  · rfl
  · rfl

theorem settingOf_path (value : Bytes) :
    settingOf (ascii "path") value =
      match parseQuoted 256 value with
      | none => .error .invalidPathRule
      | some path => .ok (some (.rulePath path)) :=
  rfl

theorem settingOf_mode (value : Bytes) :
    settingOf (ascii "mode") value =
      match parseQuoted 32 value with
      | none => .error .invalidPathMode
      | some mode => .ok (some (.ruleMode (ascii "write" <:+: mode.bytes))) :=
  rfl

/-- A key of the loader. -/
def KnownKey (key : Bytes) : Prop := ∃ f : Field, key ∈ f.keys

/-- A path rule has been opened. -/
structure LoadState.InRule (st : LoadState) : Prop where
  inPathRule : st.inPathRule = true
  paths : st.config.paths ≠ []

/-- What a setting makes of a state. -/
def LoadState.set (st : LoadState) : Option Setting → LoadState
  | none => st
  | some s => { st with config := s.apply st.config }

theorem ite_eq_map {ε α β : Type} {p q : Prop} [Decidable p] [Decidable q] {f : α → β}
    {x y : Except ε β} {x' y' : Except ε α} (h : p ↔ q) (hx : x = x'.map f)
    (hy : y = y'.map f) : (if p then x else y) = (if q then x' else y').map f := by
  by_cases hq : q
  · rw [if_pos (h.mpr hq), if_pos hq, hx]
  · rw [if_neg (fun hp => hq (h.mp hp)), if_neg hq, hy]

theorem loadEntry_of_setting {st : LoadState} {key : Bytes}
    (h : key ∈ Field.rulePath.keys ++ Field.ruleMode.keys → st.InRule) (value : Bytes) :
    loadEntry st key value = (settingOf key value).map st.set := by
  have hrule : ∀ name ∈ Field.rulePath.keys ++ Field.ruleMode.keys,
      (st.inPathRule = true ∧ st.config.paths.length > 0 ∧ key = name ↔ key = name) := by
    intro name hname
    refine ⟨fun hkey => hkey.2.2, ?_⟩
    rintro rfl
    have hopen := h hname
    exact ⟨hopen.inPathRule, List.length_pos_iff.mpr hopen.paths, rfl⟩
  unfold loadEntry settingOf
  apply ite_eq_map Iff.rfl
  · cases parseQuoted 256 value
    · rfl
    · rfl
  apply ite_eq_map Iff.rfl
  · cases parseQuoted 256 value
    · rfl
    · rfl
  apply ite_eq_map Iff.rfl
  · cases parseQuoted 256 value
    · rfl
    · rfl
  apply ite_eq_map Iff.rfl
  · rfl
  apply ite_eq_map Iff.rfl
  · rfl
  apply ite_eq_map Iff.rfl
  · rfl
  apply ite_eq_map Iff.rfl
  · rfl
  apply ite_eq_map Iff.rfl
  · rfl
  apply ite_eq_map Iff.rfl
  · cases parseLongArray value 16
    · rfl
    · rfl
  apply ite_eq_map Iff.rfl
  · cases parseLongArray value 16
    · rfl
    · rfl
  apply ite_eq_map Iff.rfl
  · rfl
  apply ite_eq_map (hrule _ (by decide))
  · cases parseQuoted 256 value
    · rfl
    · rfl
  apply ite_eq_map (hrule _ (by decide))
  · cases parseQuoted 32 value
    · rfl
    · rfl
  rfl

/-- Where no path rule is open, the keys of its fields are passed over. -/
theorem loadEntry_noRule {st : LoadState} (h : ¬ st.InRule) {key : Bytes}
    (hkey : key ∈ Field.rulePath.keys ++ Field.ruleMode.keys) (value : Bytes) :
    loadEntry st key value = .ok st := by
  have hclosed : ∀ q : Prop, ¬ (st.inPathRule = true ∧ st.config.paths.length > 0 ∧ q) :=
    fun q hopen => h ⟨hopen.1, List.length_pos_iff.mp hopen.2.1⟩
  rw [loadEntry]
  simp only [hclosed, if_false]
  rcases List.mem_pair.mp hkey with rfl | rfl
  · rfl
  · rfl

/-- The keys an entry may have of which the loader makes this. -/
def SettingKey (key : Bytes) : Except ConfigError (Option Setting) → Prop
  | .error _ => KnownKey key
  | .ok none => ¬ KnownKey key
  | .ok (some s) => key ∈ s.field.keys

theorem settingKey_ite {key : Bytes} {q : Prop} [Decidable q]
    {x y : Except ConfigError (Option Setting)} (hx : q → SettingKey key x)
    (hy : ¬ q → SettingKey key y) : SettingKey key (if q then x else y) := by
  by_cases hq : q
  · rw [if_pos hq]
    exact hx hq
  · rw [if_neg hq]
    exact hy hq

theorem settingOf_key (key value : Bytes) : SettingKey key (settingOf key value) := by
  unfold settingOf
  apply settingKey_ite
  · intro hkey
    cases parseQuoted 256 value with
    | none => exact ⟨.toolSocketPath, List.mem_pair.mpr hkey⟩
    | some _ => exact List.mem_pair.mpr hkey
  intro h1
  apply settingKey_ite
  · intro hkey
    cases parseQuoted 256 value with
    | none => exact ⟨.adminSocketPath, List.mem_singleton.mpr hkey⟩
    | some _ => exact List.mem_singleton.mpr hkey
  intro h2
  apply settingKey_ite
  · intro hkey
    cases parseQuoted 256 value with
    | none => exact ⟨.auditLogPath, List.mem_singleton.mpr hkey⟩
    | some _ => exact List.mem_singleton.mpr hkey
  intro h3
  apply settingKey_ite
  · intro hkey
    exact List.mem_singleton.mpr hkey
  intro h4
  apply settingKey_ite
  · intro hkey
    exact List.mem_singleton.mpr hkey
  intro h5
  apply settingKey_ite
  · intro hkey
    exact List.mem_singleton.mpr hkey
  intro h6
  apply settingKey_ite
  · intro hkey
    exact List.mem_singleton.mpr hkey
  intro h7
  apply settingKey_ite
  · intro hkey
    exact List.mem_singleton.mpr hkey
  intro h8
  apply settingKey_ite
  · intro hkey
    cases parseLongArray value 16 with
    | none => exact ⟨.allowed .uid, List.mem_singleton.mpr hkey⟩
    | some _ => exact List.mem_singleton.mpr hkey
  intro h9
  apply settingKey_ite
  · intro hkey
    cases parseLongArray value 16 with
    | none => exact ⟨.allowed .gid, List.mem_singleton.mpr hkey⟩
    | some _ => exact List.mem_singleton.mpr hkey
  intro h10
  apply settingKey_ite
  · intro hkey
    exact List.mem_singleton.mpr hkey
  intro h11
  apply settingKey_ite
  · intro hkey
    cases parseQuoted 256 value with
    | none => exact ⟨.rulePath, List.mem_singleton.mpr hkey⟩
    | some _ => exact List.mem_singleton.mpr hkey
  intro h12
  apply settingKey_ite
  · intro hkey
    cases parseQuoted 32 value with
    | none => exact ⟨.ruleMode, List.mem_singleton.mpr hkey⟩
    | some _ => exact List.mem_singleton.mpr hkey
  intro h13
  rintro ⟨f, hf⟩
  cases f with
  | toolSocketPath => exact h1 (List.mem_pair.mp hf)
  | adminSocketPath => exact h2 (List.mem_singleton.mp hf)
  | auditLogPath => exact h3 (List.mem_singleton.mp hf)
  | capabilitySysRead => exact h4 (List.mem_singleton.mp hf)
  | maxRequestBytes => exact h5 (List.mem_singleton.mp hf)
  | maxOutputBytes => exact h6 (List.mem_singleton.mp hf)
  | approvalTtlSeconds => exact h7 (List.mem_singleton.mp hf)
  | readTimeoutMs => exact h8 (List.mem_singleton.mp hf)
  | allowed kind =>
      cases kind
      · exact h9 (List.mem_singleton.mp hf)
      · exact h10 (List.mem_singleton.mp hf)
  | requireAdminAllowlist => exact h11 (List.mem_singleton.mp hf)
  | rulePath => exact h12 (List.mem_singleton.mp hf)
  | ruleMode => exact h13 (List.mem_singleton.mp hf)

theorem settingOf_unknown {key : Bytes} (h : ¬ KnownKey key) (value : Bytes) :
    settingOf key value = .ok none := by
  have hkey := settingOf_key key value
  cases hsetting : settingOf key value with
  | error e =>
      rw [hsetting] at hkey
      exact absurd hkey h
  | ok setting =>
      rw [hsetting] at hkey
      cases setting with
      | none => rfl
      | some s => exact absurd ⟨s.field, hkey⟩ h

/-! ## Idle lines -/

/-- An entry that leaves the state of a load alone. -/
inductive IdleEntry (st : LoadState) (key value : Bytes) : Prop
  | unknown (hkey : ¬ KnownKey key)
  | noRule (hkey : key ∈ Field.rulePath.keys ++ Field.ruleMode.keys) (hrule : ¬ st.InRule)
  | same (s : Setting) (hset : settingOf key value = .ok (some s))
      (hsame : st.config.get s.field = s)

/-- A line that opens no path rule and changes no field. -/
structure Idle (st : LoadState) (line : Bytes) : Prop where
  noHeader : lineText line ≠ ascii "[[paths]]"
  entry : ∀ key value, entryOf line = some (key, value) → IdleEntry st key value

theorem loadEntry_eq_self_iff {st : LoadState} {key value : Bytes} :
    loadEntry st key value = .ok st ↔ IdleEntry st key value := by
  by_cases hrule : key ∈ Field.rulePath.keys ++ Field.ruleMode.keys → st.InRule
  · rw [loadEntry_of_setting hrule]
    constructor
    · intro h
      have hkey := settingOf_key key value
      cases hsetting : settingOf key value with
      | error e =>
          rw [hsetting] at h
          cases h
      | ok setting =>
          rw [hsetting] at h hkey
          cases setting with
          | none => exact .unknown hkey
          | some s =>
              have hpaths : s.field = .rulePath ∨ s.field = .ruleMode → st.config.paths ≠ [] := by
                intro hfield
                apply LoadState.InRule.paths
                apply hrule
                rcases hfield with hfield | hfield
                · exact List.mem_append_left _ (hfield ▸ hkey)
                · exact List.mem_append_right _ (hfield ▸ hkey)
              have hconfig : s.apply st.config = st.config :=
                congrArg LoadState.config (Except.ok.inj h)
              refine .same s hsetting ?_
              rw [← hconfig]
              exact get_apply_self hpaths
    · intro h
      cases h with
      | unknown hkey =>
          rw [settingOf_unknown hkey]
          rfl
      | noRule hkey hclosed => exact absurd (hrule hkey) hclosed
      | same s hset hsame =>
          rw [hset]
          change Except.ok { st with config := s.apply st.config } = .ok st
          rw [apply_of_get hsame]
  · obtain ⟨hkey, hclosed⟩ := Classical.not_imp.mp hrule
    exact iff_of_true (loadEntry_noRule hclosed hkey value) (.noRule hkey hclosed)

/-- The lines that leave the state of a load alone. -/
theorem loadLine_eq_self_iff {st : LoadState} {line : Bytes} :
    loadLine st line = .ok st ↔ Idle st line := by
  rw [loadLine_eq]
  by_cases hheader : lineText line = ascii "[[paths]]"
  · rw [if_pos hheader]
    refine iff_of_false ?_ fun h => h.noHeader hheader
    intro h
    split_ifs at h with hfull
    have hlength := congrArg (fun st : LoadState => st.config.paths.length) (Except.ok.inj h)
    simp at hlength
  · rw [if_neg hheader]
    cases hentry : entryOf line with
    | none => exact iff_of_true rfl ⟨hheader, by simp [hentry]⟩
    | some entry =>
        rw [loadEntry_eq_self_iff]
        constructor
        · intro h
          refine ⟨hheader, ?_⟩
          intro key value hsome
          rw [hentry] at hsome
          cases hsome
          exact h
        · intro h
          exact h.entry _ _ hentry

/-- A run goes on line by line. -/
theorem run_cons {line : Bytes} {lines : List Bytes} {st st' : LoadState}
    (h : (line :: lines).foldlM loadLine st = .ok st') :
    ∃ st'', loadLine st line = .ok st'' ∧ lines.foldlM loadLine st'' = .ok st' := by
  rw [List.foldlM_cons] at h
  exact bind_eq_ok.mp h

end AnythingTool
