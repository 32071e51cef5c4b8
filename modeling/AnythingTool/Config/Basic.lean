import AnythingTool.Library.CString

/-!
# Identities and configurations

The peer credentials of a connection and the loaded configuration, with the
checks made on them: `anything_config_validate_with_options`, which every loaded
configuration has passed, and `anything_config_identity_is_admin`, which the
admin socket asks of every peer. An array with its count is the list of the
elements in use.
-/

namespace AnythingTool

open CText

/-- `anything_identity`: what `SO_PEERCRED` reports. -/
@[ext] structure Identity where
  uid : UInt32
  gid : UInt32
  pid : Int32
deriving DecidableEq, Repr

/-- `anything_identity_same` -/
def anythingIdentitySame (a b : Identity) : Bool :=
  a.uid == b.uid && a.gid == b.gid && a.pid == b.pid

theorem anythingIdentitySame_iff {a b : Identity} : anythingIdentitySame a b ↔ a = b := by
  cases a
  cases b
  simp [anythingIdentitySame, and_assoc]

/-- `anything_path_rule` -/
structure PathRule where
  path : CString 256
  writable : Bool
deriving DecidableEq

/-- `anything_config` -/
structure Config where
  toolSocketPath : CString 256
  adminSocketPath : CString 256
  auditLogPath : CString 256
  capabilitySysRead : Bool
  maxRequestBytes : ℕ
  maxOutputBytes : ℕ
  approvalTtlSeconds : ℤ
  readTimeoutMs : ℤ
  adminAllowedUids : List ℤ
  adminAllowedGids : List ℤ
  requireAdminAllowlist : Bool
  paths : List PathRule
deriving DecidableEq

/-- `anything_config_init` -/
def anythingConfigInit : Config where
  toolSocketPath := .snprintf 256 (ascii "/tmp/anythingd-tool.sock")
  adminSocketPath := .snprintf 256 (ascii "/tmp/anythingd-admin.sock")
  auditLogPath := .snprintf 256 (ascii "/tmp/anything-audit.jsonl")
  capabilitySysRead := false
  maxRequestBytes := 1048576
  maxOutputBytes := 1048576
  approvalTtlSeconds := 300
  readTimeoutMs := 2000
  adminAllowedUids := []
  adminAllowedGids := []
  requireAdminAllowlist := true
  paths := []

/-- The errors of the loader and of the validation. -/
inductive ConfigError
  | openFailed
  | tooManyPathRules
  | invalidToolSocketPath
  | invalidAdminSocketPath
  | invalidAuditLogPath
  | invalidAllowedUids
  | invalidAllowedGids
  | invalidPathRule
  | invalidPathMode
  | toolSocketRequired
  | adminSocketRequired
  | socketsMustDiffer
  | auditLogRequired
  | maxRequestBytesRange
  | readTimeoutRange
  | insecureAdminMode
  | emptyAllowlist
  | auditLogInWritable
deriving DecidableEq, Repr

/-- The text `set_error` writes. -/
def ConfigError.message : ConfigError → Bytes
  | .openFailed => ascii "failed to open config file"
  | .tooManyPathRules => ascii "too many path rules"
  | .invalidToolSocketPath => ascii "invalid tool socket path"
  | .invalidAdminSocketPath => ascii "invalid admin socket path"
  | .invalidAuditLogPath => ascii "invalid audit log path"
  | .invalidAllowedUids => ascii "invalid admin allowed_uids"
  | .invalidAllowedGids => ascii "invalid admin allowed_gids"
  | .invalidPathRule => ascii "invalid path rule"
  | .invalidPathMode => ascii "invalid path mode"
  | .toolSocketRequired => ascii "daemon.tool_socket_path is required"
  | .adminSocketRequired => ascii "daemon.admin_socket_path is required"
  | .socketsMustDiffer => ascii "tool and admin socket paths must differ"
  | .auditLogRequired => ascii "daemon.audit_log is required"
  | .maxRequestBytesRange => ascii "limits.max_request_bytes must be 1..1048576"
  | .readTimeoutRange => ascii "limits.read_timeout_ms must be 1..60000"
  | .insecureAdminMode => ascii "insecure admin mode requires --dev-insecure-admin"
  | .emptyAllowlist => ascii "admin allowlist is required but empty"
  | .auditLogInWritable => ascii "audit log path is inside an agent writable allowlist"

/-- `path_is_under` -/
def pathIsUnder (path root : Bytes) : Bool :=
  let rootLen := root.length
  if rootLen = 0 then false
  else if !strncmpEq path root rootLen then false
  else deref (path.drop rootLen) = 0 || deref (path.drop rootLen) = slash

/-- `anything_config_validate_with_options` -/
def anythingConfigValidateWithOptions (config : Config) (allowDevInsecureAdmin : Bool) :
    Except ConfigError Unit :=
  if config.toolSocketPath.bytes = [] then .error .toolSocketRequired
  else if config.adminSocketPath.bytes = [] then .error .adminSocketRequired
  else if config.toolSocketPath.bytes = config.adminSocketPath.bytes then
    .error .socketsMustDiffer
  else if config.auditLogPath.bytes = [] then .error .auditLogRequired
  else if config.maxRequestBytes = 0 ∨ config.maxRequestBytes > 1048576 then
    .error .maxRequestBytesRange
  else if config.readTimeoutMs ≤ 0 ∨ config.readTimeoutMs > 60000 then
    .error .readTimeoutRange
  else if !config.requireAdminAllowlist && !allowDevInsecureAdmin then
    .error .insecureAdminMode
  else if config.requireAdminAllowlist ∧ config.adminAllowedUids.length = 0 ∧
      config.adminAllowedGids.length = 0 then
    .error .emptyAllowlist
  else if config.paths.any fun rule =>
      rule.writable && pathIsUnder config.auditLogPath.bytes rule.path.bytes then
    .error .auditLogInWritable
  else .ok ()

/-- What a configuration has passed when it is accepted. -/
structure ValidConfig (config : Config) (allowDevInsecureAdmin : Bool) : Prop where
  toolSocketPath : config.toolSocketPath.bytes ≠ []
  adminSocketPath : config.adminSocketPath.bytes ≠ []
  socketsDiffer : config.toolSocketPath.bytes ≠ config.adminSocketPath.bytes
  auditLogPath : config.auditLogPath.bytes ≠ []
  maxRequestBytes : 0 < config.maxRequestBytes ∧ config.maxRequestBytes ≤ 1048576
  readTimeoutMs : 0 < config.readTimeoutMs ∧ config.readTimeoutMs ≤ 60000
  secure : config.requireAdminAllowlist = true ∨ allowDevInsecureAdmin = true
  allowlist : config.requireAdminAllowlist = true →
    config.adminAllowedUids ≠ [] ∨ config.adminAllowedGids ≠ []
  auditOutside : ∀ rule ∈ config.paths, rule.writable = true →
    pathIsUnder config.auditLogPath.bytes rule.path.bytes = false

theorem not_of_ite_error {ε α : Type} {p : Prop} [Decidable p] {e : ε} {x : Except ε α} {a : α}
    (h : (if p then .error e else x) = .ok a) : ¬ p ∧ x = .ok a := by
  by_cases hp : p
  · rw [if_pos hp] at h
    cases h
  · rw [if_neg hp] at h
    exact ⟨hp, h⟩

theorem ValidConfig.of_validate {config : Config} {allow : Bool}
    (h : anythingConfigValidateWithOptions config allow = .ok ()) : ValidConfig config allow := by
  unfold anythingConfigValidateWithOptions at h
  obtain ⟨htool, h⟩ := not_of_ite_error h
  obtain ⟨hadmin, h⟩ := not_of_ite_error h
  obtain ⟨hdiffer, h⟩ := not_of_ite_error h
  obtain ⟨haudit, h⟩ := not_of_ite_error h
  obtain ⟨hmax, h⟩ := not_of_ite_error h
  obtain ⟨htimeout, h⟩ := not_of_ite_error h
  obtain ⟨hinsecure, h⟩ := not_of_ite_error h
  obtain ⟨hempty, h⟩ := not_of_ite_error h
  obtain ⟨hinside, -⟩ := not_of_ite_error h
  refine ⟨htool, hadmin, hdiffer, haudit, by omega, by omega, ?_, ?_, ?_⟩
  · simpa [or_iff_not_imp_left] using hinsecure
  · intro hrequired
    simp only [hrequired, true_and, List.length_eq_zero_iff] at hempty
    exact not_and_or.mp hempty
  · intro rule hrule hwritable
    rw [Bool.not_eq_true, List.any_eq_false] at hinside
    simpa [hwritable] using hinside rule hrule

/-- `anything_config_identity_is_admin` -/
def anythingConfigIdentityIsAdmin (config : Config) (identity : Identity) : Bool :=
  if !config.requireAdminAllowlist then true
  else
    config.adminAllowedUids.any (fun uid => uid == (identity.uid.toNat : ℤ)) ||
      config.adminAllowedGids.any (fun gid => gid == (identity.gid.toNat : ℤ))

end AnythingTool
