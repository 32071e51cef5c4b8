import AnythingTool.Config.Basic
import AnythingTool.Rpc.Scan
import Mathlib.Data.Int.Init
import Mathlib.Data.List.Infix

/-!
# Loading a configuration file

`anything_config_load_with_options` on the content of the file. The file is read
through `fgets` into a `char[512]`, so a longer physical line arrives in pieces
and each piece is a line of its own for the loader. `loadLine` is the loop body
on one such piece.
-/

namespace AnythingTool

open CText

/-- `trim` -/
def trim (text : Bytes) : Bytes :=
  ((text.dropWhile fun c => isspace c).reverse.dropWhile fun c => isspace c).reverse

/-- `strchr`: the text from the first occurrence of `c` on. -/
def strchr (c : UInt8) (text : Bytes) : Option Bytes :=
  match text.dropWhile (· ≠ c) with
  | [] => none
  | d :: rest => some (d :: rest)

/-- `parse_quoted` into a `char[n]`. -/
def parseQuoted (n : ℕ) [HasRoom n] (value : Bytes) : Option (CString n) :=
  match strchr quote value with
  | none => none
  | some start =>
      match strchr quote start.tail with
      | none => none
      | some stop =>
          let len := start.tail.length - stop.length
          if len ≥ n then none else some (.snprintf n (start.tail.take len))

/-- The decimal digits at the front, and what follows them. -/
def spanDigits (p : Bytes) : Bytes × Bytes :=
  (p.takeWhile fun c => 0x30 ≤ c ∧ c ≤ 0x39, p.dropWhile fun c => 0x30 ≤ c ∧ c ≤ 0x39)

def digitsValue (digits : Bytes) : ℕ := digits.foldl (fun v c => v * 10 + (c.toNat - 48)) 0

/-- Blanks, a sign and digits in base ten: whether the sign was a minus, the digits
and the rest; `none` when there are no digits. -/
def scanInteger (p : Bytes) : Option (Bool × Bytes × Bytes) :=
  let p := p.dropWhile fun c => isspace c
  let negative : Bool := deref p = 0x2D
  let p := if deref p = 0x2D ∨ deref p = 0x2B then p.tail else p
  match spanDigits p with
  | ([], _) => none
  | (digits, rest) => some (negative, digits, rest)

/-- `strtol` in base ten: out of range values are clamped to `long`. -/
def strtol (p : Bytes) : Option (ℤ × Bytes) :=
  match scanInteger p with
  | none => none
  | some (negative, digits, rest) =>
      let v : ℤ := if negative then -(digitsValue digits : ℤ) else digitsValue digits
      some (max (-2 ^ 63) (min (2 ^ 63 - 1) v), rest)

/-- `strtoull` in base ten: too large values are clamped, a minus sign negates
modulo `2 ^ 64`, and without digits the value is zero. -/
def strtoull (p : Bytes) : ℕ :=
  match scanInteger p with
  | none => 0
  | some (negative, digits, _) =>
      let v := digitsValue digits
      if v ≥ 2 ^ 64 then 2 ^ 64 - 1
      else if negative then (2 ^ 64 - v) % 2 ^ 64
      else v

/-- `atoi`: the `int` part of `strtol`, zero without digits. -/
def atoi (p : Bytes) : ℤ :=
  match strtol p with
  | none => 0
  | some (v, _) => v.bmod (2 ^ 32)

theorem trim_length (text : Bytes) : (trim text).length ≤ text.length := by
  have h₁ := ((text.dropWhile fun c => isspace c).reverse.dropWhile_suffix
    fun c => isspace c).length_le
  have h₂ := (text.dropWhile_suffix fun c => isspace c).length_le
  rw [List.length_reverse] at h₁
  rw [trim, List.length_reverse]
  omega

theorem scanInteger_length {p digits rest : Bytes} {negative : Bool}
    (h : scanInteger p = some (negative, digits, rest)) : rest.length < p.length := by
  have hspan : ∀ q, (spanDigits q).1 ++ (spanDigits q).2 = q := fun q =>
    List.takeWhile_append_dropWhile
  have hdrop := (p.dropWhile_suffix fun c => isspace c).length_le
  unfold scanInteger at h
  simp only at h
  generalize hq : (if deref (p.dropWhile fun c => isspace c) = 0x2D ∨
      deref (p.dropWhile fun c => isspace c) = 0x2B then
    (p.dropWhile fun c => isspace c).tail else p.dropWhile fun c => isspace c) = q at h
  have hlen : q.length ≤ p.length := by
    rw [← hq]
    split_ifs
    · rw [List.length_tail]
      omega
    · exact hdrop
  split at h
  · cases h
  · rename_i digits' rest' hne heq
    obtain ⟨-, rfl, rfl⟩ : _ ∧ digits' = digits ∧ rest' = rest := by
      simpa using Option.some.inj h
    have happ := congrArg List.length (hspan q)
    have hpos : digits'.length ≠ 0 := by
      intro h0
      exact hne (List.length_eq_zero_iff.mp h0)
    rw [heq, List.length_append] at happ
    simp only at happ
    omega

theorem strtol_length {p rest : Bytes} {v : ℤ} (h : strtol p = some (v, rest)) :
    rest.length < p.length := by
  unfold strtol at h
  split at h
  · cases h
  · rename_i negative digits rest' hscan
    obtain ⟨-, rfl⟩ := Prod.mk.inj (Option.some.inj h)
    exact scanInteger_length hscan

/-- The loop of `parse_long_array`, with the ids read so far. -/
def parseLongArrayLoop (maxCount : ℕ) (out : List ℤ) (p : Bytes) : Option (List ℤ) :=
  if p = [] then none
  else if deref (trim p) = rbracket then some out
  else if out.length ≥ maxCount then none
  else
    match _h : strtol (trim p) with
    | none => none
    | some (parsed, stop) =>
        match _hs : stop.dropWhile fun c => isspace c with
        | [] => none
        | c :: q =>
            if c = comma then parseLongArrayLoop maxCount (out ++ [parsed]) q
            else if c = rbracket then some (out ++ [parsed])
            else none
termination_by p.length
decreasing_by
  have h₁ := strtol_length _h
  have h₂ := trim_length p
  have h₃ := (stop.dropWhile_suffix fun c => isspace c).length_le
  rw [_hs, List.length_cons] at h₃
  omega

/-- `parse_long_array` -/
def parseLongArray (value : Bytes) (maxCount : ℕ) : Option (List ℤ) :=
  match strchr lbracket value with
  | none => none
  | some start => parseLongArrayLoop maxCount [] start.tail

/-- What the loader carries from line to line: the configuration so far, and
whether a `[[paths]]` header has been read. -/
structure LoadState where
  config : Config
  inPathRule : Bool
deriving DecidableEq

/-- An update of the path rule the last `[[paths]]` header opened. -/
def Config.updateLastRule (config : Config) (f : PathRule → PathRule) : Config :=
  { config with paths := config.paths.modify (config.paths.length - 1) f }

/-- The loop body on a `key = value` line. -/
def loadEntry (st : LoadState) (key value : Bytes) : Except ConfigError LoadState :=
  let config := st.config
  if key = ascii "tool_socket_path" ∨ key = ascii "socket_path" then
    match parseQuoted 256 value with
    | none => .error .invalidToolSocketPath
    | some path => .ok { st with config := { config with toolSocketPath := path } }
  else if key = ascii "admin_socket_path" then
    match parseQuoted 256 value with
    | none => .error .invalidAdminSocketPath
    | some path => .ok { st with config := { config with adminSocketPath := path } }
  else if key = ascii "audit_log" then
    match parseQuoted 256 value with
    | none => .error .invalidAuditLogPath
    | some path => .ok { st with config := { config with auditLogPath := path } }
  else if key = ascii "sys_read" then
    let enabled := strncmpEq value (ascii "true") 4
    .ok { st with config := { config with capabilitySysRead := enabled } }
  else if key = ascii "max_request_bytes" then
    .ok { st with config := { config with maxRequestBytes := strtoull value } }
  else if key = ascii "max_output_bytes" then
    .ok { st with config := { config with maxOutputBytes := strtoull value } }
  else if key = ascii "approval_ttl_seconds" then
    .ok { st with config := { config with approvalTtlSeconds := atoi value } }
  else if key = ascii "read_timeout_ms" then
    .ok { st with config := { config with readTimeoutMs := atoi value } }
  else if key = ascii "allowed_uids" then
    match parseLongArray value 16 with
    | none => .error .invalidAllowedUids
    | some ids => .ok { st with config := { config with adminAllowedUids := ids } }
  else if key = ascii "allowed_gids" then
    match parseLongArray value 16 with
    | none => .error .invalidAllowedGids
    | some ids => .ok { st with config := { config with adminAllowedGids := ids } }
  else if key = ascii "require_admin_allowlist" then
    let required := strncmpEq value (ascii "true") 4
    .ok { st with config := { config with requireAdminAllowlist := required } }
  else if st.inPathRule ∧ config.paths.length > 0 ∧ key = ascii "path" then
    match parseQuoted 256 value with
    | none => .error .invalidPathRule
    | some path =>
        .ok { st with config := config.updateLastRule fun rule => { rule with path := path } }
  else if st.inPathRule ∧ config.paths.length > 0 ∧ key = ascii "mode" then
    match parseQuoted 32 value with
    | none => .error .invalidPathMode
    | some mode =>
        let writable : Bool := ascii "write" <:+: mode.bytes
        .ok { st with
          config := config.updateLastRule fun rule => { rule with writable := writable } }
  else .ok st

/-- The loop body on one piece `fgets` delivers. -/
def loadLine (st : LoadState) (line : Bytes) : Except ConfigError LoadState :=
  let entry := trim ((cstr line).takeWhile (· ≠ 0x23))
  if entry = [] then .ok st
  else if entry = ascii "[[paths]]" then
    if st.config.paths.length ≥ 16 then .error .tooManyPathRules
    else
      let paths := st.config.paths ++ [⟨.empty, false⟩]
      .ok ⟨{ st.config with paths := paths }, true⟩
  else
    match strchr 0x3D entry with
    | none => .ok st
    | some equals =>
        loadEntry st (trim (entry.take (entry.length - equals.length))) (trim equals.tail)

/-- The `fgets` loop. -/
def loadLoop (st : LoadState) (file : Bytes) : Except ConfigError LoadState :=
  match _h : fgets 512 file with
  | none => .ok st
  | some (line, rest) =>
      match loadLine st line with
      | .error e => .error e
      | .ok st' => loadLoop st' rest
termination_by file.length
decreasing_by exact fgets_length (by decide) _h

/-- `anything_config_load_with_options`; `file` is the content of the file, or
`none` when it cannot be opened. -/
def anythingConfigLoadWithOptions (file : Option Bytes) (allowDevInsecureAdmin : Bool) :
    Except ConfigError Config :=
  match file with
  | none => .error .openFailed
  | some file =>
      match loadLoop ⟨anythingConfigInit, false⟩ file with
      | .error e => .error e
      | .ok st =>
          match anythingConfigValidateWithOptions st.config allowDevInsecureAdmin with
          | .error e => .error e
          | .ok () => .ok st.config

/-- `anything_config_load` -/
def anythingConfigLoad (file : Option Bytes) : Except ConfigError Config :=
  anythingConfigLoadWithOptions file false

/-- A loaded configuration has passed the validation. -/
theorem validConfig_of_load {file : Option Bytes} {allow : Bool} {config : Config}
    (h : anythingConfigLoadWithOptions file allow = .ok config) : ValidConfig config allow := by
  unfold anythingConfigLoadWithOptions at h
  split at h
  · cases h
  · split at h
    · cases h
    · rename_i st hst
      split at h
      · cases h
      · rename_i hvalid
        obtain rfl := Except.ok.inj h
        exact .of_validate hvalid

end AnythingTool
