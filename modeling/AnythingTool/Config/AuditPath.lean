import AnythingTool.Config.Load
import AnythingTool.Library.PathText

/-!
# The audit log and the writable roots

`path_is_under` compares the two paths as they are written. On canonical spellings
this is containment in components, but a root that is written `/`, with a slash at
its end, or with empty or `.` components contains paths that do not begin with its
bytes. A loaded configuration keeps the audit log out of its writable roots exactly
when none of them is the root directory and the spelling does not matter to the
check.
-/

namespace AnythingTool

open CText PathText

/-- `path_is_under` is the prefix relation cut at a slash. -/
theorem pathIsUnder_iff {path root : Bytes} (h0 : (0 : UInt8) ∉ path) :
    pathIsUnder path root = true ↔
      root ≠ [] ∧ ∃ rest, path = root ++ rest ∧ AtBoundary rest := by
  have hboundary : ∀ rest, (0 : UInt8) ∉ rest →
      (deref rest = 0 ∨ deref rest = slash ↔ AtBoundary rest) := by
    intro rest hrest
    cases rest with
    | nil => simp [AtBoundary]
    | cons c t =>
        have hc : c ≠ 0 := fun hc => hrest (hc ▸ List.mem_cons_self)
        simp [AtBoundary, hc]
  unfold pathIsUnder strncmpEq
  by_cases hroot : root = []
  · simp [hroot]
  have hlen : root.length ≠ 0 := fun h => hroot (List.length_eq_zero_iff.mp h)
  simp only [hlen, if_false, List.take_length, Bool.not_eq_true', beq_eq_false_iff_ne]
  by_cases hprefix : path.take root.length = root
  · obtain ⟨rest, rfl⟩ := List.prefix_iff_eq_take.mpr hprefix.symm
    have hrest : (0 : UInt8) ∉ rest := fun h => h0 (List.mem_append_right root h)
    simp [hroot, hboundary rest hrest]
  · simp only [ne_eq, hprefix, not_false_eq_true, if_true, Bool.false_eq_true, false_iff]
    rintro ⟨-, rest, rfl, -⟩
    exact hprefix List.take_left

/-- On canonical spellings the check is containment in components. -/
theorem pathIsUnder_canonical {path root : Bytes} (h0 : (0 : UInt8) ∉ path) :
    pathIsUnder (canonical path) (canonical root) = true ↔
      components root ≠ [] ∧ components root <+: components path := by
  have hslash : ∀ p : Bytes, ∀ c ∈ components p, slash ∉ c :=
    fun p c hc hmem => (mem_components hc slash hmem).2 rfl
  rw [pathIsUnder_iff (zero_notMem_canonical h0), canonical, canonical,
    spell_prefix_iff (hslash root) (hslash path), Ne, spell_eq_nil]

/-- The audit log is in no writable root, by components. -/
def AuditOutside (config : Config) : Prop :=
  ∀ rule ∈ config.paths, rule.writable = true →
    ¬ components rule.path.bytes <+: components config.auditLogPath.bytes

/-- The root is not `/`, and the check answers on these two paths as it does on their
canonical spellings. -/
def SpellingSafe (path root : Bytes) : Prop :=
  components root ≠ [] ∧ pathIsUnder (canonical path) (canonical root) = pathIsUnder path root

/-- An absolute path without `..` components. -/
def AbsolutePath (path : Bytes) : Prop :=
  deref path = slash ∧ ascii ".." ∉ path.splitOn slash

/-- A loaded configuration keeps the audit log out of its writable roots exactly when
the spelling of no root misleads the check. -/
theorem auditOutside_iff_of_load (file : Option Bytes) (config : Config)
    (hload : anythingConfigLoad file = .ok config) :
    AuditOutside config ↔ ∀ rule ∈ config.paths, rule.writable = true →
      SpellingSafe config.auditLogPath.bytes rule.path.bytes := by
  have hvalid := validConfig_of_load hload
  refine forall_congr' fun rule => forall_congr' fun hrule => forall_congr' fun hwritable => ?_
  rw [SpellingSafe, hvalid.auditOutside rule hrule hwritable, ← Bool.not_eq_true,
    pathIsUnder_canonical config.auditLogPath.noNul, not_and]
  constructor
  · intro hout
    refine ⟨?_, fun _ => hout⟩
    intro hnil
    exact hout (by rw [hnil]; exact List.nil_prefix)
  · intro hsafe
    exact hsafe.2 hsafe.1

/-- Canonical spellings are safe, except for the root directory. -/
theorem spellingSafe_of_canonical {path root : Bytes} (hpath : canonical path = path)
    (hroot : canonical root = root) (hne : root ≠ []) : SpellingSafe path root := by
  refine ⟨?_, by rw [hpath, hroot]⟩
  intro hnil
  apply hne
  rw [← hroot, canonical, hnil, spell_nil]

/-- A configuration file with one writable root. -/
def sampleFile (root : String) : Bytes :=
  ascii "allowed_uids = [1000]\naudit_log = \"/var/log/a.jsonl\"\n[[paths]]\npath = \"" ++
    ascii root ++ ascii "\"\nmode = \"read-write\"\n"

/-- The paths of a configuration, as far as the check looks at them. -/
def pathsOf (config : Config) : Bytes × List (Bytes × Bool) :=
  (config.auditLogPath.bytes, config.paths.map fun rule => (rule.path.bytes, rule.writable))

theorem exists_load (root : String)
    (h : (anythingConfigLoad (some (sampleFile root))).toOption.map pathsOf =
      some (ascii "/var/log/a.jsonl", [(ascii root, true)])) :
    ∃ config, anythingConfigLoad (some (sampleFile root)) = .ok config ∧
      config.auditLogPath.bytes = ascii "/var/log/a.jsonl" ∧
      ∃ rule, config.paths = [rule] ∧ rule.path.bytes = ascii root ∧ rule.writable = true := by
  cases hload : anythingConfigLoad (some (sampleFile root)) with
  | error e =>
      rw [hload] at h
      cases h
  | ok config =>
      rw [hload] at h
      obtain ⟨haudit, hrules⟩ := Prod.mk.inj (Option.some.inj h)
      obtain ⟨rule, hpaths, hrule⟩ := List.map_eq_singleton_iff.mp hrules
      obtain ⟨hpath, hwritable⟩ := Prod.mk.inj hrule
      exact ⟨config, rfl, haudit, rule, hpaths, hpath, hwritable⟩

theorem auditOutside_sample :
    ∃ config, anythingConfigLoad (some (sampleFile "/srv")) = .ok config ∧
      AuditOutside config := by
  obtain ⟨config, hload, haudit, rule, hpaths, hpath, -⟩ :=
    exists_load "/srv" (by decide +kernel)
  refine ⟨config, hload, (auditOutside_iff_of_load _ config hload).mpr ?_⟩
  intro rule' hrule' _
  rw [hpaths, List.mem_singleton] at hrule'
  rw [haudit, hrule', hpath]
  exact spellingSafe_of_canonical (by decide) (by decide) (by decide)

/-- With `/` as a writable root the loader accepts a log file inside it. -/
theorem not_auditOutside :
    ¬ ∀ file config, anythingConfigLoad file = .ok config →
      AbsolutePath config.auditLogPath.bytes →
      (∀ rule ∈ config.paths, rule.writable = true → AbsolutePath rule.path.bytes) →
      AuditOutside config := by
  intro h
  obtain ⟨config, hload, haudit, rule, hpaths, hpath, hwritable⟩ :=
    exists_load "/" (by decide +kernel)
  refine h (some (sampleFile "/")) config hload ?_ ?_ rule (by rw [hpaths]; simp) hwritable ?_
  · rw [haudit, AbsolutePath]
    decide
  · intro rule' hrule' _
    rw [hpaths, List.mem_singleton] at hrule'
    rw [hrule', hpath, AbsolutePath]
    decide
  · rw [hpath, haudit]
    decide

end AnythingTool
