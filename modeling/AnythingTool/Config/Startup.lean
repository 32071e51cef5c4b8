import AnythingTool.Config.AuditPath
import AnythingTool.Library.Files

/-!
# The audit log at the start

`anything_audit_validate_startup` compares the places the log and the roots resolve to, but
the texts of the two paths when one of them does not resolve. Before the first start the log
does not exist and nothing but its text is compared; that start makes the file, and the next
one compares the places. The two verdicts agree exactly when the texts say of the existing
writable roots what their places say, or a root that does not exist has the text
(`startupStable_iff`); and the places have to fit into the buffers they are resolved into.
For a configuration that was loaded this means that the log is made in no writable root
(`startupStable_iff_of_load`).
-/

namespace AnythingTool

open CText PathText Files

/-! ## The check -/

/-- The errors of `anything_audit_validate_startup` and `open_audit_fd`. -/
inductive AuditError
  | pathRequired
  | insideWritable
  | noParent
  | parentUnavailable
  | symlink
  | notWritable
  | notRegular
deriving DecidableEq, Repr

/-- The text written into the error buffer. -/
def AuditError.message : AuditError → Bytes
  | .pathRequired => ascii "audit log path is required"
  | .insideWritable => ascii "audit log path is inside an agent writable allowlist"
  | .noParent => ascii "audit log path must include an existing parent directory"
  | .parentUnavailable => ascii "audit log parent directory is not available"
  | .symlink => ascii "audit log must not be a symlink"
  | .notWritable => ascii "audit log is not writable"
  | .notRegular => ascii "audit log must be a regular file"

/-- `audit_path_under`, which is `path_is_under` once more. -/
def auditPathUnder (path root : Bytes) : Bool := pathIsUnder path root

/-- `canonical_path_under`; `none` when `realpath` writes more than a `char[256]` holds. The
root is resolved only when the path was. -/
def canonicalPathUnder (fs : FileSystem) (path root : Bytes) : Option Bool :=
  if !fs.fits 256 path then none
  else
    match fs.realpath path with
    | none => some (auditPathUnder path root)
    | some realPath =>
        if !fs.fits 256 root then none
        else
          match fs.realpath root with
          | none => some (auditPathUnder path root)
          | some realRoot => some (auditPathUnder realPath.bytes realRoot.bytes)

/-- `open_audit_fd`, with the file system after it. -/
def openAuditFd (fs : FileSystem) (path : Bytes) : Except AuditError FileSystem :=
  match fs.openAppend path with
  | .loop => .error .symlink
  | .failed => .error .notWritable
  | .opened kind fs' => if kind = .regular then .ok fs' else .error .notRegular

/-- The loop over the path rules: a writable one contains the log. -/
def auditInWritableLoop (fs : FileSystem) (path : Bytes) : List PathRule → Option Bool
  | [] => some false
  | rule :: rules =>
      if rule.writable then
        match canonicalPathUnder fs path rule.path.bytes with
        | none => none
        | some true => some true
        | some false => auditInWritableLoop fs path rules
      else auditInWritableLoop fs path rules

/-- The verdict of the loop, if it comes to one. -/
def auditInWritable (fs : FileSystem) (config : Config) : Option Bool :=
  auditInWritableLoop fs config.auditLogPath.bytes config.paths

/-- The text in front of the last slash. -/
def beforeLastSlash (path : Bytes) : Option Bytes :=
  match path.reverse.dropWhile (· ≠ slash) with
  | [] => none
  | _ :: front => some front.reverse

/-- Why the check does not accept: it refuses, or has written behind a buffer. -/
inductive StartupFault
  | refused (error : AuditError)
  | overrun
deriving DecidableEq, Repr

/-- `anything_audit_validate_startup`, with the file system after it. -/
def anythingAuditValidateStartup (fs : FileSystem) (config : Config) :
    Except StartupFault FileSystem :=
  if config.auditLogPath.bytes = [] then .error (.refused .pathRequired)
  else
    match auditInWritable fs config with
    | none => .error .overrun
    | some true => .error (.refused .insideWritable)
    | some false =>
        match beforeLastSlash config.auditLogPath.bytes with
        | none => .error (.refused .noParent)
        | some [] => .error (.refused .noParent)
        | some parent =>
            if fs.isDirectory parent then
              (openAuditFd fs config.auditLogPath.bytes).mapError .refused
            else .error (.refused .parentUnavailable)

/-! ## Texts and places -/

/-- The path begins with the root, up to its end or a slash. -/
def Under (path root : Bytes) : Prop :=
  root ≠ [] ∧ ∃ rest, path = root ++ rest ∧ AtBoundary rest

theorem auditPathUnder_iff {path root : Bytes} (h0 : (0 : UInt8) ∉ path) :
    auditPathUnder path root = true ↔ Under path root :=
  pathIsUnder_iff h0

/-- A writable root has the property. -/
def AnyWritable (config : Config) (P : Bytes → Prop) : Prop :=
  ∃ rule ∈ config.paths, rule.writable = true ∧ P rule.path.bytes

/-- A loop that comes to a verdict says whether a root contains the log. -/
theorem auditInWritableLoop_eq_some {fs : FileSystem} {path : Bytes} {rules : List PathRule}
    {b : Bool} (h : auditInWritableLoop fs path rules = some b) :
    b = true ↔ ∃ rule ∈ rules, rule.writable = true ∧
      canonicalPathUnder fs path rule.path.bytes = some true := by
  induction rules with
  | nil =>
      obtain rfl := Option.some.inj h
      simp
  | cons rule rules ih =>
      rw [auditInWritableLoop] at h
      split_ifs at h with hwritable
      · split at h
        · cases h
        · rename_i hin
          obtain rfl := Option.some.inj h
          exact iff_of_true rfl ⟨rule, List.mem_cons_self, hwritable, hin⟩
        · rename_i hout
          rw [ih h]
          simp [hout]
      · rw [ih h]
        simp [hwritable]

/-- Each writable root is compared, or stands behind one that contains the log. -/
def Compared (fs : FileSystem) (path : Bytes) (rules : List PathRule) : Prop :=
  ∀ before rule behind, rules = before ++ rule :: behind → rule.writable = true →
    canonicalPathUnder fs path rule.path.bytes ≠ none ∨
      ∃ earlier ∈ before, earlier.writable = true ∧
        canonicalPathUnder fs path earlier.path.bytes = some true

theorem compared_cons {fs : FileSystem} {path : Bytes} {rule : PathRule} {rules : List PathRule} :
    Compared fs path (rule :: rules) ↔
      (rule.writable = true → canonicalPathUnder fs path rule.path.bytes ≠ none) ∧
        (rule.writable = true ∧ canonicalPathUnder fs path rule.path.bytes = some true ∨
          Compared fs path rules) := by
  constructor
  · intro h
    refine ⟨?_, ?_⟩
    · intro hwritable
      simpa using h [] rule rules rfl hwritable
    · rw [or_iff_not_imp_left]
      intro hout before rule' behind hsplit hwritable
      rcases h (rule :: before) rule' behind (by rw [hsplit]; rfl) hwritable with
        hsome | ⟨earlier, hmem, hearlier⟩
      · exact .inl hsome
      · rcases List.mem_cons.mp hmem with rfl | hmem
        · exact absurd hearlier hout
        · exact .inr ⟨earlier, hmem, hearlier⟩
  · rintro ⟨hfirst, hrest⟩ before rule' behind hsplit hwritable
    cases before with
    | nil =>
        obtain ⟨rfl, -⟩ := List.cons.inj hsplit
        exact .inl (hfirst hwritable)
    | cons rule'' before =>
        obtain ⟨rfl, htail⟩ := List.cons.inj hsplit
        rcases hrest with hin | hrest
        · exact .inr ⟨rule, List.mem_cons_self, hin⟩
        · rcases hrest before rule' behind htail hwritable with hsome | ⟨earlier, hmem, hearlier⟩
          · exact .inl hsome
          · exact .inr ⟨earlier, List.mem_cons_of_mem rule hmem, hearlier⟩

/-- The loop comes to a verdict exactly when it is spared what cannot be compared. -/
theorem exists_auditInWritableLoop {fs : FileSystem} {path : Bytes} (rules : List PathRule) :
    (∃ b, auditInWritableLoop fs path rules = some b) ↔ Compared fs path rules := by
  induction rules with
  | nil => simp [auditInWritableLoop, Compared]
  | cons rule rules ih =>
      rw [compared_cons, ← ih, auditInWritableLoop]
      by_cases hwritable : rule.writable = true
      · rw [if_pos hwritable]
        cases canonicalPathUnder fs path rule.path.bytes with
        | none => simp [hwritable]
        | some b => cases b <;> simp [hwritable]
      · rw [if_neg hwritable]
        simp [hwritable]

/-- The root exists, or will do so with a file at `loc`, and is the directory `real`. -/
def Stands (fs : FileSystem) (loc root : Bytes) (real : CString 4096) : Prop :=
  fs.lookup root = some real ∧ (real.bytes = loc ∨ (fs.kind real.bytes).isSome = true)

/-- The place of the root, which exists, contains `loc`. -/
def HasPlace (fs : FileSystem) (loc root : Bytes) : Prop :=
  ∃ real, Stands fs loc root real ∧ Under loc real.bytes

/-- A root that does not exist, with which the text of the path begins. -/
def HasTextOnly (fs : FileSystem) (path loc root : Bytes) : Prop :=
  (∀ real, ¬ Stands fs loc root real) ∧ Under path root

/-- A root that exists, with which the text of the path begins. -/
def HasText (fs : FileSystem) (path loc root : Bytes) : Prop :=
  (∃ real, Stands fs loc root real) ∧ Under path root

/-- The places fit: the one of the log, and the one of each writable root unless a root in
front of it, whose place fits, contains the log. -/
def PlacesFit (fs : FileSystem) (config : Config) (loc : Bytes) : Prop :=
  ∀ before rule behind, config.paths = before ++ rule :: behind → rule.writable = true →
    loc.length < 256 ∧ (fs.fits 256 rule.path.bytes = true ∨
      ∃ earlier ∈ before, earlier.writable = true ∧ fs.fits 256 earlier.path.bytes = true ∧
        (HasPlace fs loc earlier.path.bytes ∨
          HasTextOnly fs config.auditLogPath.bytes loc earlier.path.bytes))

/-- A writable root that does not exist is a beginning of the text of the path; or, among
those that exist, one is a beginning of its text exactly when the place of one is a beginning
of the place of the log. -/
def TextsAgree (fs : FileSystem) (config : Config) (loc : Bytes) : Prop :=
  AnyWritable config (HasTextOnly fs config.auditLogPath.bytes loc) ∨
    (AnyWritable config (HasText fs config.auditLogPath.bytes loc) ↔
      AnyWritable config (HasPlace fs loc))

section FirstStart

variable {fs : FileSystem} {config : Config} {loc : CString 4096}

/-- Without the file the texts are compared. -/
theorem canonicalPathUnder_missing (hlookup : fs.lookup config.auditLogPath.bytes = some loc)
    (hmissing : fs.kind loc.bytes = none) (hfits : loc.bytes.length < 256) (root : Bytes) :
    canonicalPathUnder fs config.auditLogPath.bytes root =
      some (auditPathUnder config.auditLogPath.bytes root) := by
  have hreal := FileSystem.realpath_of_missing hlookup hmissing
  rw [canonicalPathUnder, hreal, (FileSystem.fits_of_lookup hlookup).mpr hfits]
  rfl

/-- With the file the places are compared, if they fit. -/
theorem canonicalPathUnder_create (hlookup : fs.lookup config.auditLogPath.bytes = some loc)
    (root : Bytes) :
    (canonicalPathUnder (fs.create loc.bytes) config.auditLogPath.bytes root ≠ none ↔
        loc.bytes.length < 256 ∧ fs.fits 256 root = true) ∧
      (canonicalPathUnder (fs.create loc.bytes) config.auditLogPath.bytes root = some true ↔
        loc.bytes.length < 256 ∧ fs.fits 256 root = true ∧
          (HasPlace fs loc.bytes root ∨
            HasTextOnly fs config.auditLogPath.bytes loc.bytes root)) := by
  have hreal : (fs.create loc.bytes).realpath config.auditLogPath.bytes = some loc :=
    FileSystem.realpath_create.mpr ⟨hlookup, .inl rfl⟩
  rw [canonicalPathUnder, hreal, FileSystem.create_fits, ← FileSystem.fits_of_lookup hlookup]
  cases hpath : fs.fits 256 config.auditLogPath.bytes with
  | false => simp
  | true =>
      cases hroot : fs.fits 256 root with
      | false => simp
      | true =>
          cases hrealRoot : (fs.create loc.bytes).realpath root with
          | none =>
              have hnone : ∀ real, ¬ Stands fs loc.bytes root real := by
                intro real hstands
                rw [FileSystem.realpath_create.mpr hstands] at hrealRoot
                cases hrealRoot
              simp [HasPlace, HasTextOnly, hnone, auditPathUnder_iff config.auditLogPath.noNul]
          | some real =>
              have hstands : Stands fs loc.bytes root real :=
                FileSystem.realpath_create.mp hrealRoot
              have hplace : HasPlace fs loc.bytes root ↔ Under loc.bytes real.bytes := by
                constructor
                · rintro ⟨real', hstands', hunder⟩
                  obtain rfl := Option.some.inj (hstands.1.symm.trans hstands'.1)
                  exact hunder
                · intro hunder
                  exact ⟨real, hstands, hunder⟩
              have htext : ¬ HasTextOnly fs config.auditLogPath.bytes loc.bytes root :=
                fun h => h.1 real hstands
              simp [hplace, htext, auditPathUnder_iff loc.noNul]

/-- The verdict on a log that does not exist. -/
theorem verdict_missing (hlookup : fs.lookup config.auditLogPath.bytes = some loc)
    (hmissing : fs.kind loc.bytes = none)
    (hfits : ∀ rule ∈ config.paths, rule.writable = true → loc.bytes.length < 256) :
    ∃ b, auditInWritable fs config = some b ∧
      (b = true ↔ AnyWritable config (Under config.auditLogPath.bytes)) := by
  have hcompared : Compared fs config.auditLogPath.bytes config.paths := by
    intro before rule behind hsplit hwritable
    have hfit := hfits rule (by rw [hsplit]; simp) hwritable
    rw [canonicalPathUnder_missing hlookup hmissing hfit]
    exact .inl (by simp)
  obtain ⟨b, hb⟩ := (exists_auditInWritableLoop _).mpr hcompared
  refine ⟨b, hb, ?_⟩
  rw [auditInWritableLoop_eq_some hb, AnyWritable]
  refine exists_congr fun rule => and_congr_right fun hrule => and_congr_right fun hwritable => ?_
  rw [canonicalPathUnder_missing hlookup hmissing (hfits rule hrule hwritable),
    Option.some.injEq, auditPathUnder_iff config.auditLogPath.noNul]

/-- The verdict on the log once it exists. -/
theorem verdict_create (hlookup : fs.lookup config.auditLogPath.bytes = some loc) :
    (∃ b, auditInWritable (fs.create loc.bytes) config = some b) ↔
      PlacesFit fs config loc.bytes := by
  rw [auditInWritable, exists_auditInWritableLoop, Compared, PlacesFit]
  refine forall_congr' fun before => forall_congr' fun rule => forall_congr' fun behind =>
    forall_congr' fun hsplit => forall_congr' fun hwritable => ?_
  simp only [(canonicalPathUnder_create hlookup _).1, (canonicalPathUnder_create hlookup _).2]
  constructor
  · rintro (⟨hloc, hfits⟩ | ⟨earlier, hmem, hwrite, hloc, hin⟩)
    · exact ⟨hloc, .inl hfits⟩
    · exact ⟨hloc, .inr ⟨earlier, hmem, hwrite, hin⟩⟩
  · rintro ⟨hloc, hfits | ⟨earlier, hmem, hwrite, hin⟩⟩
    · exact .inl ⟨hloc, hfits⟩
    · exact .inr ⟨earlier, hmem, hwrite, hloc, hin⟩

/-- It is the one that the places, and the texts of the roots without a place, come to. -/
theorem verdict_create_eq (hlookup : fs.lookup config.auditLogPath.bytes = some loc) {b : Bool}
    (h : auditInWritable (fs.create loc.bytes) config = some b)
    (hfit : PlacesFit fs config loc.bytes) :
    b = true ↔ AnyWritable config (HasPlace fs loc.bytes) ∨
      AnyWritable config (HasTextOnly fs config.auditLogPath.bytes loc.bytes) := by
  rw [auditInWritableLoop_eq_some h]
  simp only [(canonicalPathUnder_create hlookup _).2]
  constructor
  · rintro ⟨rule, hrule, hwritable, -, -, hplace | htext⟩
    · exact .inl ⟨rule, hrule, hwritable, hplace⟩
    · exact .inr ⟨rule, hrule, hwritable, htext⟩
  · intro hany
    obtain ⟨rule, hrule, hwritable, hin⟩ : AnyWritable config fun root =>
        HasPlace fs loc.bytes root ∨ HasTextOnly fs config.auditLogPath.bytes loc.bytes root := by
      rcases hany with ⟨rule, hrule, hwritable, hin⟩ | ⟨rule, hrule, hwritable, hin⟩
      · exact ⟨rule, hrule, hwritable, .inl hin⟩
      · exact ⟨rule, hrule, hwritable, .inr hin⟩
    obtain ⟨before, behind, hsplit⟩ := List.append_of_mem hrule
    obtain ⟨hloc, hfits | ⟨earlier, hmem, hwrite, hearlier⟩⟩ :=
      hfit before rule behind hsplit hwritable
    · exact ⟨rule, hrule, hwritable, hloc, hfits, hin⟩
    · exact ⟨earlier, by rw [hsplit]; simp [hmem], hwrite, hloc, hearlier⟩

/-- The check on the roots comes to the same verdict before the log exists and once it is
there. -/
def StartupStable (fs : FileSystem) (config : Config) (loc : Bytes) : Prop :=
  ∃ inside, auditInWritable fs config = some inside ∧
    auditInWritable (fs.create loc) config = some inside

/-- With a log that does not exist yet, the verdict does not depend on its existence exactly
when the places fit into their buffers and the texts of the paths agree with the places. -/
theorem startupStable_iff (hlookup : fs.lookup config.auditLogPath.bytes = some loc)
    (hmissing : fs.kind loc.bytes = none) :
    StartupStable fs config loc.bytes ↔
      PlacesFit fs config loc.bytes ∧ TextsAgree fs config loc.bytes := by
  have htexts : AnyWritable config (Under config.auditLogPath.bytes) ↔
      AnyWritable config (HasTextOnly fs config.auditLogPath.bytes loc.bytes) ∨
        AnyWritable config (HasText fs config.auditLogPath.bytes loc.bytes) := by
    constructor
    · rintro ⟨rule, hrule, hwritable, hunder⟩
      by_cases hstands : ∃ real, Stands fs loc.bytes rule.path.bytes real
      · exact .inr ⟨rule, hrule, hwritable, hstands, hunder⟩
      · exact .inl ⟨rule, hrule, hwritable, not_exists.mp hstands, hunder⟩
    · rintro (⟨rule, hrule, hwritable, hin⟩ | ⟨rule, hrule, hwritable, hin⟩)
      · exact ⟨rule, hrule, hwritable, hin.2⟩
      · exact ⟨rule, hrule, hwritable, hin.2⟩
  have hverdict : PlacesFit fs config loc.bytes → ∃ first second,
      auditInWritable fs config = some first ∧
      auditInWritable (fs.create loc.bytes) config = some second ∧
      (first = second ↔ TextsAgree fs config loc.bytes) := by
    intro hfit
    have hloc : ∀ rule ∈ config.paths, rule.writable = true → loc.bytes.length < 256 := by
      intro rule hrule hwritable
      obtain ⟨before, behind, hsplit⟩ := List.append_of_mem hrule
      exact (hfit before rule behind hsplit hwritable).1
    obtain ⟨first, hfirst, htext⟩ := verdict_missing hlookup hmissing hloc
    obtain ⟨second, hsecond⟩ := (verdict_create hlookup).mpr hfit
    refine ⟨first, second, hfirst, hsecond, ?_⟩
    rw [Bool.eq_iff_iff, htext, htexts, verdict_create_eq hlookup hsecond hfit, TextsAgree]
    tauto
  constructor
  · rintro ⟨inside, hfirst, hsecond⟩
    have hfit := (verdict_create hlookup).mp ⟨inside, hsecond⟩
    obtain ⟨first, second, hfirst', hsecond', hagree⟩ := hverdict hfit
    refine ⟨hfit, hagree.mp ?_⟩
    exact Option.some.inj (hfirst'.symm.trans (hfirst.trans (hsecond.symm.trans hsecond')))
  · rintro ⟨hfit, htexts'⟩
    obtain ⟨first, second, hfirst, hsecond, hagree⟩ := hverdict hfit
    obtain rfl := hagree.mpr htexts'
    exact ⟨first, hfirst, hsecond⟩

/-- A start that accepts has found the log in no writable root, and has opened it. -/
theorem startup_eq_ok {fs fs' : FileSystem}
    (h : anythingAuditValidateStartup fs config = .ok fs') :
    auditInWritable fs config = some false ∧
      openAuditFd fs config.auditLogPath.bytes = .ok fs' := by
  unfold anythingAuditValidateStartup at h
  split_ifs at h
  split at h
  · cases h
  · cases h
  · rename_i hout
    refine ⟨hout, ?_⟩
    split at h
    · cases h
    · cases h
    · split_ifs at h
      cases hopen : openAuditFd fs config.auditLogPath.bytes with
      | error e =>
          rw [hopen] at h
          cases h
      | ok opened =>
          rw [hopen] at h
          exact congrArg Except.ok (Except.ok.inj h)

/-- Only the loop over the roots refuses a log for being inside one, or writes too far. -/
theorem startup_of_outside {fs : FileSystem} (hout : auditInWritable fs config = some false) :
    anythingAuditValidateStartup fs config ≠ .error (.refused .insideWritable) ∧
      anythingAuditValidateStartup fs config ≠ .error .overrun := by
  have hopen : (openAuditFd fs config.auditLogPath.bytes).mapError StartupFault.refused ≠
        .error (.refused .insideWritable) ∧
      (openAuditFd fs config.auditLogPath.bytes).mapError StartupFault.refused ≠
        .error .overrun := by
    unfold openAuditFd
    split
    · exact ⟨nofun, nofun⟩
    · exact ⟨nofun, nofun⟩
    · split_ifs
      · exact ⟨nofun, nofun⟩
      · exact ⟨nofun, nofun⟩
  rw [anythingAuditValidateStartup, hout]
  split_ifs
  · exact ⟨nofun, nofun⟩
  · simp only
    split
    · exact ⟨nofun, nofun⟩
    · exact ⟨nofun, nofun⟩
    · split_ifs
      · exact hopen
      · exact ⟨nofun, nofun⟩

/-- Where the verdict is stable, the place of a log that the first start has made is not
refused by the second one. -/
theorem StartupStable.second_start (hstable : StartupStable fs config loc.bytes)
    (hlookup : fs.lookup config.auditLogPath.bytes = some loc)
    (hmissing : fs.kind loc.bytes = none) {fs' : FileSystem}
    (h : anythingAuditValidateStartup fs config = .ok fs') :
    anythingAuditValidateStartup fs' config ≠ .error (.refused .insideWritable) ∧
      anythingAuditValidateStartup fs' config ≠ .error .overrun := by
  obtain ⟨inside, hfirst, hsecond⟩ := hstable
  obtain ⟨hout, hopened⟩ := startup_eq_ok h
  obtain rfl := Option.some.inj (hfirst.symm.trans hout)
  unfold openAuditFd at hopened
  split at hopened
  · cases hopened
  · cases hopened
  · rename_i kind fs'' hopen
    obtain ⟨rfl, rfl⟩ := FileSystem.openAppend_missing hlookup hmissing hopen
    obtain rfl := Except.ok.inj hopened
    exact startup_of_outside hsecond

/-- The loader has compared the texts already. -/
theorem not_under_of_load {file : Option Bytes} {allow : Bool}
    (hload : anythingConfigLoadWithOptions file allow = .ok config) :
    ¬ AnyWritable config (Under config.auditLogPath.bytes) := by
  rintro ⟨rule, hrule, hwritable, hunder⟩
  have houtside := (validConfig_of_load hload).auditOutside rule hrule hwritable
  have hinside : pathIsUnder config.auditLogPath.bytes rule.path.bytes = true :=
    (auditPathUnder_iff config.auditLogPath.noNul).mpr hunder
  rw [houtside] at hinside
  cases hinside

/-- For a configuration that was loaded, the verdict is stable exactly when the places fit and
the log is made in no writable root. -/
theorem startupStable_iff_of_load {file : Option Bytes} {allow : Bool}
    (hload : anythingConfigLoadWithOptions file allow = .ok config)
    (hlookup : fs.lookup config.auditLogPath.bytes = some loc)
    (hmissing : fs.kind loc.bytes = none) :
    StartupStable fs config loc.bytes ↔
      PlacesFit fs config loc.bytes ∧ ¬ AnyWritable config (HasPlace fs loc.bytes) := by
  have hnone : ∀ P : Bytes → Prop, (∀ root, P root → Under config.auditLogPath.bytes root) →
      ¬ AnyWritable config P := by
    rintro P hP ⟨rule, hrule, hwritable, hin⟩
    exact not_under_of_load hload ⟨rule, hrule, hwritable, hP _ hin⟩
  rw [startupStable_iff hlookup hmissing, TextsAgree,
    or_iff_right (hnone _ fun root h => h.2), iff_false_left (hnone _ fun root h => h.2)]

/-- Paths that lead to what they spell are compared alike in both ways. -/
theorem textsAgree_of_resolved (hpath : config.auditLogPath.bytes = loc.bytes)
    (hroot : ∀ rule ∈ config.paths, ∀ real, fs.lookup rule.path.bytes = some real →
      real.bytes = rule.path.bytes) :
    TextsAgree fs config loc.bytes := by
  refine .inr ⟨?_, ?_⟩
  · rintro ⟨rule, hrule, hwritable, ⟨real, hstands⟩, hunder⟩
    refine ⟨rule, hrule, hwritable, real, hstands, ?_⟩
    rw [hroot rule hrule real hstands.1, ← hpath]
    exact hunder
  · rintro ⟨rule, hrule, hwritable, real, hstands, hunder⟩
    refine ⟨rule, hrule, hwritable, ⟨real, hstands⟩, ?_⟩
    rw [hpath, ← hroot rule hrule real hstands.1]
    exact hunder

end FirstStart

namespace Sample

/-- A file system in which `/var/log` leads to the directory `log`. -/
def logFiles (log : String) : FileSystem where
  lookup path :=
    if path = ascii "/var/log/a.jsonl" then some (.snprintf 4096 (ascii log ++ ascii "/a.jsonl"))
    else if path = ascii "/var/log" then some (.snprintf 4096 (ascii log))
    else if path = ascii "/srv" then some (.snprintf 4096 (ascii "/srv"))
    else none
  reached path := .snprintf 4096 path
  kind loc := if loc = ascii log ∨ loc = ascii "/srv" then some .directory else none
  endsInLink _ := false
  mayOpen _ := true

end Sample

theorem startupStable_sample :
    ∃ config, anythingConfigLoad (some (sampleFile "/srv")) = .ok config ∧
      StartupStable (Sample.logFiles "/var/log") config (ascii "/var/log/a.jsonl") := by
  obtain ⟨config, hload, haudit, rule, hpaths, hpath, -⟩ :=
    exists_load "/srv" (by decide +kernel)
  let loc : CString 4096 := ⟨ascii "/var/log/a.jsonl", by decide, by decide⟩
  have hlookup : (Sample.logFiles "/var/log").lookup config.auditLogPath.bytes = some loc := by
    rw [haudit]
    decide +kernel
  have hmissing : (Sample.logFiles "/var/log").kind loc.bytes = none := by decide
  refine ⟨config, hload, (startupStable_iff hlookup hmissing).mpr ⟨?_, ?_⟩⟩
  · intro before rule' behind hsplit _
    have hrule' : rule' ∈ config.paths := by rw [hsplit]; simp
    rw [hpaths, List.mem_singleton] at hrule'
    refine ⟨by decide, .inl ?_⟩
    rw [hrule', hpath]
    decide +kernel
  · refine textsAgree_of_resolved haudit ?_
    intro rule' hrule' real hreal
    rw [hpaths, List.mem_singleton] at hrule'
    have hsrv : (Sample.logFiles "/var/log").lookup (ascii "/srv") =
        some ⟨ascii "/srv", by decide, by decide⟩ := by
      decide +kernel
    rw [hrule', hpath, hsrv] at hreal
    rw [hrule', hpath, ← Option.some.inj hreal]

/-- With `/var/log` a link into a writable root, the verdict changes, and the log of the
first start is refused by the second one. -/
theorem not_startupStable :
    ∃ config, anythingConfigLoad (some (sampleFile "/srv")) = .ok config ∧
      ¬ StartupStable (Sample.logFiles "/srv/log") config (ascii "/srv/log/a.jsonl") ∧
      ∃ fs', anythingAuditValidateStartup (Sample.logFiles "/srv/log") config = .ok fs' ∧
        anythingAuditValidateStartup fs' config = .error (.refused .insideWritable) := by
  obtain ⟨config, hload, haudit, rule, hpaths, hpath, hwritable⟩ :=
    exists_load "/srv" (by decide +kernel)
  have hfirst : auditInWritable (Sample.logFiles "/srv/log") config = some false := by
    rw [auditInWritable, hpaths, auditInWritableLoop, if_pos hwritable, haudit, hpath]
    decide +kernel
  have hsecond : auditInWritable ((Sample.logFiles "/srv/log").create (ascii "/srv/log/a.jsonl"))
      config = some true := by
    rw [auditInWritable, hpaths, auditInWritableLoop, if_pos hwritable, haudit, hpath]
    decide +kernel
  have hparent : beforeLastSlash (ascii "/var/log/a.jsonl") = some (ascii "/var/log") := by
    decide
  refine ⟨config, hload, ?_, (Sample.logFiles "/srv/log").create (ascii "/srv/log/a.jsonl"),
    ?_, ?_⟩
  · rintro ⟨inside, hin, hin'⟩
    have heq := (hin.symm.trans hfirst).symm.trans (hin'.symm.trans hsecond)
    cases heq
  · rw [anythingAuditValidateStartup, hfirst, haudit]
    simp only [hparent]
    rfl
  · rw [anythingAuditValidateStartup, hsecond, haudit]
    rfl

end AnythingTool
