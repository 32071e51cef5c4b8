import AnythingTool.Library.CString

/-!
# Paths, locations and files

A file system as far as one process asks about it. A path leads to a location, once its
links are followed; at a location there is a file or nothing. Making a regular file where
there was nothing does not change where paths lead to, so what `realpath` answers afterwards
is known from the file system before (`realpath_create`).
-/

namespace Files

open CText

inductive FileKind
  | regular
  | directory
  | socket
  | fifo
  | device
deriving DecidableEq

structure FileSystem where
  /-- The location a path leads to, whose last component need not exist. -/
  lookup : Bytes → Option (CString 4096)
  /-- How far `realpath` gets on a path that leads nowhere. -/
  reached : Bytes → CString 4096
  /-- What there is at a location. -/
  kind : Bytes → Option FileKind
  /-- The last component of the path is a link. -/
  endsInLink : Bytes → Bool
  /-- The file at the location may be written, or one may be made there. -/
  mayOpen : Bytes → Bool

namespace FileSystem

variable {fs : FileSystem} {path : Bytes} {loc : Bytes}

/-- `realpath`, which fails when nothing exists at the location. -/
def realpath (fs : FileSystem) (path : Bytes) : Option (CString 4096) :=
  (fs.lookup path).filter fun loc => (fs.kind loc.bytes).isSome

/-- What `realpath` writes into its buffer, also when it fails in the end. -/
def written (fs : FileSystem) (path : Bytes) : Bytes :=
  match fs.lookup path with
  | some loc => loc.bytes
  | none => (fs.reached path).bytes

/-- A buffer of `n` bytes holds what `realpath` writes into it. -/
def fits (fs : FileSystem) (n : ℕ) (path : Bytes) : Bool := (fs.written path).length < n

/-- `stat` succeeds and finds a directory. -/
def isDirectory (fs : FileSystem) (path : Bytes) : Bool :=
  (fs.realpath path).any fun loc => fs.kind loc.bytes = some .directory

/-- A regular file made at a location. -/
def create (fs : FileSystem) (loc : Bytes) : FileSystem :=
  { fs with kind := fun l => if l = loc then some .regular else fs.kind l }

inductive OpenResult
  | loop
  | failed
  | opened (kind : FileKind) (fs : FileSystem)

/-- `open` for appending, with `O_CREAT` and `O_NOFOLLOW`. A FIFO is opened once it has a
reader; how long that takes is left out. -/
def openAppend (fs : FileSystem) (path : Bytes) : OpenResult :=
  if fs.endsInLink path then .loop
  else
    match fs.lookup path with
    | none => .failed
    | some loc =>
        if !fs.mayOpen loc.bytes then .failed
        else
          match fs.kind loc.bytes with
          | none => .opened .regular (fs.create loc.bytes)
          | some .directory => .failed
          | some .socket => .failed
          | some kind => .opened kind fs

@[simp] theorem create_lookup (fs : FileSystem) (loc : Bytes) :
    (fs.create loc).lookup = fs.lookup :=
  rfl

@[simp] theorem create_fits (fs : FileSystem) (loc : Bytes) : (fs.create loc).fits = fs.fits :=
  rfl

@[simp] theorem create_kind_self (fs : FileSystem) (loc : Bytes) :
    (fs.create loc).kind loc = some .regular :=
  if_pos rfl

theorem create_kind_other {l : Bytes} (h : l ≠ loc) : (fs.create loc).kind l = fs.kind l :=
  if_neg h

theorem realpath_eq_some {real : CString 4096} :
    fs.realpath path = some real ↔
      fs.lookup path = some real ∧ (fs.kind real.bytes).isSome = true :=
  Option.filter_eq_some_iff

theorem fits_of_lookup {loc : CString 4096} {n : ℕ} (hlookup : fs.lookup path = some loc) :
    fs.fits n path = true ↔ loc.bytes.length < n := by
  simp [fits, written, hlookup]

theorem realpath_of_missing {loc : CString 4096} (hlookup : fs.lookup path = some loc)
    (hmissing : fs.kind loc.bytes = none) : fs.realpath path = none := by
  simp [realpath, hlookup, hmissing]

/-- Making a file at a location resolves the paths that lead there, and no others. -/
theorem realpath_create {real : CString 4096} :
    (fs.create loc).realpath path = some real ↔
      fs.lookup path = some real ∧ (real.bytes = loc ∨ (fs.kind real.bytes).isSome = true) := by
  rw [realpath_eq_some, create_lookup]
  by_cases h : real.bytes = loc
  · simp [h]
  · simp [h, create_kind_other h]

/-- What is opened where nothing was is the file made there. -/
theorem openAppend_missing {loc : CString 4096} (hlookup : fs.lookup path = some loc)
    (hmissing : fs.kind loc.bytes = none) {kind : FileKind} {fs' : FileSystem}
    (h : fs.openAppend path = .opened kind fs') : kind = .regular ∧ fs' = fs.create loc.bytes := by
  unfold openAppend at h
  simp only [hlookup, hmissing] at h
  split_ifs at h
  obtain ⟨rfl, rfl⟩ := OpenResult.opened.inj h
  exact ⟨rfl, rfl⟩

/-- What is opened stands at the place of the path, or is made there. -/
theorem openAppend_eq_opened {kind : FileKind} {fs' : FileSystem}
    (h : fs.openAppend path = .opened kind fs') :
    ∃ loc, fs.endsInLink path = false ∧ fs.lookup path = some loc ∧
      fs.mayOpen loc.bytes = true ∧
      (fs.kind loc.bytes = none ∧ kind = .regular ∧ fs' = fs.create loc.bytes ∨
        fs.kind loc.bytes = some kind ∧ fs' = fs) := by
  unfold openAppend at h
  split_ifs at h with hlink
  split at h
  · cases h
  · rename_i loc hlookup
    split_ifs at h with hmay
    refine ⟨loc, by simpa using hlink, hlookup, by simpa using hmay, ?_⟩
    split at h
    · rename_i hkind
      obtain ⟨rfl, rfl⟩ := OpenResult.opened.inj h
      exact .inl ⟨hkind, rfl, rfl⟩
    · cases h
    · cases h
    · rename_i kind' hkind
      obtain ⟨rfl, rfl⟩ := OpenResult.opened.inj h
      exact .inr ⟨hkind, rfl⟩

/-! ## Sockets among the files -/

/-- Another file, or nothing, at a location. -/
def put (fs : FileSystem) (loc : Bytes) (kind : Option FileKind) : FileSystem :=
  { fs with kind := fun l => if l = loc then kind else fs.kind l }

/-- What the system allows a call of `unlink`, and the files behind it when the path ends in
a link, which is then what goes away. -/
structure UnlinkCall where
  permitted : Bool
  relinked : FileSystem

/-- `unlink` -/
def unlink (fs : FileSystem) (path : Bytes) (call : UnlinkCall) : FileSystem :=
  if !call.permitted then fs
  else if fs.endsInLink path then call.relinked
  else
    match fs.lookup path with
    | none => fs
    | some loc =>
        if fs.kind loc.bytes = some .directory then fs else fs.put loc.bytes none

/-- `bind` of a socket to a path, which makes a file where there is none. -/
def bindSocket (fs : FileSystem) (path : Bytes) : Option FileSystem :=
  if fs.endsInLink path then none
  else
    match fs.lookup path with
    | none => none
    | some loc =>
        if (fs.kind loc.bytes).isSome then none else some (fs.put loc.bytes (some .socket))

section Sockets

variable {loc : Bytes} {kind : Option FileKind}

@[simp] theorem put_lookup : (fs.put loc kind).lookup = fs.lookup := rfl

@[simp] theorem put_endsInLink : (fs.put loc kind).endsInLink = fs.endsInLink := rfl

@[simp] theorem put_mayOpen : (fs.put loc kind).mayOpen = fs.mayOpen := rfl

@[simp] theorem put_kind_self : (fs.put loc kind).kind loc = kind := if_pos rfl

theorem put_kind_other {l : Bytes} (h : l ≠ loc) : (fs.put loc kind).kind l = fs.kind l :=
  if_neg h

/-- The same paths lead to the same locations, and the same may be opened. -/
structure SamePaths (fs fs' : FileSystem) : Prop where
  lookup : fs'.lookup = fs.lookup
  endsInLink : fs'.endsInLink = fs.endsInLink
  mayOpen : fs'.mayOpen = fs.mayOpen

theorem SamePaths.trans {fs₁ fs₂ fs₃ : FileSystem} (h : SamePaths fs₁ fs₂)
    (h' : SamePaths fs₂ fs₃) : SamePaths fs₁ fs₃ :=
  ⟨h'.lookup.trans h.lookup, h'.endsInLink.trans h.endsInLink, h'.mayOpen.trans h.mayOpen⟩

/-- `unlink` of a path that ends in no link touches its location alone. -/
theorem unlink_spec {call : UnlinkCall} (hlink : fs.endsInLink path = false) :
    SamePaths fs (fs.unlink path call) ∧
      ∀ l, (∀ real, fs.lookup path = some real → real.bytes ≠ l) →
        (fs.unlink path call).kind l = fs.kind l := by
  unfold unlink
  rw [hlink]
  simp only [Bool.false_eq_true, if_false]
  cases hpath : fs.lookup path with
  | none =>
      split_ifs
      · exact ⟨⟨rfl, rfl, rfl⟩, fun l _ => rfl⟩
      · exact ⟨⟨rfl, rfl, rfl⟩, fun l _ => rfl⟩
  | some real =>
      simp only
      split_ifs
      · exact ⟨⟨rfl, rfl, rfl⟩, fun l _ => rfl⟩
      · exact ⟨⟨rfl, rfl, rfl⟩, fun l _ => rfl⟩
      · exact ⟨⟨rfl, rfl, rfl⟩, fun l hl => put_kind_other (hl real rfl).symm⟩

/-- A bound socket is at the location of its path. -/
theorem bindSocket_eq_some {fs' : FileSystem} (h : fs.bindSocket path = some fs') :
    ∃ real, fs.lookup path = some real ∧ fs' = fs.put real.bytes (some .socket) := by
  unfold bindSocket at h
  split_ifs at h with hlink
  cases hpath : fs.lookup path with
  | none =>
      rw [hpath] at h
      cases h
  | some real =>
      rw [hpath] at h
      simp only at h
      split_ifs at h
      exact ⟨real, rfl, (Option.some.inj h).symm⟩

end Sockets

end FileSystem

end Files
