import OpenWebCodex.Text
/-!
# AbsolutePath — paths by their components, and what the host says of them

A path is read by its components, as the standard library compares paths.  An `AbsolutePathBuf` is absolute and normalized,
so that it is the list of its names.  The host answers for the file system, the environment and the home directory; links
show only in what it returns for a canonical path.
-/
namespace Owc.Permissions

open List

inductive Component
  | curDir
  | parentDir
  | normal (name : Str)
deriving DecidableEq

/-- A Unix path as `Path::components` reads it; the root directory is the flag. -/
structure Path where
  isAbsolute : Bool
  components : List Component
deriving DecidableEq

abbrev AbsolutePathBuf := List Str

/-- Only a leading `.` is a component. -/
def Path.ofText (text : Str) : Path :=
  let isAbsolute := Str.startsWith text ['/']
  let parts := (Str.split '/' text).filter (!·.isEmpty)
  let components := parts.mapIdx (fun i part =>
    if part == ['.'] then (if i == 0 && !isAbsolute then some .curDir else none)
    else if part == ['.', '.'] then some .parentDir
    else some (.normal part))
  ⟨isAbsolute, components.filterMap id⟩

structure Host where
  homeDir : Option Path
  currentDir : Option AbsolutePathBuf
  tmpdir : Option Str
  isDir : AbsolutePathBuf → Bool
  isFile : AbsolutePathBuf → Bool
  pathExists : AbsolutePathBuf → Bool
  readToString : AbsolutePathBuf → Option Str
  symlinkMetadata : AbsolutePathBuf → Bool
  canonicalizePreservingSymlinks : AbsolutePathBuf → Option AbsolutePathBuf

def bareHost : Host where
  homeDir := none
  currentDir := some []
  tmpdir := none
  isDir _ := false
  isFile _ := false
  pathExists _ := false
  readToString _ := none
  symlinkMetadata _ := false
  canonicalizePreservingSymlinks _ := none

/-- An existing path is its own canonical path. -/
def Host.NoSymlinks (host : Host) : Prop :=
  ∀ path canonical, host.canonicalizePreservingSymlinks path = some canonical → canonical = path

theorem bareHost_noSymlinks : bareHost.NoSymlinks := fun _ _ h => nomatch h

def AbsolutePathBuf.toPath (path : AbsolutePathBuf) : Path := ⟨true, path.map .normal⟩

def pushComponent (names : List Str) : Component → List Str
  | .curDir => names
  | .parentDir => names.dropLast
  | .normal name => names ++ [name]

/-- `normalize_path` of components behind the names of a base. -/
def normalizePath (base : List Str) (components : List Component) : List Str := components.foldl pushComponent base

def stripPrefix (path base : AbsolutePathBuf) : Option (List Str) :=
  if base.isPrefixOf path then some (path.drop base.length) else none

section Host

variable (host : Host)

def maybeExpandHomeDirectory (path : Path) : Path :=
  match path.isAbsolute, path.components, host.homeDir with
  | false, .normal name :: rest, some home => if name == ['~'] then ⟨home.isAbsolute, home.components ++ rest⟩ else path
  | _, _, _ => path

def resolvePathAgainstBase (path : Path) (base : AbsolutePathBuf) : AbsolutePathBuf :=
  let expanded := maybeExpandHomeDirectory host path
  normalizePath (if expanded.isAbsolute then [] else base) expanded.components

def fromAbsolutePath (path : Path) : Option AbsolutePathBuf :=
  let expanded := maybeExpandHomeDirectory host path
  if expanded.isAbsolute then some (normalizePath [] expanded.components)
  else host.currentDir.map (normalizePath · expanded.components)

def AbsolutePathBuf.join (path : AbsolutePathBuf) (relative : Path) : AbsolutePathBuf :=
  resolvePathAgainstBase host relative path

/-- The text of a pattern resolved against a base that is used as given. -/
def resolvedPatternText (pattern : Str) (base : Path) : Str :=
  let expanded := maybeExpandHomeDirectory host (.ofText pattern)
  let isAbsolute := expanded.isAbsolute || base.isAbsolute
  let names := normalizePath (if expanded.isAbsolute then [] else normalizePath [] base.components) expanded.components
  if !isAbsolute && names.isEmpty then ['.'] else (if isAbsolute then ['/'] else []) ++ ['/'].intercalate names

/-- The nearest existing ancestor in its canonical form, with the rest behind it. -/
def normalizeEffectiveAbsolutePath (path : AbsolutePathBuf) : AbsolutePathBuf :=
  (path.inits.reverse.findSome? (fun ancestor =>
    if host.symlinkMetadata ancestor then
      (host.canonicalizePreservingSymlinks ancestor).map (· ++ path.drop ancestor.length)
    else none)).getD path

variable {host}

theorem normalizePath_normal (base names : List Str) : normalizePath base (names.map .normal) = base ++ names := by
  unfold normalizePath
  induction names generalizing base with
  | nil => exact (append_nil base).symm
  | cons name names ih =>
    rw [map_cons, foldl_cons, ih]
    exact append_assoc base [name] names

theorem fromAbsolutePath_toPath (path : AbsolutePathBuf) : fromAbsolutePath host path.toPath = some path := by
  have hexpand : maybeExpandHomeDirectory host path.toPath = path.toPath := rfl
  unfold fromAbsolutePath
  rw [hexpand]
  exact congrArg some (normalizePath_normal [] path)

theorem join_name {name : Str} (hname : name ≠ ['~']) (hparse : Path.ofText name = ⟨false, [.normal name]⟩)
    (path : AbsolutePathBuf) : path.join host (.ofText name) = path ++ [name] := by
  have hexpand : maybeExpandHomeDirectory host ⟨false, [.normal name]⟩ = ⟨false, [.normal name]⟩ := by
    unfold maybeExpandHomeDirectory
    cases host.homeDir with
    | none => rfl
    | some => exact if_neg (by simpa using hname)
  unfold AbsolutePathBuf.join resolvePathAgainstBase
  rw [hparse, hexpand]
  rfl

theorem stripPrefix_eq_some {path base rest : AbsolutePathBuf} : stripPrefix path base = some rest ↔ path = base ++ rest := by
  unfold stripPrefix
  split
  · rename_i h
    obtain ⟨t, rfl⟩ := isPrefixOf_iff_prefix.1 h
    rw [drop_left, Option.some.injEq, append_right_inj]
  · rename_i h
    rw [List.isPrefixOf_iff_prefix] at h
    exact iff_of_false (fun h' => nomatch h') fun h' => h ⟨rest, h'.symm⟩

theorem normalizeEffectiveAbsolutePath_eq (hlinks : host.NoSymlinks) (path : AbsolutePathBuf) :
    normalizeEffectiveAbsolutePath host path = path := by
  unfold normalizeEffectiveAbsolutePath
  cases hfind : path.inits.reverse.findSome? _ with
  | none => rfl
  | some =>
    obtain ⟨ancestor, hancestor, hsome⟩ := exists_of_findSome?_eq_some hfind
    have hpre : ancestor <+: path := (mem_inits _ _).1 (mem_reverse.1 hancestor)
    split at hsome
    · obtain ⟨_, hcanonical, rfl⟩ := Option.map_eq_some_iff.1 hsome
      rw [hlinks _ _ hcanonical]
      obtain ⟨_, rfl⟩ := hpre
      rw [drop_left]
      rfl
    · cases hsome

end Host

end Owc.Permissions
