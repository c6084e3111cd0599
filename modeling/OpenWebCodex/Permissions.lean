import OpenWebCodex.AbsolutePath
import OpenWebCodex.Specific
/-!
# Permissions — file system policies of the sandbox

A restricted policy lists entries for paths, special places and globs.  Of the entries that cover a path the most specific
one gives the access; a write into the metadata directory of a writable entry needs an entry of its own.  Platform sandboxes
are handed the same policy as a list of writable roots with read-only parts.
-/
namespace Owc.Permissions

open Specific (Rule)

/-- In conflict order: `deny` beats `write`, and `write` beats `read`. -/
inductive FileSystemAccessMode
  | read
  | write
  | deny
deriving DecidableEq

namespace FileSystemAccessMode

def rank : FileSystemAccessMode → Nat
  | read => 0
  | write => 1
  | deny => 2

theorem rank_injective : Function.Injective rank := by
  intro a b h
  cases a <;> cases b <;> first | rfl | cases h

instance : LinearOrder FileSystemAccessMode := LinearOrder.lift' rank rank_injective

def canRead (mode : FileSystemAccessMode) : Bool := mode != deny

def canWrite (mode : FileSystemAccessMode) : Bool := mode == write

end FileSystemAccessMode

inductive FileSystemSpecialPath
  | root
  | minimal
  | projectRoots (subpath : Option Str)
  | tmpdir
  | slashTmp
  | unknown (path : Str) (subpath : Option Str)
deriving DecidableEq

inductive FileSystemPath
  | path (path : AbsolutePathBuf)
  | globPattern (pattern : Str)
  | special (value : FileSystemSpecialPath)
deriving DecidableEq

inductive MissingPathBehavior
  | skip
deriving DecidableEq

structure FileSystemSandboxEntry where
  path : FileSystemPath
  access : FileSystemAccessMode
  missingPathBehavior : Option MissingPathBehavior
deriving DecidableEq

def FileSystemSandboxEntry.new (path : FileSystemPath) (access : FileSystemAccessMode) : FileSystemSandboxEntry :=
  ⟨path, access, none⟩

def FileSystemSandboxEntry.skipMissingPath (path : FileSystemPath) (access : FileSystemAccessMode) :
    FileSystemSandboxEntry :=
  ⟨path, access, some .skip⟩

inductive FileSystemSandboxKind
  | restricted
  | unrestricted
  | externalSandbox
deriving DecidableEq

structure FileSystemSandboxPolicy where
  kind : FileSystemSandboxKind
  entries : List FileSystemSandboxEntry

abbrev ResolvedFileSystemEntry := Rule Str FileSystemAccessMode

structure WritableRoot where
  root : AbsolutePathBuf
  readOnlySubpaths : List AbsolutePathBuf
  protectedMetadataNames : List Str
deriving DecidableEq

def protectedMetadataPathNames : List Str := [".git".toList, ".agents".toList, ".codex".toList]

def metadataPathName (name : Str) : Option Str := protectedMetadataPathNames.find? (· == name)

def slashTmpPath : AbsolutePathBuf := ["tmp".toList]

/-! ## A writable root -/

def Path.startsWith (path : Path) (base : AbsolutePathBuf) : Bool :=
  path.isAbsolute && (base.map Component.normal).isPrefixOf path.components

def Component.asOsStr : Component → Str
  | .curDir => ['.']
  | .parentDir => ['.', '.']
  | .normal name => name

def WritableRoot.pathContainsProtectedMetadataName (root : WritableRoot) (path : Path) : Bool :=
  if path.startsWith root.root then
    match (path.components.drop root.root.length).head? with
    | some first => root.protectedMetadataNames.any (· == first.asOsStr)
    | none => false
  else false

def WritableRoot.isPathWritable (root : WritableRoot) (path : Path) : Bool :=
  path.startsWith root.root && !root.readOnlySubpaths.any (path.startsWith ·) &&
    !root.pathContainsProtectedMetadataName path

/-! ## Entries and their targets -/

def specialPathsShareTarget : FileSystemSpecialPath → FileSystemSpecialPath → Bool
  | .root, .root => true
  | .minimal, .minimal => true
  | .tmpdir, .tmpdir => true
  | .slashTmp, .slashTmp => true
  | .projectRoots left, .projectRoots right => left == right
  | .unknown left leftSubpath, .unknown right rightSubpath => left == right && leftSubpath == rightSubpath
  | _, _ => false

/-- Special paths that mean one location without a current directory. -/
def specialPathMatchesAbsolutePath (value : FileSystemSpecialPath) (path : AbsolutePathBuf) : Bool :=
  match value with
  | .root => path.isEmpty
  | .slashTmp => path == slashTmpPath
  | _ => false

def fileSystemPathsShareTarget : FileSystemPath → FileSystemPath → Bool
  | .path left, .path right => left == right
  | .special left, .special right => specialPathsShareTarget left right
  | .path path, .special value => specialPathMatchesAbsolutePath value path
  | .special value, .path path => specialPathMatchesAbsolutePath value path
  | .globPattern left, .globPattern right => left == right
  | _, _ => false

namespace FileSystemSandboxPolicy

variable (policy : FileSystemSandboxPolicy)

def hasRootAccess (predicate : FileSystemAccessMode → Bool) : Bool :=
  policy.kind == .restricted && policy.entries.any (fun entry => entry.path == .special .root && predicate entry.access)

def hasDeniedReadRestrictions : Bool :=
  policy.kind == .restricted && policy.entries.any (fun entry => entry.access == .deny)

def hasSameTargetWriteOverride (entry : FileSystemSandboxEntry) : Bool :=
  policy.entries.any (fun candidate =>
    candidate.access.canWrite && decide (entry.access < candidate.access) &&
      fileSystemPathsShareTarget candidate.path entry.path)

def hasWriteNarrowingEntries : Bool :=
  policy.kind == .restricted && policy.entries.any (fun entry =>
    if entry.access.canWrite then false
    else match entry.path with
      | .path _ => !policy.hasSameTargetWriteOverride entry
      | .globPattern _ => true
      | .special .root => entry.access == .deny
      | .special .minimal => false
      | .special (.unknown _ _) => false
      | .special _ => !policy.hasSameTargetWriteOverride entry)

def hasFullDiskReadAccess : Bool :=
  match policy.kind with
  | .restricted => policy.hasRootAccess FileSystemAccessMode.canRead && !policy.hasDeniedReadRestrictions
  | _ => true

def hasFullDiskWriteAccess : Bool :=
  match policy.kind with
  | .restricted => policy.hasRootAccess FileSystemAccessMode.canWrite && !policy.hasWriteNarrowingEntries
  | _ => true

def includePlatformDefaults : Bool :=
  !policy.hasFullDiskReadAccess && policy.kind == .restricted &&
    policy.entries.any (fun entry => entry.path == .special .minimal && entry.access.canRead)

end FileSystemSandboxPolicy

/-! ## Resolution against a current directory -/

section Host

variable (host : Host)

def resolveFileSystemSpecialPath (value : FileSystemSpecialPath) (cwd : Option AbsolutePathBuf) : Option AbsolutePathBuf :=
  match value with
  | .root => none
  | .minimal => none
  | .unknown _ _ => none
  | .projectRoots subpath =>
    cwd.map (fun cwd => match subpath with
      | some subpath => resolvePathAgainstBase host (.ofText subpath) cwd
      | none => cwd)
  | .tmpdir =>
    match host.tmpdir with
    | some tmpdir => if tmpdir.isEmpty then none else fromAbsolutePath host (.ofText tmpdir)
    | none => none
  | .slashTmp => if host.isDir slashTmpPath then some slashTmpPath else none

/-- The root of the file system is the root of the current directory. -/
def resolveEntryPath (path : FileSystemPath) (cwd : Option AbsolutePathBuf) : Option AbsolutePathBuf :=
  match path with
  | .path path => some path
  | .globPattern _ => none
  | .special .root => cwd.map (fun _ => [])
  | .special value => resolveFileSystemSpecialPath host value cwd

def resolveCandidatePath (path cwd : Path) : Option AbsolutePathBuf :=
  if path.isAbsolute then fromAbsolutePath host path
  else (fromAbsolutePath host cwd).map (·.join host path)

variable (policy : FileSystemSandboxPolicy)

def resolveEntry (cwd : Path) (entry : FileSystemSandboxEntry) : Option ResolvedFileSystemEntry :=
  (resolveEntryPath host entry.path (fromAbsolutePath host cwd)).map (fun path => ⟨path, entry.access⟩)

def resolvedEntriesWithCwd (cwd : Path) : List ResolvedFileSystemEntry := policy.entries.filterMap (resolveEntry host cwd)

def resolveAccessWithCwd (path cwd : Path) : FileSystemAccessMode :=
  match policy.kind with
  | .restricted =>
    match resolveCandidatePath host path cwd with
    | some path => (Specific.decided (resolvedEntriesWithCwd host policy cwd) path).getD .deny
    | none => .deny
  | _ => .write

def canReadPathWithCwd (path cwd : Path) : Bool := (resolveAccessWithCwd host policy path cwd).canRead

/-- The metadata directory that holds the target, by the first of the write entries that has one. -/
def metadataChildOfWritableRoot (target : AbsolutePathBuf) (cwd : Path) : Option (AbsolutePathBuf × Str) :=
  ((resolvedEntriesWithCwd host policy cwd).filter (·.access.canWrite)).findSome? (fun entry => do
    let relativePath ← stripPrefix target entry.path
    let firstComponent ← relativePath.head?
    let metadataName ← metadataPathName firstComponent
    return (AbsolutePathBuf.join host entry.path (.ofText metadataName), metadataName))

def hasExplicitWriteEntryForMetadataPath (protectedMetadataPath target : AbsolutePathBuf) (cwd : Path) : Bool :=
  (resolvedEntriesWithCwd host policy cwd).any (fun entry =>
    entry.access.canWrite && entry.path.isPrefixOf target && protectedMetadataPath.isPrefixOf entry.path)

def isMetadataWriteDenied (path cwd : Path) : Bool :=
  if policy.kind != .restricted then false
  else match resolveCandidatePath host path cwd with
    | none => true
    | some target =>
      match metadataChildOfWritableRoot host policy target cwd with
      | none => false
      | some (protectedMetadataPath, _) =>
        !hasExplicitWriteEntryForMetadataPath host policy protectedMetadataPath target cwd

def canWritePathWithCwd (path cwd : Path) : Bool :=
  if !(resolveAccessWithCwd host policy path cwd).canWrite then false
  else if policy.hasFullDiskWriteAccess then true
  else !isMetadataWriteDenied host policy path cwd

/-! ## Roots -/

def pushUnique (paths : List AbsolutePathBuf) (path : AbsolutePathBuf) : List AbsolutePathBuf :=
  if paths.contains path then paths else paths ++ [path]

def dedupAbsolutePaths (paths : List AbsolutePathBuf) (normalizeEffectivePaths : Bool) : List AbsolutePathBuf :=
  (paths.map (fun path => if normalizeEffectivePaths then normalizeEffectiveAbsolutePath host path else path)).foldl
    pushUnique []

def isGitPointerFile (path : AbsolutePathBuf) : Bool := host.isFile path && path.getLast? == some ".git".toList

/-- The target of `gitdir: <path>`; what is logged of other contents is left out. -/
def resolveGitdirFromFile (dotGit : AbsolutePathBuf) : Option AbsolutePathBuf :=
  match host.readToString dotGit with
  | none => none
  | some contents =>
    let trimmed := Str.trim contents
    if trimmed.contains ':' then
      let label := trimmed.takeWhile (· != ':')
      let gitdirRaw := Str.trim ((trimmed.dropWhile (· != ':')).drop 1)
      if Str.trim label != "gitdir".toList then none
      else if gitdirRaw.isEmpty then none
      else if dotGit.isEmpty then none
      else
        let gitdirPath := resolvePathAgainstBase host (.ofText gitdirRaw) dotGit.dropLast
        if host.pathExists gitdirPath then some gitdirPath else none
    else none

def defaultReadOnlySubpathsForWritableRoot (writableRoot : AbsolutePathBuf) (protectMissingDotCodex : Bool) :
    List AbsolutePathBuf :=
  let topLevelGit := writableRoot.join host (.ofText ".git".toList)
  let gitdir := if host.isFile topLevelGit && isGitPointerFile host topLevelGit then resolveGitdirFromFile host topLevelGit
    else none
  let git := if host.isDir topLevelGit || host.isFile topLevelGit then gitdir.toList ++ [topLevelGit] else []
  let topLevelAgents := writableRoot.join host (.ofText ".agents".toList)
  let agents := if host.isDir topLevelAgents then [topLevelAgents] else []
  let topLevelCodex := writableRoot.join host (.ofText ".codex".toList)
  let codex := if protectMissingDotCodex || host.isDir topLevelCodex then [topLevelCodex] else []
  dedupAbsolutePaths host (git ++ agents ++ codex) false

def hasExplicitResolvedPathEntry (entries : List ResolvedFileSystemEntry) (path : AbsolutePathBuf) : Bool :=
  entries.any (·.path == path)

/-- A name is protected unless the policy lets it be written below the root, under one of the root's spellings. -/
def protectedMetadataNamesForWritableRoot (root : AbsolutePathBuf) (rawWritableRoots : List AbsolutePathBuf) (cwd : Path) :
    List Str :=
  protectedMetadataPathNames.filter (fun metadataName =>
    (root :: rawWritableRoots).all (fun rawRoot =>
      !canWritePathWithCwd host policy (rawRoot.join host (.ofText metadataName)).toPath cwd))

/-- The path of an entry below another spelling of a root, below the root itself. -/
def respelled (root path rawRoot : AbsolutePathBuf) : Option AbsolutePathBuf :=
  match stripPrefix path rawRoot with
  | some suffix => if suffix.isEmpty then none else some (root.join host ⟨false, suffix.map .normal⟩)
  | none => none

def carveout (root : AbsolutePathBuf) (rawWritableRoots : List AbsolutePathBuf) (entry : ResolvedFileSystemEntry) :
    Option AbsolutePathBuf :=
  let effectivePath := normalizeEffectiveAbsolutePath host entry.path
  let rawCarveoutPath :=
    if root.isEmpty then none
    else if entry.path == root then none
    else if root.isPrefixOf entry.path then some entry.path
    else rawWritableRoots.findSome? (respelled host root entry.path)
  match rawCarveoutPath with
  | some path => some path
  | none => if effectivePath == root || !root.isPrefixOf effectivePath then none else some effectivePath

def writableEntries (cwd : Path) : List AbsolutePathBuf :=
  (((resolvedEntriesWithCwd host policy cwd).filter (·.access.canWrite)).filter
    (fun entry => canWritePathWithCwd host policy (AbsolutePathBuf.toPath entry.path) cwd)).map (·.path)

def writableRoot (cwd : Path) (root : AbsolutePathBuf) : WritableRoot :=
  let resolvedEntries := resolvedEntriesWithCwd host policy cwd
  let rawWritableRoots := (writableEntries host policy cwd).filter (fun path => normalizeEffectiveAbsolutePath host path == root)
  let protectMissingDotCodex := (fromAbsolutePath host cwd).any (fun cwd => normalizeEffectiveAbsolutePath host cwd == root)
  let defaults := (defaultReadOnlySubpathsForWritableRoot host root protectMissingDotCodex).filter
    (!hasExplicitResolvedPathEntry resolvedEntries ·)
  let carveouts := ((resolvedEntries.filter (!·.access.canWrite)).filter
    (fun entry => !canWritePathWithCwd host policy (AbsolutePathBuf.toPath entry.path) cwd)).filterMap (carveout host root rawWritableRoots)
  { root
    readOnlySubpaths := dedupAbsolutePaths host (defaults ++ carveouts) false
    protectedMetadataNames := protectedMetadataNamesForWritableRoot host policy root rawWritableRoots cwd }

def getWritableRootsWithCwd (cwd : Path) : List WritableRoot :=
  if policy.hasFullDiskWriteAccess then []
  else (dedupAbsolutePaths host (writableEntries host policy cwd) true).map (writableRoot host policy cwd)

def getReadableRootsWithCwd (cwd : Path) : List AbsolutePathBuf :=
  if policy.hasFullDiskReadAccess then []
  else dedupAbsolutePaths host
    ((((resolvedEntriesWithCwd host policy cwd).filter (·.access.canRead)).filter
      (fun entry => canReadPathWithCwd host policy (AbsolutePathBuf.toPath entry.path) cwd)).map (·.path)) true

def getUnreadableRootsWithCwd (cwd : Path) : List AbsolutePathBuf :=
  if policy.kind != .restricted then []
  else
    let root := (fromAbsolutePath host cwd).map (fun _ => ([] : AbsolutePathBuf))
    dedupAbsolutePaths host
      (((((resolvedEntriesWithCwd host policy cwd).filter (·.access == .deny)).filter
        (fun entry => !canReadPathWithCwd host policy (AbsolutePathBuf.toPath entry.path) cwd)).filter
          (fun entry => root != some entry.path)).map (·.path)) true

end Host

end Owc.Permissions
