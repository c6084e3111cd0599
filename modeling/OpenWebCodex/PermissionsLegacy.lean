import OpenWebCodex.Permissions
/-!
# PermissionsLegacy — the bridge to legacy sandbox policies, and the signature of a policy

A restricted policy is turned into one of the legacy policies where that loses nothing.  Whether it does is decided by
comparing signatures: the roots, carve-outs and flags of the policy against those of the policy that the legacy runtime
builds.
-/
namespace Owc.Permissions

inductive NetworkSandboxPolicy
  | restricted
  | enabled
deriving DecidableEq

def NetworkSandboxPolicy.isEnabled (policy : NetworkSandboxPolicy) : Bool := policy == .enabled

inductive NetworkAccess
  | restricted
  | enabled
deriving DecidableEq

inductive SandboxPolicy
  | dangerFullAccess
  | readOnly (networkAccess : Bool)
  | externalSandbox (networkAccess : NetworkAccess)
  | workspaceWrite (writableRoots : List AbsolutePathBuf) (networkAccess excludeTmpdirEnvVar excludeSlashTmp : Bool)
deriving DecidableEq

/-! ## Signatures -/

structure FileSystemSemanticSignature where
  hasFullDiskReadAccess : Bool
  hasFullDiskWriteAccess : Bool
  includePlatformDefaults : Bool
  readableRoots : List AbsolutePathBuf
  writableRoots : List WritableRoot
  unreadableRoots : List AbsolutePathBuf
  unreadableGlobs : List Str
deriving DecidableEq

/-- `Vec::dedup`: of a run of equal items one is kept. -/
def dedupRuns {α : Type} [DecidableEq α] : List α → List α
  | [] => []
  | [x] => [x]
  | x :: y :: items => if x = y then dedupRuns (y :: items) else x :: dedupRuns (y :: items)

def sortedAbsolutePaths (paths : List AbsolutePathBuf) : List AbsolutePathBuf :=
  paths.insertionSort (fun left right => ¬ right < left)

def WritableRoot.sorted (root : WritableRoot) : WritableRoot :=
  { root with
    readOnlySubpaths := sortedAbsolutePaths root.readOnlySubpaths
    protectedMetadataNames := dedupRuns (root.protectedMetadataNames.insertionSort (fun left right => ¬ right < left)) }

def sortedWritableRoots (roots : List WritableRoot) : List WritableRoot :=
  (roots.map WritableRoot.sorted).insertionSort (fun left right => ¬ right.root < left.root)

/-! ## The legacy policy -/

structure LegacyWrites where
  workspaceRootWritable : Bool
  writableRoots : List AbsolutePathBuf
  tmpdirWritable : Bool
  slashTmpWritable : Bool
  unbridgeableRootWrite : Bool

section Host

variable (host : Host) (policy : FileSystemSandboxPolicy) (cwd : Path)

def getUnreadableGlobsWithCwd : List Str :=
  if policy.kind != .restricted then []
  else
    let patterns := (policy.entries.filter (·.access == .deny)).filterMap (fun entry =>
      match entry.path with
      | .globPattern pattern => some (resolvedPatternText host pattern cwd)
      | _ => none)
    dedupRuns (patterns.insertionSort (fun left right => ¬ right < left))

def semanticSignature : FileSystemSemanticSignature where
  hasFullDiskReadAccess := policy.hasFullDiskReadAccess
  hasFullDiskWriteAccess := policy.hasFullDiskWriteAccess
  includePlatformDefaults := policy.includePlatformDefaults
  readableRoots := sortedAbsolutePaths (getReadableRootsWithCwd host policy cwd)
  writableRoots := sortedWritableRoots (getWritableRootsWithCwd host policy cwd)
  unreadableRoots := sortedAbsolutePaths (getUnreadableRootsWithCwd host policy cwd)
  unreadableGlobs := getUnreadableGlobsWithCwd host policy cwd

def isSemanticallyEquivalentTo (other : FileSystemSandboxPolicy) : Bool :=
  semanticSignature host policy cwd == semanticSignature host other cwd

def LegacyWrites.note (writes : LegacyWrites) (entry : FileSystemSandboxEntry) : LegacyWrites :=
  match entry.path with
  | .globPattern _ => writes
  | .path path =>
    if entry.access.canWrite then
      if fromAbsolutePath host cwd == some path then { writes with workspaceRootWritable := true }
      else { writes with writableRoots := writes.writableRoots ++ [path] }
    else writes
  | .special .root => if entry.access == .write then { writes with unbridgeableRootWrite := true } else writes
  | .special .minimal => writes
  | .special (.projectRoots subpath) =>
    if subpath.isNone && entry.access.canWrite then { writes with workspaceRootWritable := true }
    else match resolveFileSystemSpecialPath host (.projectRoots subpath) (fromAbsolutePath host cwd) with
      | some path =>
        if entry.access.canWrite then { writes with writableRoots := writes.writableRoots ++ [path] } else writes
      | none => writes
  | .special .tmpdir => if entry.access.canWrite then { writes with tmpdirWritable := true } else writes
  | .special .slashTmp => if entry.access.canWrite then { writes with slashTmpWritable := true } else writes
  | .special (.unknown _ _) => writes

def legacyWrites : LegacyWrites := policy.entries.foldl (LegacyWrites.note host cwd) ⟨false, [], false, false, false⟩

def unsupportedWritesMessage : Str :=
  ("permissions profile requests filesystem writes outside the workspace root, which is not supported until the " ++
    "runtime enforces FileSystemSandboxPolicy directly").toList

def toLegacySandboxPolicy (networkPolicy : NetworkSandboxPolicy) : Except Str SandboxPolicy :=
  match policy.kind with
  | .externalSandbox => .ok (.externalSandbox (if networkPolicy.isEnabled then .enabled else .restricted))
  | .unrestricted =>
    .ok (if networkPolicy.isEnabled then .dangerFullAccess else .externalSandbox .restricted)
  | .restricted =>
    let writes := legacyWrites host policy cwd
    if policy.hasFullDiskWriteAccess then
      .ok (if networkPolicy.isEnabled then .dangerFullAccess else .externalSandbox .restricted)
    else if writes.workspaceRootWritable then
      .ok (.workspaceWrite (dedupAbsolutePaths host writes.writableRoots false) networkPolicy.isEnabled
        (!writes.tmpdirWritable) (!writes.slashTmpWritable))
    else if writes.unbridgeableRootWrite || !writes.writableRoots.isEmpty || writes.tmpdirWritable ||
        writes.slashTmpWritable then
      .error unsupportedWritesMessage
    else .ok (.readOnly networkPolicy.isEnabled)

def appendDefaultReadOnlyPathIfNoExplicitRule (entries : List FileSystemSandboxEntry) (path : AbsolutePathBuf) :
    List FileSystemSandboxEntry :=
  if entries.any (fun entry => fileSystemPathsShareTarget entry.path (.path path)) then entries
  else entries ++ [.skipMissingPath (.path path) .read]

/-- The policy that legacy runtimes enforce; `FileSystemSandboxPolicy::from` for all but workspace policies. -/
def legacyRuntimeFileSystemPolicyForCwd : SandboxPolicy → FileSystemSandboxPolicy
  | .dangerFullAccess => ⟨.unrestricted, []⟩
  | .externalSandbox _ => ⟨.externalSandbox, []⟩
  | .readOnly _ => ⟨.restricted, [.new (.special .root) .read]⟩
  | .workspaceWrite writableRoots _ excludeTmpdirEnvVar excludeSlashTmp =>
    let entries : List FileSystemSandboxEntry :=
      [.new (.special .root) .read, .new (.special (.projectRoots none)) .write] ++
        (if excludeSlashTmp then [] else [.new (.special .slashTmp) .write]) ++
        (if excludeTmpdirEnvVar then [] else [.new (.special .tmpdir) .write]) ++
        writableRoots.map (fun path => .new (.path path) .write)
    let cwdSubpaths := match fromAbsolutePath host cwd with
      | some cwdRoot => defaultReadOnlySubpathsForWritableRoot host cwdRoot true
      | none => []
    let subpaths := cwdSubpaths ++ writableRoots.flatMap (defaultReadOnlySubpathsForWritableRoot host · false)
    ⟨.restricted, subpaths.foldl appendDefaultReadOnlyPathIfNoExplicitRule entries⟩

def SandboxPolicy.getWritableRootsWithCwd : SandboxPolicy → List WritableRoot
  | .workspaceWrite writableRoots _ excludeTmpdirEnvVar excludeSlashTmp =>
    let cwdRoot := fromAbsolutePath host cwd
    let roots := writableRoots ++ cwdRoot.toList ++
      (if !excludeSlashTmp && host.isDir slashTmpPath then [slashTmpPath] else []) ++
      (if excludeTmpdirEnvVar then [] else (resolveFileSystemSpecialPath host .tmpdir none).toList)
    roots.map (fun root =>
      { root
        readOnlySubpaths := defaultReadOnlySubpathsForWritableRoot host root (cwdRoot == some root)
        protectedMetadataNames := [] })
  | _ => []

def protectedMetadataNamesNeedDirectRuntimeEnforcement (legacyPolicy : SandboxPolicy) : Bool :=
  let legacyRoots := legacyPolicy.getWritableRootsWithCwd host cwd
  (getWritableRootsWithCwd host policy cwd).any (fun writableRoot =>
    match legacyRoots.find? (·.root == writableRoot.root) with
    | none => !writableRoot.protectedMetadataNames.isEmpty
    | some legacyRoot =>
      writableRoot.protectedMetadataNames.any (fun metadataName =>
        !legacyRoot.readOnlySubpaths.any (· == writableRoot.root.join host (.ofText metadataName))))

def needsDirectRuntimeEnforcement (networkPolicy : NetworkSandboxPolicy) : Bool :=
  if policy.kind != .restricted then false
  else match toLegacySandboxPolicy host policy cwd networkPolicy with
    | .error _ => true
    | .ok legacyPolicy =>
      if protectedMetadataNamesNeedDirectRuntimeEnforcement host policy cwd legacyPolicy then true
      else semanticSignature host policy cwd !=
        semanticSignature host (legacyRuntimeFileSystemPolicyForCwd host cwd legacyPolicy) cwd

end Host

end Owc.Permissions
