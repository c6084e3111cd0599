import OpenWebCodex.PermissionsOrder
import OpenWebCodex.PermissionsSignature
/-!
# PermissionsEquivalence — policies of one signature, and the bridge to legacy policies

With full-disk access everything may be written, but for what a `read` entry for `/tmp` shadows when `/tmp` is missing and
the `write` entry that should beat it resolves to nothing.  With the roots of `PermissionsSignature` this settles when
policies of one signature agree on every path, and when a policy that needs no direct enforcement agrees with the policy of
the legacy runtime.
-/
namespace Owc.Permissions

open List FileSystemSandboxPolicy Bool
open Specific (Rule Deepest decided)

section Full

variable {host : Host} {policy : FileSystemSandboxPolicy} {cwd : Path}

theorem isSome_fromAbsolutePath (host : Host) (hcwd : cwd.isAbsolute) : (fromAbsolutePath host cwd).isSome := by
  unfold fromAbsolutePath maybeExpandHomeDirectory
  simp [hcwd]

theorem exists_candidate (host : Host) (hcwd : cwd.isAbsolute) (path : Path) :
    ∃ p, resolveCandidatePath host path cwd = some p := by
  unfold resolveCandidatePath
  refine Option.isSome_iff_exists.1 ?_
  split
  · exact isSome_fromAbsolutePath host ‹_›
  · rw [Option.isSome_map]
    exact isSome_fromAbsolutePath host hcwd

variable {path : AbsolutePathBuf}

theorem mem_resolvedEntries (hentry : entry ∈ policy.entries)
    (hpath : resolveEntryPath host entry.path (fromAbsolutePath host cwd) = some path) :
    ⟨path, entry.access⟩ ∈ resolvedEntriesWithCwd host policy cwd := by
  refine mem_filterMap.2 ⟨entry, hentry, ?_⟩
  unfold resolveEntry
  rw [hpath]
  rfl

theorem exists_entry (hrule : rule ∈ resolvedEntriesWithCwd host policy cwd) :
    ∃ entry ∈ policy.entries, resolveEntryPath host entry.path (fromAbsolutePath host cwd) = some rule.path ∧
      entry.access = rule.access := by
  obtain ⟨entry, hentry, hresolve⟩ := mem_filterMap.1 hrule
  obtain ⟨_, hpath, rfl⟩ := Option.map_eq_some_iff.1 hresolve
  exact ⟨entry, hentry, hpath, rfl⟩

theorem exists_root_rule (host : Host) (hcwd : cwd.isAbsolute) {predicate : FileSystemAccessMode → Bool}
    (hroot : policy.hasRootAccess predicate) :
    ∃ rule ∈ resolvedEntriesWithCwd host policy cwd, rule.path = [] ∧ predicate rule.access := by
  unfold hasRootAccess at hroot
  rw [and_eq_true, any_eq_true] at hroot
  obtain ⟨_, entry, hentry, h⟩ := hroot
  rw [and_eq_true, beq_iff_eq] at h
  obtain ⟨_, habsolute⟩ := Option.isSome_iff_exists.1 (isSome_fromAbsolutePath host hcwd)
  refine ⟨⟨[], entry.access⟩, mem_resolvedEntries hentry ?_, rfl, h.2⟩
  rw [h.1, habsolute]
  rfl

theorem canRead_of_full (hcwd : cwd.isAbsolute) (hfull : policy.hasFullDiskReadAccess) (path : Path) :
    canReadPathWithCwd host policy path cwd := by
  cases hkind : policy.kind with
  | restricted =>
    unfold hasFullDiskReadAccess at hfull
    rw [hkind] at hfull
    simp only [and_eq_true, not_eq_true'] at hfull
    obtain ⟨p, hp⟩ := exists_candidate host hcwd path
    obtain ⟨root, hroot, hrootPath, _⟩ := exists_root_rule host hcwd hfull.1
    refine (canRead_iff hkind path).2 ⟨p, hp, ?_⟩
    obtain ⟨q, hdeepest, _⟩ := Specific.exists_deepest hroot (hrootPath ▸ nil_prefix)
    obtain ⟨rule, hrule, hpath⟩ := hdeepest.ruled
    obtain ⟨strong, hstrong, _, hdecided, _⟩ := Specific.decided_of_ruled hrule
    refine ⟨strong.access, hdeepest.decided_eq.trans (hpath ▸ hdecided), fun hdeny => ?_⟩
    obtain ⟨entry, hentry, _, haccess⟩ := exists_entry hstrong
    have hnone := hfull.2
    unfold hasDeniedReadRestrictions at hnone
    rw [hkind, beq_self_eq_true, Bool.true_and, any_eq_false] at hnone
    exact hnone entry hentry (by simp [haccess, hdeny])
  | _ =>
    unfold canReadPathWithCwd resolveAccessWithCwd
    rw [hkind]
    rfl

/-- `/tmp` is no directory, so that the entry for it that writes resolves to nothing and the one that reads stays. -/
def MissingTmp (host : Host) (policy : FileSystemSandboxPolicy) : Prop :=
  policy.kind = .restricted ∧ host.isDir slashTmpPath = false ∧
    (∃ entry ∈ policy.entries, entry.path = .special .slashTmp ∧ entry.access = .write) ∧
    ∃ entry ∈ policy.entries, entry.path = .path slashTmpPath ∧ entry.access = .read

/-- Below a missing `/tmp`, with no write entry closer. -/
def Shadowed (host : Host) (policy : FileSystemSandboxPolicy) (cwd : Path) (p : AbsolutePathBuf) : Prop :=
  MissingTmp host policy ∧ slashTmpPath <+: p ∧
    ∀ rule ∈ resolvedEntriesWithCwd host policy cwd, rule.access = .write → rule.path <+: p → ¬ slashTmpPath <+: rule.path

theorem eq_of_specialPathsShareTarget (h : specialPathsShareTarget left right) : left = right := by
  cases left <;> cases right <;> simp_all [specialPathsShareTarget]

theorem read_of_lt_write {mode : FileSystemAccessMode} (h : mode < .write) : mode = .read := by
  cases mode with
  | read => rfl
  | _ => exact absurd h (by decide)

/-- A special path with one location that is written beside an explicit entry for it. -/
theorem special_shares (hcwd : cwd.isAbsolute) (hkind : policy.kind = .restricted)
    (hcandidate : candidate ∈ policy.entries) (hvalue : candidate.path = .special value) (hwrite : candidate.access = .write)
    (hentry : entry ∈ policy.entries) (hpath : entry.path = .path path) (hread : entry.access = .read)
    (hshare : specialPathMatchesAbsolutePath value path) :
    ⟨path, .write⟩ ∈ resolvedEntriesWithCwd host policy cwd ∨ path = slashTmpPath ∧ MissingTmp host policy := by
  obtain ⟨_, habsolute⟩ := Option.isSome_iff_exists.1 (isSome_fromAbsolutePath host hcwd)
  cases value with
  | root =>
    refine .inl (hwrite ▸ mem_resolvedEntries hcandidate ?_)
    rw [hvalue, habsolute, List.isEmpty_iff.1 hshare]
    rfl
  | slashTmp =>
    have htmp : path = slashTmpPath := beq_iff_eq.1 hshare
    cases hdir : host.isDir slashTmpPath with
    | true =>
      refine .inl (hwrite ▸ mem_resolvedEntries hcandidate ?_)
      rw [hvalue, htmp]
      exact if_pos hdir
    | false => exact .inr ⟨htmp, hkind, hdir, ⟨candidate, hcandidate, hvalue, hwrite⟩, entry, hentry, htmp ▸ hpath, hread⟩
  | _ => cases hshare

theorem shared_special (hshare : specialPathMatchesAbsolutePath value path)
    (htarget : resolveEntryPath host (.special value) base = some target) : path = target := by
  cases value with
  | root =>
    obtain ⟨_, _, rfl⟩ := Option.map_eq_some_iff.1 htarget
    exact List.isEmpty_iff.1 hshare
  | slashTmp =>
    obtain ⟨_, hsome⟩ := Option.ite_none_right_eq_some.1 htarget
    cases hsome
    exact beq_iff_eq.1 hshare
  | _ => cases hshare

theorem override_cases {entry : FileSystemSandboxEntry} (hcwd : cwd.isAbsolute)
    (hentry : entry ∈ policy.entries) (hkind : policy.kind = .restricted)
    (hpath : resolveEntryPath host entry.path (fromAbsolutePath host cwd) = some path)
    (hoverride : policy.hasSameTargetWriteOverride entry) :
    entry.access = .read ∧ (⟨path, .write⟩ ∈ resolvedEntriesWithCwd host policy cwd ∨
      path = slashTmpPath ∧ MissingTmp host policy) := by
  unfold hasSameTargetWriteOverride at hoverride
  obtain ⟨⟨candidatePath, candidateAccess⟩, hcandidate, h⟩ := any_eq_true.1 hoverride
  rw [and_eq_true, and_eq_true, decide_eq_true_eq] at h
  obtain ⟨⟨hwrite, hlt⟩, hshare⟩ := h
  obtain rfl : candidateAccess = .write := by simpa [FileSystemAccessMode.canWrite] using hwrite
  have hread := read_of_lt_write hlt
  have hmem : ∀ {target}, resolveEntryPath host candidatePath (fromAbsolutePath host cwd) = some target →
      ⟨target, .write⟩ ∈ resolvedEntriesWithCwd host policy cwd := mem_resolvedEntries hcandidate
  refine ⟨hread, ?_⟩
  obtain ⟨entryPath, _⟩ := entry
  cases entryPath with
  | globPattern => cases hpath
  | path =>
    cases hpath
    cases candidatePath with
    | globPattern => cases hshare
    | path other =>
      have heq : other = path := beq_iff_eq.1 hshare
      exact .inl (hmem (heq ▸ rfl))
    | special => exact special_shares hcwd hkind hcandidate rfl rfl hentry rfl hread hshare
  | special =>
    refine .inl (hmem ?_)
    cases candidatePath with
    | globPattern => cases hshare
    | special =>
      rw [eq_of_specialPathsShareTarget hshare]
      exact hpath
    | path => exact (shared_special hshare hpath).symm ▸ rfl

/-- **A rule that does not write is read, and beaten by a rule at its path unless it is the one for a missing `/tmp`.** -/
theorem beaten_of_full (hcwd : cwd.isAbsolute) (hkind : policy.kind = .restricted)
    (hfull : policy.hasFullDiskWriteAccess)
    (hrule : rule ∈ resolvedEntriesWithCwd host policy cwd) (hnot : rule.access ≠ .write) :
    rule.access = .read ∧ (⟨rule.path, .write⟩ ∈ resolvedEntriesWithCwd host policy cwd ∨
      rule.path = slashTmpPath ∧ MissingTmp host policy) := by
  unfold hasFullDiskWriteAccess at hfull
  rw [hkind] at hfull
  simp only [and_eq_true, not_eq_true'] at hfull
  obtain ⟨hroot, hnarrow⟩ := hfull
  unfold hasWriteNarrowingEntries at hnarrow
  rw [hkind, beq_self_eq_true, Bool.true_and, any_eq_false] at hnarrow
  obtain ⟨rulePath, _⟩ := rule
  obtain ⟨⟨entryPath, access⟩, hentry, hpath, rfl⟩ := exists_entry hrule
  have hentryNot : access.canWrite = false := by
    cases access with
    | write => exact absurd rfl hnot
    | _ => rfl
  have hkept := hnarrow _ hentry
  rw [hentryNot, if_neg Bool.false_ne_true] at hkept
  have hoverride := override_cases hcwd hentry hkind hpath
  cases entryPath with
  | globPattern => cases hpath
  | path => exact hoverride (by simpa using hkept)
  | special value =>
    cases value with
    | root =>
      obtain ⟨_, _, hnil⟩ := Option.map_eq_some_iff.1 hpath
      obtain ⟨⟨_, writes⟩, hwriter, rfl, hwriterAccess⟩ := exists_root_rule host hcwd hroot
      have hdeny : access ≠ .deny := by simpa using hkept
      constructor
      · cases access with
        | read => rfl
        | write => exact absurd rfl hnot
        | deny => exact absurd rfl hdeny
      · cases writes with
        | write => exact .inl (hnil ▸ hwriter)
        | _ => cases hwriterAccess
    | minimal | unknown => cases hpath
    | _ => exact hoverride (by simpa using hkept)

/-- **With full-disk access everything may be written but what a missing `/tmp` shadows.** -/
theorem canWrite_full_iff (hcwd : cwd.isAbsolute) (hfull : policy.hasFullDiskWriteAccess) {path p} (hp : resolveCandidatePath host path cwd = some p) :
    canWritePathWithCwd host policy path cwd ↔ ¬ Shadowed host policy cwd p := by
  rw [canWrite_of_full hfull]
  cases hkind : policy.kind with
  | restricted =>
    rw [resolveAccess_eq hkind, hp]
    rw [getD_canWrite_iff]
    have hrootAccess : policy.hasRootAccess FileSystemAccessMode.canWrite := by
      unfold hasFullDiskWriteAccess at hfull
      rw [hkind] at hfull
      exact (and_eq_true_iff.1 hfull).1
    obtain ⟨root, hroot, hrootPath, _⟩ := exists_root_rule host hcwd hrootAccess
    rcases Specific.decided_cases (resolvedEntriesWithCwd host policy cwd) p with
      ⟨_, hnone⟩ | ⟨rule, hrule, hdecided, hdeepest, hstrong⟩
    · exact absurd (hrootPath ▸ nil_prefix) (hnone root hroot)
    · rw [hdecided, Option.some_inj]
      constructor
      · rintro hwrite ⟨hmissing, htmp, hshadow⟩
        obtain ⟨_, _, _, entry, hentry, hentryPath, _⟩ := hmissing
        refine hshadow rule hrule hwrite hdeepest.above (hdeepest.deepest ⟨slashTmpPath, entry.access⟩ ?_ htmp)
        exact mem_resolvedEntries hentry (by rw [hentryPath]; rfl)
      · intro hshadow
        by_contra hnot
        obtain ⟨hread, hwriter | ⟨htmp, hmissing⟩⟩ := beaten_of_full hcwd hkind hfull hrule hnot
        · have hle : FileSystemAccessMode.write ≤ rule.access := hstrong _ hwriter rfl
          rw [hread] at hle
          exact absurd hle (by decide)
        refine hshadow ⟨hmissing, htmp ▸ hdeepest.above, fun other hother hwrite habove hbelow => hnot ?_⟩
        have hsame : other.path = rule.path := by
          have h₁ := hdeepest.deepest other hother habove
          rw [htmp] at h₁ ⊢
          exact h₁.eq_of_length (Nat.le_antisymm h₁.length_le hbelow.length_le)
        have hle := hstrong other hother hsame
        rw [hwrite, hread] at hle
        exact absurd hle (by decide)
  | _ =>
    unfold resolveAccessWithCwd
    rw [hkind]
    exact iff_of_true rfl fun h => nomatch hkind.symm.trans h.1.1

end Full

section Signature

variable {host : Host} {P Q : FileSystemSandboxPolicy} {cwd : Path}

/-- What policies of one signature must share beside it to agree on writing: with full-disk access the same paths below a
missing `/tmp`, without it no entry of one at a linked git directory that the other leaves open. -/
def WritesShared (host : Host) (P Q : FileSystemSandboxPolicy) (cwd : Path) : Prop :=
  (P.hasFullDiskWriteAccess = true → ∀ p, Shadowed host P cwd p ↔ Shadowed host Q cwd p) ∧
  (P.hasFullDiskWriteAccess = false →
    GitdirsUnruled host (resolvedEntriesWithCwd host P cwd) (resolvedEntriesWithCwd host Q cwd) ∧
    GitdirsUnruled host (resolvedEntriesWithCwd host Q cwd) (resolvedEntriesWithCwd host P cwd))

variable (hlinks : host.NoSymlinks) (hcwd : cwd.isAbsolute = true)
  (hsame : semanticSignature host P cwd = semanticSignature host Q cwd)

include hcwd hlinks hsame

theorem canRead_of_signature (h : canReadPathWithCwd host P path cwd) : canReadPathWithCwd host Q path cwd := by
  have hflag : P.hasFullDiskReadAccess = Q.hasFullDiskReadAccess :=
    congrArg FileSystemSemanticSignature.hasFullDiskReadAccess hsame
  cases hfull : P.hasFullDiskReadAccess with
  | true => exact canRead_of_full hcwd (hflag.symm.trans hfull) path
  | false =>
    have hother := hflag.symm.trans hfull
    obtain ⟨p, hp, hreadable⟩ := (canRead_iff (kind_of_not_full_read hfull) path).1 h
    refine (canRead_iff (kind_of_not_full_read hother) path).2 ⟨p, hp, readable_agree ?_ ?_ hreadable⟩
    · intro root hroot
      have hroots : sortedAbsolutePaths (getReadableRootsWithCwd host P cwd) =
          sortedAbsolutePaths (getReadableRootsWithCwd host Q cwd) :=
        congrArg FileSystemSemanticSignature.readableRoots hsame
      rw [← mem_getReadableRoots hlinks hfull, ← mem_sortedAbsolutePaths, hroots, mem_sortedAbsolutePaths] at hroot
      exact (mem_getReadableRoots hlinks hother).1 hroot
    · intro root hroot
      have hroots : sortedAbsolutePaths (getUnreadableRootsWithCwd host P cwd) =
          sortedAbsolutePaths (getUnreadableRootsWithCwd host Q cwd) :=
        congrArg FileSystemSemanticSignature.unreadableRoots hsame
      have hsome := isSome_fromAbsolutePath host hcwd
      rw [← mem_getUnreadableRoots hlinks hother hsome, ← mem_sortedAbsolutePaths, ← hroots, mem_sortedAbsolutePaths] at hroot
      exact ((mem_getUnreadableRoots hlinks hfull hsome).1 hroot).1

theorem canWrite_eq_iff_shared :
    (∀ path, canWritePathWithCwd host P path cwd = canWritePathWithCwd host Q path cwd) ↔ WritesShared host P Q cwd := by
  have hflag : P.hasFullDiskWriteAccess = Q.hasFullDiskWriteAccess :=
    congrArg FileSystemSemanticSignature.hasFullDiskWriteAccess hsame
  have hroots : sortedWritableRoots (getWritableRootsWithCwd host P cwd) =
      sortedWritableRoots (getWritableRootsWithCwd host Q cwd) :=
    congrArg FileSystemSemanticSignature.writableRoots hsame
  cases hP : P.hasFullDiskWriteAccess with
  | true =>
    have hQ := hflag.symm.trans hP
    constructor
    · refine fun hagree => ⟨fun _ p => not_iff_not.1 ?_, fun hnot => nomatch hP.symm.trans hnot⟩
      rw [← canWrite_full_iff hcwd hP (resolveCandidatePath_toPath p), hagree,
        canWrite_full_iff hcwd hQ (resolveCandidatePath_toPath p)]
    · intro hshared path
      obtain ⟨p, hp⟩ := exists_candidate host hcwd path
      rw [Bool.eq_iff_iff, canWrite_full_iff hcwd hP hp, canWrite_full_iff hcwd hQ hp, hshared.1 hP]
  | false =>
    have hQ := hflag.symm.trans hP
    constructor
    · intro hagree
      have hwrites (p) : Writes (resolvedEntriesWithCwd host P cwd) p ↔ Writes (resolvedEntriesWithCwd host Q cwd) p := by
        rw [← canWrite_toPath_iff hP, hagree, canWrite_toPath_iff hQ]
      exact ⟨fun hnot => (nomatch hP.symm.trans hnot), fun _ =>
        ⟨gitdirsUnruled_of_agree hlinks hP hQ hroots fun p => (hwrites p).1,
          gitdirsUnruled_of_agree hlinks hQ hP hroots.symm fun p => (hwrites p).2⟩⟩
    · intro hshared path
      obtain ⟨hleft, hright⟩ := hshared.2 hP
      rw [Bool.eq_iff_iff, canWrite_iff hP, canWrite_iff hQ]
      refine exists_congr fun p => and_congr_right fun _ => ⟨?_, ?_⟩
      · exact writes_agree hlinks hP hQ hroots hleft
      · exact writes_agree hlinks hQ hP hroots.symm hright

end Signature

/-- **Policies of one signature agree on reading, and on writing exactly where they share what it leaves out.**  So does a
policy that needs no direct enforcement with the policy that the legacy runtime enforces in its place. -/
theorem signature_decides_access_iff (host : Host) (hlinks : host.NoSymlinks) (cwd : Path) (hcwd : cwd.isAbsolute = true) :
    (∀ P Q, isSemanticallyEquivalentTo host P cwd Q = true →
      (∀ path, canReadPathWithCwd host P path cwd = canReadPathWithCwd host Q path cwd) ∧
      ((∀ path, canWritePathWithCwd host P path cwd = canWritePathWithCwd host Q path cwd) ↔ WritesShared host P Q cwd)) ∧
    ∀ P network, P.kind = .restricted → needsDirectRuntimeEnforcement host P cwd network = false →
      ∃ legacy, toLegacySandboxPolicy host P cwd network = .ok legacy ∧
        (∀ path, canReadPathWithCwd host P path cwd =
          canReadPathWithCwd host (legacyRuntimeFileSystemPolicyForCwd host cwd legacy) path cwd) ∧
        ((∀ path, canWritePathWithCwd host P path cwd =
            canWritePathWithCwd host (legacyRuntimeFileSystemPolicyForCwd host cwd legacy) path cwd) ↔
          WritesShared host P (legacyRuntimeFileSystemPolicyForCwd host cwd legacy) cwd) := by
  have hagree : ∀ P Q, semanticSignature host P cwd = semanticSignature host Q cwd →
      (∀ path, canReadPathWithCwd host P path cwd = canReadPathWithCwd host Q path cwd) ∧
      ((∀ path, canWritePathWithCwd host P path cwd = canWritePathWithCwd host Q path cwd) ↔ WritesShared host P Q cwd) :=
    fun P Q hsame => ⟨fun path => Bool.eq_iff_iff.2
      ⟨canRead_of_signature hlinks hcwd hsame, canRead_of_signature hlinks hcwd hsame.symm⟩,
      canWrite_eq_iff_shared hlinks hcwd hsame⟩
  refine ⟨fun P Q hequivalent => hagree P Q (beq_iff_eq.1 hequivalent), fun P network hkind hdirect => ?_⟩
  unfold needsDirectRuntimeEnforcement at hdirect
  rw [hkind] at hdirect
  cases hlegacy : toLegacySandboxPolicy host P cwd network with
  | error =>
    rw [hlegacy] at hdirect
    cases hdirect
  | ok legacy =>
    rw [hlegacy] at hdirect
    refine ⟨legacy, rfl, hagree _ _ ?_⟩
    cases hnames : protectedMetadataNamesNeedDirectRuntimeEnforcement host P cwd legacy with
    | true => simp [hnames] at hdirect
    | false => simpa [hnames] using hdirect

def workspacePolicy : FileSystemSandboxPolicy :=
  ⟨.restricted, [.new (.special .root) .read, .new (.special (.projectRoots none)) .write]⟩

def repositoryHost : Host :=
  { bareHost with isDir := fun path => path == [['w'], ".git".toList] || path == [['w'], ".agents".toList] }

def worktreeHost : Host :=
  { bareHost with
    isDir := fun path => path == [['w'], ".agents".toList]
    isFile := fun path => path == [['w'], ".git".toList]
    pathExists := fun path => path == [['w'], ['g']]
    readToString := fun path => if path == [['w'], ".git".toList] then some "gitdir: g".toList else none }

theorem repository_workspace_bridged :
    needsDirectRuntimeEnforcement repositoryHost workspacePolicy ⟨true, [.normal ['w']]⟩ .restricted = false ∧
    ∃ legacy, toLegacySandboxPolicy repositoryHost workspacePolicy ⟨true, [.normal ['w']]⟩ .restricted = .ok legacy ∧
      ∀ path, canWritePathWithCwd repositoryHost workspacePolicy path ⟨true, [.normal ['w']]⟩ =
        canWritePathWithCwd repositoryHost
          (legacyRuntimeFileSystemPolicyForCwd repositoryHost ⟨true, [.normal ['w']]⟩ legacy) path ⟨true, [.normal ['w']]⟩ := by
  have hdirect : needsDirectRuntimeEnforcement repositoryHost workspacePolicy ⟨true, [.normal ['w']]⟩ .restricted = false := by
    decide +kernel
  obtain ⟨legacy, hlegacy, _, hwrites⟩ :=
    (signature_decides_access_iff repositoryHost bareHost_noSymlinks ⟨true, [.normal ['w']]⟩ rfl).2 workspacePolicy
      .restricted rfl hdirect
  exact ⟨hdirect, legacy, hlegacy, hwrites.2 ⟨fun hfull => absurd hfull (by decide), fun _ => ⟨nofun, nofun⟩⟩⟩

/-- **The legacy runtime protects the git directory of a linked work tree, which the policy leaves open.** -/
theorem worktree_gitdir_open :
    needsDirectRuntimeEnforcement worktreeHost workspacePolicy ⟨true, [.normal ['w']]⟩ .restricted = false ∧
    toLegacySandboxPolicy worktreeHost workspacePolicy ⟨true, [.normal ['w']]⟩ .restricted =
      .ok (.workspaceWrite [] false true true) ∧
    canWritePathWithCwd worktreeHost workspacePolicy (AbsolutePathBuf.toPath [['w'], ['g']]) ⟨true, [.normal ['w']]⟩ = true ∧
    canWritePathWithCwd worktreeHost
      (legacyRuntimeFileSystemPolicyForCwd worktreeHost ⟨true, [.normal ['w']]⟩ (.workspaceWrite [] false true true))
      (AbsolutePathBuf.toPath [['w'], ['g']]) ⟨true, [.normal ['w']]⟩ = false := by
  decide +kernel

end Owc.Permissions
