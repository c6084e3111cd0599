import OpenWebCodex.PermissionsLegacy
import OpenWebCodex.PermissionsRoots
/-!
# PermissionsSignature — what equal signatures say of two policies

A signature lists the roots of a policy and their parts.  Equal signatures fix what may be read, and what may be written up
to the directory that a `.git` file of a root points to: it is read-only in the roots by default, and read-only in the policy
only if an entry names it.  A policy with full-disk access writes everywhere but below a `/tmp` that is missing.
-/
namespace Owc.Permissions

open List FileSystemAccessMode
open Specific (Rule Deepest decided)

/-! ## Reading off a signature -/

theorem mem_dedupRuns {α : Type} [DecidableEq α] (x : α) (items : List α) : x ∈ dedupRuns items ↔ x ∈ items := by
  fun_induction dedupRuns items <;> simp_all

variable {path : AbsolutePathBuf}

theorem mem_sortedAbsolutePaths : path ∈ sortedAbsolutePaths paths ↔ path ∈ paths :=
  mem_insertionSort _

theorem mem_sortedWritableRoots :
    root ∈ sortedWritableRoots roots ↔ ∃ writable ∈ roots, writable.sorted = root := by
  unfold sortedWritableRoots
  rw [mem_insertionSort, mem_map]

theorem mem_sorted_readOnlySubpaths {root : WritableRoot} :
    path ∈ root.sorted.readOnlySubpaths ↔ path ∈ root.readOnlySubpaths :=
  mem_sortedAbsolutePaths

theorem mem_sorted_protectedMetadataNames {root : WritableRoot} :
    name ∈ root.sorted.protectedMetadataNames ↔ name ∈ root.protectedMetadataNames := by
  unfold WritableRoot.sorted
  rw [mem_dedupRuns, mem_insertionSort]

/-! ## Writing, without full-disk access -/

def gitdirOf (host : Host) (root : AbsolutePathBuf) : Option AbsolutePathBuf :=
  let topLevelGit := root ++ [".git".toList]
  if host.isFile topLevelGit then resolveGitdirFromFile host topLevelGit else none

theorem mem_defaultReadOnlySubpaths (hlinks : host.NoSymlinks)
    (h : path ∈ defaultReadOnlySubpathsForWritableRoot host root codex) :
    gitdirOf host root = some path ∨ ∃ name ∈ protectedMetadataPathNames, path = root ++ [name] := by
  unfold defaultReadOnlySubpathsForWritableRoot at h
  simp only [mem_dedupAbsolutePaths hlinks, mem_append] at h
  rw [join_metadata (by decide), join_metadata (by decide), join_metadata (by decide)] at h
  simp only [mem_ite_nil_right, mem_append, mem_singleton, Option.mem_toList] at h
  rcases h with (⟨_, h | h⟩ | ⟨_, h⟩) | ⟨_, h⟩
  · obtain ⟨hfile, hgitdir⟩ := Option.ite_none_right_eq_some.1 h
    exact .inl ((if_pos (Bool.and_eq_true_iff.1 hfile).1).trans hgitdir)
  all_goals exact .inr ⟨_, by decide, h⟩

/-- Where the `.git` file of a root points to a directory strictly below the root, and no entry of `rules` comes closer to
that directory and no metadata rule denies it, no entry of `others` is for that directory. -/
def GitdirsUnruled (host : Host) (rules others : List ResolvedFileSystemEntry) : Prop :=
  ∀ root gitdir, IsRoot rules root → gitdirOf host root = some gitdir → gitdir ≠ root → Deepest rules root gitdir →
    metadataDenied rules gitdir = false → ∀ entry ∈ others, entry.path ≠ gitdir

section Writable

variable {host : Host} (hlinks : host.NoSymlinks) {cwd : Path} {P Q : FileSystemSandboxPolicy}
  (hP : P.hasFullDiskWriteAccess = false) (hQ : Q.hasFullDiskWriteAccess = false)
  (hroots : sortedWritableRoots (getWritableRootsWithCwd host P cwd) = sortedWritableRoots (getWritableRootsWithCwd host Q cwd))
include hlinks hP hQ hroots

section

variable {root : AbsolutePathBuf} (hroot : IsRoot (resolvedEntriesWithCwd host P cwd) root)
include hroot

theorem sorted_root_eq : IsRoot (resolvedEntriesWithCwd host Q cwd) root ∧
      (writableRoot host P cwd root).sorted = (writableRoot host Q cwd root).sorted := by
  have hmem := mem_sortedWritableRoots.2 ⟨_, (mem_getWritableRoots hlinks hP).2 ⟨root, hroot, rfl⟩, rfl⟩
  rw [hroots] at hmem
  obtain ⟨_, hwritable, hsorted⟩ := mem_sortedWritableRoots.1 hmem
  obtain ⟨root', hroot', rfl⟩ := (mem_getWritableRoots hlinks hQ).1 hwritable
  have hsame : root' = root := congrArg WritableRoot.root hsorted
  subst hsame
  exact ⟨hroot', hsorted.symm⟩

theorem names_agree {name : Str} (hname : name ∈ protectedMetadataPathNames)
    (hwrites : Writes (resolvedEntriesWithCwd host P cwd) (root ++ [name])) :
    Writes (resolvedEntriesWithCwd host Q cwd) (root ++ [name]) := by
  have hsorted := (sorted_root_eq hlinks hP hQ hroots hroot).2
  by_contra hnot
  have hmem := (mem_protectedMetadataNames hlinks hQ).2 ⟨hname, hnot⟩
  rw [← mem_sorted_protectedMetadataNames, ← hsorted, mem_sorted_protectedMetadataNames] at hmem
  exact ((mem_protectedMetadataNames hlinks hP).1 hmem).2 hwrites

theorem carvedOut_agree {path : AbsolutePathBuf} (hcarved : CarvedOut (resolvedEntriesWithCwd host Q cwd) root path) :
    path ∈ unruledDefaults host P cwd root ∨ CarvedOut (resolvedEntriesWithCwd host P cwd) root path := by
  have hsorted := (sorted_root_eq hlinks hP hQ hroots hroot).2
  have hmem := (mem_readOnlySubpaths hlinks hQ).2 (.inr hcarved)
  rw [← mem_sorted_readOnlySubpaths, ← hsorted, mem_sorted_readOnlySubpaths] at hmem
  exact (mem_readOnlySubpaths hlinks hP).1 hmem

end

/-- **What one policy writes the other writes**, if no entry of the other is for a `.git` target the first leaves open. -/
theorem writes_agree (hgitdirs : GitdirsUnruled host (resolvedEntriesWithCwd host P cwd) (resolvedEntriesWithCwd host Q cwd))
 (h : Writes (resolvedEntriesWithCwd host P cwd) p) : Writes (resolvedEntriesWithCwd host Q cwd) p := by
  obtain ⟨q, hdeepest, hwrite, hnames⟩ := writes_iff.1 h
  have hrootP := (⟨hdeepest.ruled, hwrite⟩ : IsRoot _ _)
  have hrootQ := (sorted_root_eq hlinks hP hQ hroots hrootP).1
  obtain ⟨entry, hentry, hentryPath⟩ := hrootQ.1
  obtain ⟨deep, hdeep, hqdeep⟩ := Specific.exists_deepest hentry (hentryPath ▸ hdeepest.above)
  rw [hentryPath] at hqdeep
  by_cases heq : deep = q
  · subst heq
    exact writes_iff.2 ⟨deep, hdeep, hrootQ.2, fun name hname hpre => names_agree hlinks hP hQ hroots hrootP hname (hnames name hname hpre)⟩
  -- an entry of the other policy is deeper: it is no root, or the first policy would have it too
  exfalso
  have hnotP : ¬ ∃ entry ∈ resolvedEntriesWithCwd host P cwd, entry.path = deep := by
    rintro ⟨deeper, hdeeper, rfl⟩
    exact heq (antisymm (hdeepest.deepest deeper hdeeper hdeep.above) hqdeep)
  have hnotWrite : decided (resolvedEntriesWithCwd host Q cwd) deep ≠ some .write := fun hdeepWrite =>
    hnotP (sorted_root_eq hlinks hQ hP hroots.symm ⟨hdeep.ruled, hdeepWrite⟩).1.1
  rcases carvedOut_agree hlinks hP hQ hroots hrootP ⟨hdeep.ruled, hqdeep, heq, hnotWrite⟩ with hdefault | hcarved
  · rcases mem_defaultReadOnlySubpaths hlinks (mem_of_mem_filter hdefault) with hgitdir | ⟨name, hname, rfl⟩
    · obtain ⟨rule, hrule, hrulePath⟩ := hdeep.ruled
      have hmid := hdeepest.mid hqdeep hdeep.above
      refine hgitdirs q deep hrootP hgitdir heq hmid (Bool.eq_false_iff.2 fun hdenied => ?_) rule hrule hrulePath
      obtain ⟨name, hname, hpre, hnameDenied⟩ := (metadataDenied_deepest hmid hwrite).1 hdenied
      cases (hnames name hname (hpre.trans hdeep.above)).2.symm.trans hnameDenied
    · exact hnotWrite (names_agree hlinks hP hQ hroots hrootP hname (hnames name hname hdeep.above)).1
  · exact hnotP hcarved.1

/-- **Where both write the same, the other has no entry for a `.git` target the first leaves open.** -/
theorem gitdirsUnruled_of_agree
    (hagree : ∀ p, Writes (resolvedEntriesWithCwd host P cwd) p → Writes (resolvedEntriesWithCwd host Q cwd) p) :
    GitdirsUnruled host (resolvedEntriesWithCwd host P cwd) (resolvedEntriesWithCwd host Q cwd) := by
  rintro root gitdir hroot hgitdir hne hdeepest hdenied entry hentry rfl
  have hwrites := hagree _ ⟨hdeepest.decided_eq.trans hroot.2, hdenied⟩
  obtain ⟨rule, hrule, hpath⟩ := (sorted_root_eq hlinks hQ hP hroots.symm ⟨⟨entry, hentry, rfl⟩, hwrites.1⟩).1.1
  have hback := hdeepest.deepest rule hrule (hpath ▸ prefix_refl _)
  rw [hpath] at hback
  exact hne (antisymm hback hdeepest.above)

end Writable

/-! ## Reading -/

def Readable (rules : List ResolvedFileSystemEntry) (p : AbsolutePathBuf) : Prop :=
  ∃ mode, decided rules p = some mode ∧ mode ≠ .deny

theorem getD_canRead_iff (mode : Option FileSystemAccessMode) :
    (mode.getD .deny).canRead ↔ ∃ m, mode = some m ∧ m ≠ .deny := by
  rcases mode with _ | _ | _ | _ <;> simp [canRead]

section Readable

variable {host : Host} {policy : FileSystemSandboxPolicy} {cwd : Path}

theorem canRead_iff (hkind : policy.kind = .restricted) (path : Path) : canReadPathWithCwd host policy path cwd ↔
      ∃ p, resolveCandidatePath host path cwd = some p ∧ Readable (resolvedEntriesWithCwd host policy cwd) p := by
  unfold canReadPathWithCwd Readable
  rw [resolveAccess_eq hkind]
  cases resolveCandidatePath host path cwd with
  | none => simp [canRead]
  | some => simp only [Option.some.injEq, exists_eq_left', getD_canRead_iff]

theorem canRead_toPath_iff (hkind : policy.kind = .restricted) (p : AbsolutePathBuf) :
    canReadPathWithCwd host policy p.toPath cwd ↔ Readable (resolvedEntriesWithCwd host policy cwd) p := by
  simp [canRead_iff hkind, resolveCandidatePath_toPath]

theorem kind_of_not_full_read (h : policy.hasFullDiskReadAccess = false) : policy.kind = .restricted := by
  cases hkind : policy.kind <;> simp_all [FileSystemSandboxPolicy.hasFullDiskReadAccess]

variable (hlinks : host.NoSymlinks) (hfull : policy.hasFullDiskReadAccess = false)
include hlinks hfull

theorem mem_getReadableRoots : path ∈ getReadableRootsWithCwd host policy cwd ↔
      (∃ entry ∈ resolvedEntriesWithCwd host policy cwd, entry.path = path) ∧
        Readable (resolvedEntriesWithCwd host policy cwd) path := by
  unfold getReadableRootsWithCwd
  rw [hfull]
  simp only [Bool.false_eq_true, if_false, mem_dedupAbsolutePaths hlinks, mem_map, mem_filter,
    canRead_toPath_iff (kind_of_not_full_read hfull)]
  constructor
  · rintro ⟨entry, ⟨⟨hentry, _⟩, hreadable⟩, rfl⟩
    exact ⟨⟨entry, hentry, rfl⟩, hreadable⟩
  · rintro ⟨⟨entry, hentry, rfl⟩, mode, hdecided, hmode⟩
    obtain ⟨rule, hrule, hpath, haccess⟩ := (Specific.deepest_self hentry).exists_rule hdecided
    refine ⟨rule, ⟨⟨hrule, ?_⟩, ?_⟩, hpath⟩
    · simpa [canRead, haccess] using hmode
    · exact hpath ▸ ⟨mode, hdecided, hmode⟩

theorem mem_getUnreadableRoots (hcwd : (fromAbsolutePath host cwd).isSome) :
    path ∈ getUnreadableRootsWithCwd host policy cwd ↔ (∃ entry ∈ resolvedEntriesWithCwd host policy cwd, entry.path = path) ∧
        ¬ Readable (resolvedEntriesWithCwd host policy cwd) path ∧ path ≠ [] := by
  have hkind := kind_of_not_full_read hfull
  obtain ⟨absolute, habsolute⟩ := Option.isSome_iff_exists.1 hcwd
  have hrestricted : (policy.kind != .restricted) = false := by rw [hkind]; rfl
  unfold getUnreadableRootsWithCwd
  rw [hrestricted, habsolute]
  simp only [Bool.false_eq_true, if_false, mem_dedupAbsolutePaths hlinks, mem_map, mem_filter, beq_iff_eq,
    Bool.not_eq_true', ← Bool.not_eq_true, canRead_toPath_iff hkind, Option.map_some, bne_iff_ne, ne_eq, Option.some.injEq]
  constructor
  · rintro ⟨entry, ⟨⟨⟨hentry, _⟩, hreadable⟩, hroot⟩, rfl⟩
    exact ⟨⟨entry, hentry, rfl⟩, hreadable, fun h => hroot h.symm⟩
  · rintro ⟨⟨entry, hentry, rfl⟩, hreadable, hroot⟩
    obtain ⟨rule, hrule, hpath, hdecided, _⟩ := Specific.decided_of_ruled hentry
    have hdeny : rule.access = .deny := not_not.1 fun hmode => hreadable ⟨rule.access, hdecided, hmode⟩
    exact ⟨rule, ⟨⟨⟨hrule, hdeny⟩, hpath ▸ hreadable⟩, fun h => hroot (hpath ▸ h.symm)⟩, hpath⟩

end Readable

/-- What one policy reads the other reads, where their readable and unreadable roots are the same. -/
theorem readable_agree {rules others : List ResolvedFileSystemEntry}
    (hreadable : ∀ path, (∃ entry ∈ rules, entry.path = path) ∧ Readable rules path →
      (∃ entry ∈ others, entry.path = path) ∧ Readable others path)
    (hunreadable : ∀ path, (∃ entry ∈ others, entry.path = path) ∧ ¬ Readable others path ∧ path ≠ [] →
      ∃ entry ∈ rules, entry.path = path)
 (h : Readable rules p) : Readable others p := by
  obtain ⟨mode, hdecided, hmode⟩ := h
  obtain ⟨q, hdeepest, hq, _⟩ := Specific.exists_deepest_of_decided hdecided
  obtain ⟨⟨entry, hentry, hentryPath⟩, hother⟩ := hreadable q ⟨hdeepest.ruled, mode, hq, hmode⟩
  obtain ⟨deep, hdeep, hqdeep⟩ := Specific.exists_deepest hentry (hentryPath ▸ hdeepest.above)
  rw [hentryPath] at hqdeep
  unfold Readable
  rw [hdeep.decided_eq]
  by_cases heq : deep = q
  · subst heq
    exact hother
  by_contra hnot
  have hne : deep ≠ [] := fun hnil => heq (hnil.trans (prefix_nil.1 (hnil ▸ hqdeep)).symm)
  obtain ⟨rule, hrule, hpath⟩ := hunreadable deep ⟨hdeep.ruled, hnot, hne⟩
  have hback := hdeepest.deepest rule hrule (hpath ▸ hdeep.above)
  rw [hpath] at hback
  exact heq (antisymm hback hqdeep)

end Owc.Permissions
