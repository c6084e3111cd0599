import OpenWebCodex.PermissionsAccess
/-!
# PermissionsRoots — the writable roots handed to platform sandboxes, against the policy

Without links a root is the path of a write entry that is not denied, its read-only parts are the default metadata paths and
the entries below it that are not to be written, and its protected names are the metadata that may not be written.  A root
grants what lies below it outside those parts.  The metadata of a root nested in another is no part of the outer one.
-/
namespace Owc.Permissions

open List AbsolutePathBuf
open Specific (Rule Deepest decided)

section Paths

variable {p base : AbsolutePathBuf}

theorem startsWith_toPath : p.toPath.startsWith base ↔ base <+: p := by
  have hinj : Function.Injective Component.normal := fun _ _ h => Component.normal.inj h
  unfold Path.startsWith toPath
  rw [Bool.true_and, isPrefixOf_iff_prefix, prefix_map_iff_of_injective hinj]

theorem mem_dedupAbsolutePaths (hlinks : host.NoSymlinks) (effective : Bool) :
    p ∈ dedupAbsolutePaths host paths effective ↔ p ∈ paths := by
  have hfold : ∀ paths kept : List AbsolutePathBuf, p ∈ paths.foldl pushUnique kept ↔ p ∈ kept ∨ p ∈ paths := by
    intro paths
    induction paths with
    | nil => simp
    | cons path paths ih =>
      intro kept
      rw [foldl_cons, ih, pushUnique, mem_cons]
      split
      · have hkept : path ∈ kept := contains_iff_mem.1 ‹_›
        grind
      · rw [mem_append, mem_singleton, or_assoc]
  have hmap : paths.map (fun path => if effective then normalizeEffectiveAbsolutePath host path else path) = paths := by
    refine (map_congr_left fun path _ => ?_).trans (map_id paths)
    rw [normalizeEffectiveAbsolutePath_eq hlinks, ite_self]
    rfl
  unfold dedupAbsolutePaths
  rw [hmap, hfold]
  simp

end Paths

/-! ## The roots without links -/

def IsRoot (rules : List ResolvedFileSystemEntry) (root : AbsolutePathBuf) : Prop :=
  (∃ entry ∈ rules, entry.path = root) ∧ decided rules root = some .write

def CarvedOut (rules : List ResolvedFileSystemEntry) (root path : AbsolutePathBuf) : Prop :=
  (∃ entry ∈ rules, entry.path = path) ∧ root <+: path ∧ path ≠ root ∧ decided rules path ≠ some .write

section Rules

variable {rules : List ResolvedFileSystemEntry} {root : AbsolutePathBuf}

theorem IsRoot.deepest (h : IsRoot rules root) : Deepest rules root root := by
  obtain ⟨⟨_, hentry, rfl⟩, _⟩ := h
  exact Specific.deepest_self hentry

theorem exists_write_iff : (∃ entry ∈ rules, entry.access = .write ∧ Writes rules entry.path ∧ entry.path = root) ↔ IsRoot rules root := by
  constructor
  · rintro ⟨entry, hentry, _, hwrites, rfl⟩
    exact ⟨⟨entry, hentry, rfl⟩, hwrites.1⟩
  · intro h
    obtain ⟨entry, hentry, rfl, hwrite⟩ := h.deepest.exists_rule h.2
    exact ⟨entry, hentry, hwrite, (writes_ruled hentry).2 h.2, rfl⟩

theorem exists_not_write_iff (rules : List ResolvedFileSystemEntry) (path : AbsolutePathBuf) :
    (∃ entry ∈ rules, entry.access ≠ .write ∧ ¬ Writes rules entry.path ∧ entry.path = path) ↔
      (∃ entry ∈ rules, entry.path = path) ∧ decided rules path ≠ some .write := by
  constructor
  · rintro ⟨entry, hentry, _, hnot, rfl⟩
    exact ⟨⟨entry, hentry, rfl⟩, fun h => hnot ((writes_ruled hentry).2 h)⟩
  · rintro ⟨⟨entry, hentry, rfl⟩, hnot⟩
    obtain ⟨strong, hstrong, hpath, hdecided, _⟩ := Specific.decided_of_ruled hentry
    refine ⟨strong, hstrong, fun haccess => hnot (haccess ▸ hdecided), fun hwrites => hnot ?_, hpath⟩
    rw [← hpath]
    exact hwrites.1

end Rules

section Host

variable {host : Host} (hlinks : host.NoSymlinks) {policy : FileSystemSandboxPolicy}
  (hfull : policy.hasFullDiskWriteAccess = false) {cwd : Path} {root : AbsolutePathBuf}

def unruledDefaults (host : Host) (policy : FileSystemSandboxPolicy) (cwd : Path) (root : AbsolutePathBuf) :
    List AbsolutePathBuf :=
  (defaultReadOnlySubpathsForWritableRoot host root (fromAbsolutePath host cwd == some root)).filter
    (fun path => !hasExplicitResolvedPathEntry (resolvedEntriesWithCwd host policy cwd) path)

include hfull

theorem mem_writableEntries : root ∈ writableEntries host policy cwd ↔ IsRoot (resolvedEntriesWithCwd host policy cwd) root := by
  rw [← exists_write_iff]
  unfold writableEntries
  simp only [mem_map, mem_filter, FileSystemAccessMode.canWrite, beq_iff_eq]
  refine exists_congr fun entry => ?_
  rw [canWrite_toPath_iff hfull, and_assoc, and_assoc]

include hlinks

omit hfull in
theorem mem_rawWritableRoots
    (h : raw ∈ (writableEntries host policy cwd).filter (fun path => normalizeEffectiveAbsolutePath host path == root)) :
    raw = root := by
  have := (mem_filter.1 h).2
  rwa [normalizeEffectiveAbsolutePath_eq hlinks, beq_iff_eq] at this

omit hfull in
theorem carveout_eq (hraws : ∀ raw ∈ raws, raw = root) (entry : ResolvedFileSystemEntry) :
    carveout host root raws entry = if root <+: entry.path ∧ entry.path ≠ root then some entry.path else none := by
  have hnone : ¬ root <+: entry.path → raws.findSome? (respelled host root entry.path) = none := by
    intro hnot
    refine findSome?_eq_none_iff.2 fun raw hraw => ?_
    have hstrip : stripPrefix entry.path raw = none := by
      rw [hraws raw hraw, stripPrefix, if_neg (by rwa [ isPrefixOf_iff_prefix])]
    rw [respelled, hstrip]
  unfold carveout
  rw [normalizeEffectiveAbsolutePath_eq hlinks]
  by_cases hbelow : root <+: entry.path
  · have hbelow' : root.isPrefixOf entry.path := isPrefixOf_iff_prefix.2 hbelow
    by_cases heq : entry.path = root
    · simp [heq]
    · by_cases hroot : root.isEmpty <;> simp [hroot, heq, hbelow, hbelow']
  have hbelow' : root.isPrefixOf entry.path = false := Bool.eq_false_iff.2 fun h => hbelow ( isPrefixOf_iff_prefix.1 h)
  have heq : entry.path ≠ root := fun h => hbelow (h ▸ prefix_refl _)
  have hroot : root.isEmpty = false := by
    cases root with
    | nil => exact absurd nil_prefix hbelow
    | cons => rfl
  simp [hroot, heq, hbelow, hbelow', hnone hbelow]

theorem mem_readOnlySubpaths : path ∈ (writableRoot host policy cwd root).readOnlySubpaths ↔
      path ∈ unruledDefaults host policy cwd root ∨ CarvedOut (resolvedEntriesWithCwd host policy cwd) root path := by
  have hcodex : ((fromAbsolutePath host cwd).any fun cwd => normalizeEffectiveAbsolutePath host cwd == root) =
      (fromAbsolutePath host cwd == some root) := by
    cases fromAbsolutePath host cwd with
    | none => rfl
    | some => simp [normalizeEffectiveAbsolutePath_eq hlinks]
  have hcarved : ∀ entry, (carveout host root ((writableEntries host policy cwd).filter
      (fun path => normalizeEffectiveAbsolutePath host path == root)) entry = some path) ↔
      entry.path = path ∧ root <+: path ∧ path ≠ root := by
    intro entry
    rw [carveout_eq hlinks fun raw hraw => mem_rawWritableRoots hlinks hraw, Option.ite_none_right_eq_some]
    grind
  unfold writableRoot
  simp only [mem_dedupAbsolutePaths hlinks, mem_append, mem_filterMap, hcodex, hcarved]
  refine or_congr Iff.rfl ?_
  have hnot := exists_not_write_iff (resolvedEntriesWithCwd host policy cwd) path
  simp only [mem_filter, Bool.not_eq_true', ← Bool.not_eq_true, canWrite_toPath_iff hfull]
  constructor
  · rintro ⟨entry, ⟨⟨hentry, haccess⟩, hwrites⟩, hpath, hbelow, hne⟩
    have h := hnot.1 ⟨entry, hentry, by simpa [FileSystemAccessMode.canWrite] using haccess, hwrites, hpath⟩
    exact ⟨h.1, hbelow, hne, h.2⟩
  · rintro ⟨hruled, hbelow, hne, hdecided⟩
    obtain ⟨entry, hentry, haccess, hwrites, hpath⟩ := hnot.2 ⟨hruled, hdecided⟩
    exact ⟨entry, ⟨⟨hentry, by simpa [FileSystemAccessMode.canWrite] using haccess⟩, hwrites⟩, hpath, hbelow, hne⟩

theorem mem_protectedMetadataNames : name ∈ (writableRoot host policy cwd root).protectedMetadataNames ↔
      name ∈ protectedMetadataPathNames ∧ ¬ Writes (resolvedEntriesWithCwd host policy cwd) (root ++ [name]) := by
  unfold writableRoot protectedMetadataNamesForWritableRoot
  rw [mem_filter]
  refine and_congr_right fun hname => ?_
  rw [all_eq_true]
  constructor
  · intro h
    have hroot := h root mem_cons_self
    rwa [Bool.not_eq_true', ← Bool.not_eq_true, join_metadata hname, canWrite_toPath_iff hfull] at hroot
  · intro h raw hraw
    have heq : raw = root := (mem_cons.1 hraw).elim id (mem_rawWritableRoots hlinks)
    rwa [heq, Bool.not_eq_true', ← Bool.not_eq_true, join_metadata hname, canWrite_toPath_iff hfull]

theorem pathContainsProtectedMetadataName_iff {p : AbsolutePathBuf} :
    (writableRoot host policy cwd root).pathContainsProtectedMetadataName p.toPath ↔
      ∃ name ∈ protectedMetadataPathNames, root ++ [name] <+: p ∧
        ¬ Writes (resolvedEntriesWithCwd host policy cwd) (root ++ [name]) := by
  have hroot : (writableRoot host policy cwd root).root = root := rfl
  unfold WritableRoot.pathContainsProtectedMetadataName
  rw [hroot]
  by_cases hbelow : root <+: p
  · obtain ⟨rest, rfl⟩ := hbelow
    rw [if_pos (startsWith_toPath.2 (prefix_append root rest))]
    have hdrop : ((root ++ rest : AbsolutePathBuf).toPath.components.drop root.length) = rest.map .normal := by
      show ((root ++ rest).map Component.normal).drop root.length = _
      rw [map_append, drop_append_of_le_length (by simp), drop_eq_nil_of_le (by simp), nil_append]
    rw [hdrop]
    cases rest with
    | nil =>
      refine iff_of_false nofun ?_
      rintro ⟨name, _, hpre, _⟩
      rw [append_nil] at hpre
      exact concat_not_above root name hpre
    | cons first rest =>
      show (writableRoot host policy cwd root).protectedMetadataNames.any (· == first) ↔ _
      rw [any_eq_true]
      constructor
      · rintro ⟨name, hname, heq⟩
        obtain ⟨hmem, hwrites⟩ := (mem_protectedMetadataNames hlinks hfull).1 hname
        rw [beq_iff_eq] at heq
        exact ⟨name, hmem, ⟨rest, by rw [heq, append_assoc, singleton_append]⟩, hwrites⟩
      · rintro ⟨name, hmem, ⟨tail, htail⟩, hwrites⟩
        rw [append_assoc, append_right_inj, singleton_append, cons.injEq] at htail
        exact ⟨name, (mem_protectedMetadataNames hlinks hfull).2 ⟨hmem, hwrites⟩, by simp [htail.1]⟩
  · rw [if_neg (mt startsWith_toPath.1 hbelow)]
    refine iff_of_false nofun ?_
    rintro ⟨name, _, hpre, _⟩
    exact hbelow ((prefix_append _ _).trans hpre)

theorem isPathWritable_iff {p : AbsolutePathBuf} : (writableRoot host policy cwd root).isPathWritable p.toPath ↔
      root <+: p ∧ (∀ path ∈ unruledDefaults host policy cwd root, ¬ path <+: p) ∧
      (∀ path, CarvedOut (resolvedEntriesWithCwd host policy cwd) root path → ¬ path <+: p) ∧
      ∀ name ∈ protectedMetadataPathNames, root ++ [name] <+: p →
        Writes (resolvedEntriesWithCwd host policy cwd) (root ++ [name]) := by
  unfold WritableRoot.isPathWritable
  rw [Bool.and_eq_true, Bool.and_eq_true, startsWith_toPath, Bool.not_eq_true', Bool.not_eq_true', any_eq_false,
    ← Bool.not_eq_true, pathContainsProtectedMetadataName_iff hlinks hfull]
  simp only [mem_readOnlySubpaths hlinks hfull, startsWith_toPath, or_imp, forall_and, not_exists, not_and, not_not, and_assoc]
  rfl

theorem mem_getWritableRoots : writable ∈ getWritableRootsWithCwd host policy cwd ↔
      ∃ root, IsRoot (resolvedEntriesWithCwd host policy cwd) root ∧ writableRoot host policy cwd root = writable := by
  unfold getWritableRootsWithCwd
  rw [hfull]
  simp only [Bool.false_eq_true, if_false, mem_map, mem_dedupAbsolutePaths hlinks, mem_writableEntries hfull]

end Host

/-- The metadata of a root nested in another that may not be written is no part of what the outer root grants: it lies in a
carve-out of the outer root, in one of its default read-only paths, or in metadata of the outer root that is denied. -/
def NestedRootsCovered (host : Host) (policy : FileSystemSandboxPolicy) (cwd : Path) : Prop :=
  ∀ outer ∈ resolvedEntriesWithCwd host policy cwd, decided (resolvedEntriesWithCwd host policy cwd) outer.path = some .write →
  ∀ inner ∈ resolvedEntriesWithCwd host policy cwd, decided (resolvedEntriesWithCwd host policy cwd) inner.path = some .write →
    outer.path <+: inner.path → outer.path ≠ inner.path → ∀ name ∈ protectedMetadataPathNames,
      metadataDenied (resolvedEntriesWithCwd host policy cwd) (inner.path ++ [name]) = true →
      (∃ entry ∈ resolvedEntriesWithCwd host policy cwd, outer.path <+: entry.path ∧ entry.path ≠ outer.path ∧
        entry.path <+: inner.path ++ [name] ∧ decided (resolvedEntriesWithCwd host policy cwd) entry.path ≠ some .write) ∨
      (∃ path ∈ unruledDefaults host policy cwd outer.path, path <+: inner.path ++ [name]) ∨
      ∃ guard ∈ protectedMetadataPathNames, outer.path ++ [guard] <+: inner.path ∧
        metadataDenied (resolvedEntriesWithCwd host policy cwd) (outer.path ++ [guard]) = true

section Within

variable {host : Host} (hlinks : host.NoSymlinks) {policy : FileSystemSandboxPolicy}
  (hfull : policy.hasFullDiskWriteAccess = false) {cwd : Path} {root p : AbsolutePathBuf}
include hlinks hfull

theorem exists_deepest_of_granted (hroot : IsRoot (resolvedEntriesWithCwd host policy cwd) root)
    (hgrant : (writableRoot host policy cwd root).isPathWritable p.toPath) :
    ∃ q, Deepest (resolvedEntriesWithCwd host policy cwd) q p ∧ root <+: q ∧
      decided (resolvedEntriesWithCwd host policy cwd) q = some .write := by
  obtain ⟨hbelow, _, hcarved, _⟩ := (isPathWritable_iff hlinks hfull).1 hgrant
  obtain ⟨entry, hentry, rfl⟩ := hroot.1
  obtain ⟨q, hdeepest, hq⟩ := Specific.exists_deepest hentry hbelow
  refine ⟨q, hdeepest, hq, ?_⟩
  by_contra hwrite
  have hne : q ≠ entry.path := fun h => hwrite (h ▸ hroot.2)
  exact hcarved q ⟨hdeepest.ruled, hq, hne, hwrite⟩ hdeepest.above

theorem writes_of_granted (hcovered : NestedRootsCovered host policy cwd)
    (hroot : IsRoot (resolvedEntriesWithCwd host policy cwd) root)
    (hgrant : (writableRoot host policy cwd root).isPathWritable p.toPath) :
    Writes (resolvedEntriesWithCwd host policy cwd) p := by
  obtain ⟨q, hdeepest, hq, hwrite⟩ := exists_deepest_of_granted hlinks hfull hroot hgrant
  obtain ⟨hbelow, hdefaults, hcarved, hnames⟩ := (isPathWritable_iff hlinks hfull).1 hgrant
  refine writes_iff.2 ⟨q, hdeepest, hwrite, fun name hname hpre => ?_⟩
  by_cases heq : root = q
  · subst heq
    exact hnames name hname hpre
  -- a nested root: its metadata is denied only where the outer root does not grant it
  obtain ⟨outer, houter, rfl⟩ := hroot.1
  obtain ⟨inner, hinner, rfl⟩ := hdeepest.ruled
  refine ⟨(hdeepest.mid (prefix_append _ [name]) hpre).decided_eq.trans hwrite, Bool.eq_false_iff.2 fun hdenied => ?_⟩
  rcases hcovered outer houter hroot.2 inner hinner hwrite hq heq name hname hdenied with
    ⟨entry, hentry, hentryBelow, hne, hentryAbove, hnot⟩ | ⟨path, hpath, habove⟩ | ⟨guard, hguard, hguardAbove, hguardDenied⟩
  · exact hcarved entry.path ⟨⟨entry, hentry, rfl⟩, hentryBelow, hne, hnot⟩ (hentryAbove.trans hpre)
  · exact hdefaults path hpath (habove.trans hpre)
  · have := hnames guard hguard (hguardAbove.trans (hdeepest.above))
    cases this.2.symm.trans hguardDenied

end Within

/-- **The writable roots grant no more than the policy exactly where the metadata of nested roots is covered.** -/
theorem writable_roots_within_policy_iff (host : Host) (hlinks : host.NoSymlinks) (policy : FileSystemSandboxPolicy)
    (hfull : policy.hasFullDiskWriteAccess = false) (cwd : Path) :
    (∀ p : AbsolutePathBuf, (∃ root ∈ getWritableRootsWithCwd host policy cwd, root.isPathWritable p.toPath = true) →
      canWritePathWithCwd host policy p.toPath cwd = true) ↔ NestedRootsCovered host policy cwd := by
  constructor
  · intro hwithin outer houter houterWrite inner hinner hinnerWrite hnested hne name hname hdenied
    by_contra hnot
    rw [not_or, not_or] at hnot
    obtain ⟨hcarved, hdefaults, hguards⟩ := hnot
    have hpre := prefix_append inner.path [name]
    have hgrant : (writableRoot host policy cwd outer.path).isPathWritable
        (toPath (inner.path ++ [name])) = true := by
      refine (isPathWritable_iff hlinks hfull).2 ⟨hnested.trans hpre, ?_, ?_, ?_⟩
      · exact fun path hpath habove => hdefaults ⟨path, hpath, habove⟩
      · rintro path ⟨⟨entry, hentry, rfl⟩, hbelow, hpathNe, hpathNot⟩ habove
        exact hcarved ⟨entry, hentry, hbelow, hpathNe, habove, hpathNot⟩
      · intro guard hguard habove
        have hguardInner := (prefix_concat_iff hnested hne hpre).1 habove
        obtain ⟨q, hdeepest, hq⟩ := Specific.exists_deepest houter (prefix_append outer.path [guard])
        refine ⟨?_, Bool.eq_false_iff.2 fun h => hguards ⟨guard, hguard, hguardInner, h⟩⟩
        rw [hdeepest.decided_eq]
        by_contra hnotWrite
        obtain ⟨entry, hentry, rfl⟩ := hdeepest.ruled
        have hentryNe : entry.path ≠ outer.path := fun h => hnotWrite (h ▸ houterWrite)
        exact hcarved ⟨entry, hentry, hq, hentryNe, hdeepest.above.trans (hguardInner.trans hpre), hnotWrite⟩
    have hwrites := (canWrite_toPath_iff hfull _).1 (hwithin _ ⟨_, (mem_getWritableRoots hlinks hfull).2
      ⟨outer.path, ⟨⟨outer, houter, rfl⟩, houterWrite⟩, rfl⟩, hgrant⟩)
    cases hwrites.2.symm.trans hdenied
  · rintro hcovered p ⟨writable, hwritable, hgrant⟩
    obtain ⟨_, hroot, rfl⟩ := (mem_getWritableRoots hlinks hfull).1 hwritable
    exact (canWrite_toPath_iff hfull p).2 (writes_of_granted hlinks hfull hcovered hroot hgrant)

instance (host : Host) (policy : FileSystemSandboxPolicy) (cwd : Path) : Decidable (NestedRootsCovered host policy cwd) := by
  unfold NestedRootsCovered
  infer_instance

def coveredPolicy : FileSystemSandboxPolicy :=
  ⟨.restricted, [.new (.path [['w']]) .write, .new (.path [['w'], ['s']]) .write,
    .new (.path [['w'], ['s'], ".git".toList]) .read, .new (.path [['w'], ['s'], ".agents".toList]) .read, .new (.path [['w'], ['s'], ".codex".toList]) .read]⟩

theorem covered_package_within_policy : (∃ root ∈ getWritableRootsWithCwd bareHost coveredPolicy ⟨true, []⟩,
      root.isPathWritable (toPath [['w'], ['s'], ['f']]) = true) ∧
    canWritePathWithCwd bareHost coveredPolicy (toPath [['w'], ['s'], ['f']]) ⟨true, []⟩ = true := by
  have hgranted : ∃ root ∈ getWritableRootsWithCwd bareHost coveredPolicy ⟨true, []⟩,
      root.isPathWritable (toPath [['w'], ['s'], ['f']]) = true := by decide
  exact ⟨hgranted, (writable_roots_within_policy_iff bareHost bareHost_noSymlinks coveredPolicy (by decide) ⟨true, []⟩).2
    (by decide) _ hgranted⟩

def nestedPolicy : FileSystemSandboxPolicy :=
  ⟨.restricted, [.new (.path [['w']]) .write, .new (.path [['w'], ['s']]) .write]⟩

/-- **The outer root grants the `.git` of a root nested in it**, which the policy denies. -/
theorem nested_metadata_granted : (∃ root ∈ getWritableRootsWithCwd bareHost nestedPolicy ⟨true, []⟩,
      root.isPathWritable (toPath [['w'], ['s'], ".git".toList]) = true) ∧
    canWritePathWithCwd bareHost nestedPolicy (toPath [['w'], ['s'], ".git".toList]) ⟨true, []⟩ = false := by
  decide

end Owc.Permissions
