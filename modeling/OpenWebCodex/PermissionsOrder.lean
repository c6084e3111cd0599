import OpenWebCodex.PermissionsAccess
/-!
# PermissionsOrder — access against the order of a policy's entries

The most specific entry decides whatever the order.  The metadata rule asks the first write entry of the list that has the
path in its metadata; where one write entry lies in the metadata of another, the order decides which one is asked.
-/
namespace Owc.Permissions

open List FileSystemSandboxPolicy Bool
open Specific (Rule Deepest decided)

/-! ## On resolved entries -/

section Rules

variable {rules : List ResolvedFileSystemEntry} {p q : AbsolutePathBuf}

/-- Some write entry has `p` in its metadata, and no write entry there covers it. -/
def Guarded (rules : List ResolvedFileSystemEntry) (p : AbsolutePathBuf) : Prop :=
  ∃ entry ∈ rules, entry.access = .write ∧ ∃ name ∈ protectedMetadataPathNames,
    entry.path ++ [name] <+: p ∧ opened rules (entry.path ++ [name]) p = false

/-- A write entry in the metadata of a write entry has entries for its own metadata, or is denied at its path. -/
def NestedMetadataRuled (rules : List ResolvedFileSystemEntry) : Prop :=
  ∀ entry ∈ rules, entry.access = .write → ∀ outer ∈ rules, outer.access = .write →
    ∀ guard ∈ protectedMetadataPathNames, outer.path ++ [guard] <+: entry.path → ∀ name ∈ protectedMetadataPathNames,
      (∃ r ∈ rules, r.path = entry.path ++ [name]) ∨ ∃ r ∈ rules, r.path = entry.path ∧ r.access = .deny

theorem guarded_of_metadataDenied (h : metadataDenied rules p) : Guarded rules p := by
  obtain ⟨_, hguard, hopened⟩ := metadataDenied_iff.1 h
  obtain ⟨entry, hentry, hwrite, name, hname, rfl, hpre⟩ := guardOf_eq_some hguard
  exact ⟨entry, hentry, hwrite, name, hname, hpre, hopened⟩

theorem exists_guardOf (hentry : entry ∈ rules) (hwrite : entry.access = .write)
    (hname : name ∈ protectedMetadataPathNames) (hpre : entry.path ++ [name] <+: p) : ∃ guard, guardOf rules p = some guard := by
  refine Option.isSome_iff_exists.1 (findSome?_isSome_iff.2 ⟨entry, mem_filter.2 ⟨hentry, ?_⟩, ?_⟩)
  · simp [hwrite, FileSystemAccessMode.canWrite]
  · rw [metadataDir_eq_some.2 ⟨name, hname, rfl, hpre⟩]
    rfl

/-- **Where nested metadata is ruled, the first write entry asked answers for all.** -/
theorem metadataDenied_of_guarded (hruled : NestedMetadataRuled rules) (hdecided : decided rules p = some .write)
    (h : Guarded rules p) : metadataDenied rules p := by
  obtain ⟨entry, hentry, hwrite, name, hname, hpre, hopened⟩ := h
  obtain ⟨guard, hguard⟩ := exists_guardOf hentry hwrite hname hpre
  refine metadataDenied_iff.2 ⟨guard, hguard, ?_⟩
  obtain ⟨first, hfirst, hfirstWrite, firstName, hfirstName, rfl, hfirstPrefix⟩ := guardOf_eq_some hguard
  obtain ⟨q, hdeepest, hq, _⟩ := Specific.exists_deepest_of_decided hdecided
  have hentryq := eq_deepest_of_not_opened hdeepest hq hentry hpre hopened
  by_cases heq : first.path = q
  · -- the same entry, so the same directory
    have hsame : first.path ++ [firstName] = entry.path ++ [name] := by
      refine (prefix_of_prefix_length_le hfirstPrefix hpre ?_).eq_of_length ?_ <;> simp [heq, hentryq]
    rw [hsame]
    exact hopened
  · -- the deepest entry would lie in the metadata of the first one
    have hfirstq := hdeepest.deepest first hfirst ((prefix_append _ _).trans hfirstPrefix)
    have hnested := (prefix_concat_iff hfirstq heq hdeepest.above).1 hfirstPrefix
    rw [← hentryq] at hnested hdeepest hq
    rcases hruled entry hentry hwrite first hfirst hfirstWrite firstName hfirstName hnested name hname with
      ⟨r, hr, hpath⟩ | ⟨r, hr, hpath, hdeny⟩
    · exact absurd (hpath ▸ hdeepest.deepest r hr (hpath ▸ hpre)) (concat_not_above _ _)
    · obtain ⟨s, hs, _, hsdecided, hmax⟩ := Specific.decided_of_ruled hentry
      have hle := hmax r hr hpath
      rw [hdeny, Option.some.inj (hsdecided.symm.trans hq)] at hle
      exact absurd hle (by decide)

variable {rules' : List ResolvedFileSystemEntry}

theorem Guarded.perm (hperm : rules.Perm rules') (h : Guarded rules p) : Guarded rules' p := by
  obtain ⟨entry, hentry, hwrite, name, hname, hpre, hopened⟩ := h
  exact ⟨entry, hperm.mem_iff.1 hentry, hwrite, name, hname, hpre, hperm.any_eq.symm.trans hopened⟩

theorem NestedMetadataRuled.perm (hperm : rules.Perm rules') (h : NestedMetadataRuled rules) : NestedMetadataRuled rules' := by
  unfold NestedMetadataRuled at h ⊢
  simpa only [hperm.mem_iff] using h

theorem Writes.perm (hperm : rules.Perm rules') (hruled : NestedMetadataRuled rules)
    (h : Writes rules p) : Writes rules' p := by
  refine ⟨(Specific.decided_perm hperm p).symm.trans h.1, eq_false_iff.2 fun hdenied => ?_⟩
  have hguarded := (guarded_of_metadataDenied hdenied).perm hperm.symm
  cases h.2.symm.trans (metadataDenied_of_guarded hruled h.1 hguarded)

theorem guardOf_cons (hwrite : entry.access = .write)
    (hname : name ∈ protectedMetadataPathNames) (hpre : entry.path ++ [name] <+: p) :
    guardOf (entry :: rules) p = some (entry.path ++ [name]) := by
  have hdir := metadataDir_eq_some.2 ⟨name, hname, rfl, hpre⟩
  unfold guardOf
  rw [filter_cons_of_pos (by simp [hwrite, FileSystemAccessMode.canWrite]), findSome?_cons, hdir]

section Nested

variable {entry outer : ResolvedFileSystemEntry} {guard name : Str}

theorem decided_free_metadata (hentry : entry ∈ rules) (hwrite : entry.access = .write)
    (hfree : ¬ ((∃ r ∈ rules, r.path = entry.path ++ [name]) ∨ ∃ r ∈ rules, r.path = entry.path ∧ r.access = .deny)) :
    decided rules (entry.path ++ [name]) = some .write := by
  have hdeepest : Deepest rules entry.path (entry.path ++ [name]) := by
    refine ⟨prefix_append _ _, ⟨entry, hentry, rfl⟩, fun r hr hpre => ?_⟩
    rcases List.prefix_concat_iff.1 hpre with h | h
    · exact absurd (.inl ⟨r, hr, h⟩) hfree
    · exact h
  rw [hdeepest.decided_eq]
  obtain ⟨s, hs, hpath, hdecided, hmax⟩ := Specific.decided_of_ruled hentry
  have hle := hmax entry hentry rfl
  rw [hdecided]
  cases hsa : s.access with
  | read =>
    rw [hwrite, hsa] at hle
    exact absurd hle (by decide)
  | write => rfl
  | deny => exact absurd (.inr ⟨s, hs, hpath, hsa⟩) hfree

theorem metadataDenied_inner_first (hwrite : entry.access = .write) (hname : name ∈ protectedMetadataPathNames)
    (hfree : ∀ r ∈ entry :: rules, r.path ≠ entry.path ++ [name]) :
    metadataDenied (entry :: rules) (entry.path ++ [name]) := by
  refine metadataDenied_iff.2 ⟨_, guardOf_cons hwrite hname (prefix_refl _), eq_false_iff.2 fun h => ?_⟩
  obtain ⟨r, hr, _, hcover, hguard⟩ := opened_iff.1 h
  exact hfree r hr (hcover.eq_of_length (Nat.le_antisymm hcover.length_le hguard.length_le))

theorem metadataDenied_outer_first (hentry : entry ∈ outer :: rules) (hwrite : entry.access = .write)
    (houter : outer.access = .write) (hguard : guard ∈ protectedMetadataPathNames)
    (hnested : outer.path ++ [guard] <+: entry.path) : metadataDenied (outer :: rules) (entry.path ++ [name]) = false := by
  refine eq_false_iff.2 fun h => ?_
  obtain ⟨_, hfound, hopened⟩ := metadataDenied_iff.1 h
  have hpre := prefix_append entry.path [name]
  cases (guardOf_cons houter hguard (hnested.trans hpre)).symm.trans hfound
  cases (opened_iff.2 ⟨entry, hentry, hwrite, hpre, hnested⟩).symm.trans hopened

end Nested

end Rules

/-! ## On policies -/

section Policy

variable {host : Host} {policy : FileSystemSandboxPolicy} {cwd : Path} {entries : List FileSystemSandboxEntry}
  (hperm : policy.entries.Perm entries)
include hperm

theorem hasFullDiskWriteAccess_perm :
    ({ policy with entries } : FileSystemSandboxPolicy).hasFullDiskWriteAccess = policy.hasFullDiskWriteAccess := by
  have hany : ∀ p : FileSystemSandboxEntry → Bool, entries.any p = policy.entries.any p := fun p => hperm.symm.any_eq
  unfold hasFullDiskWriteAccess hasRootAccess hasWriteNarrowingEntries hasSameTargetWriteOverride
  simp only [hany]

theorem resolvedEntries_perm (host : Host) (cwd : Path) :
    (resolvedEntriesWithCwd host policy cwd).Perm (resolvedEntriesWithCwd host { policy with entries } cwd) :=
  hperm.filterMap _

theorem resolveAccess_perm (path : Path) :
    resolveAccessWithCwd host { policy with entries } path cwd = resolveAccessWithCwd host policy path cwd := by
  unfold resolveAccessWithCwd
  simp only [Specific.decided_perm (resolvedEntries_perm hperm host cwd)]

omit hperm in
theorem canWrite_of_full (hfull : policy.hasFullDiskWriteAccess) (path : Path) :
    canWritePathWithCwd host policy path cwd = (resolveAccessWithCwd host policy path cwd).canWrite := by
  unfold canWritePathWithCwd
  rw [hfull]
  cases (resolveAccessWithCwd host policy path cwd).canWrite <;> rfl

theorem canWrite_perm (hruled : policy.hasFullDiskWriteAccess = false →
      NestedMetadataRuled (resolvedEntriesWithCwd host policy cwd)) (path : Path) :
    canWritePathWithCwd host { policy with entries } path cwd = canWritePathWithCwd host policy path cwd := by
  have hsame := hasFullDiskWriteAccess_perm hperm
  cases hfull : policy.hasFullDiskWriteAccess with
  | true => rw [canWrite_of_full (hsame.trans hfull), canWrite_of_full hfull, resolveAccess_perm hperm]
  | false =>
    have hrules := resolvedEntries_perm hperm host cwd
    rw [Bool.eq_iff_iff, canWrite_iff (hsame.trans hfull), canWrite_iff hfull]
    refine exists_congr fun p => and_congr_right fun _ => ⟨?_, ?_⟩
    · exact Writes.perm hrules.symm ((hruled hfull).perm hrules)
    · exact Writes.perm hrules (hruled hfull)

end Policy

section Nested

variable {host : Host} {policy : FileSystemSandboxPolicy} {cwd : Path}

theorem exists_perm_cons (h : rule ∈ resolvedEntriesWithCwd host policy cwd) :
    ∃ entries, policy.entries.Perm entries ∧ ∃ rules, (resolvedEntriesWithCwd host policy cwd).Perm (rule :: rules) ∧
      resolvedEntriesWithCwd host { policy with entries } cwd = rule :: rules := by
  obtain ⟨entry, hentry, hresolve⟩ := mem_filterMap.1 h
  have hperm := perm_cons_erase hentry
  have hcons : resolvedEntriesWithCwd host { policy with entries := entry :: policy.entries.erase entry } cwd =
      rule :: (policy.entries.erase entry).filterMap (resolveEntry host cwd) := filterMap_cons_some hresolve
  exact ⟨_, hperm, _, hcons ▸ resolvedEntries_perm hperm host cwd, hcons⟩

/-- **Two orders that disagree**: a write entry in the metadata of another, with unruled metadata of its own. -/
theorem order_matters (hfull : policy.hasFullDiskWriteAccess = false)
    (hfree : ¬ NestedMetadataRuled (resolvedEntriesWithCwd host policy cwd)) :
    ∃ inner outer, policy.entries.Perm inner ∧ policy.entries.Perm outer ∧ ∃ p : AbsolutePathBuf,
      canWritePathWithCwd host { policy with entries := inner } p.toPath cwd = false ∧
      canWritePathWithCwd host { policy with entries := outer } p.toPath cwd := by
  simp only [NestedMetadataRuled, not_forall] at hfree
  obtain ⟨entry, hentry, hwrite, outer, houter, houterWrite, guard, hguard, hnested, name, hname, hfree⟩ := hfree
  have hdecided := decided_free_metadata hentry hwrite hfree
  obtain ⟨innerEntries, hinner, innerRules, hinnerPerm, hinnerRules⟩ := exists_perm_cons hentry
  obtain ⟨outerEntries, houterEntries, outerRules, houterPerm, houterRules⟩ := exists_perm_cons houter
  refine ⟨innerEntries, outerEntries, hinner, houterEntries, entry.path ++ [name], ?_, ?_⟩
  · rw [← not_eq_true, canWrite_toPath_iff ((hasFullDiskWriteAccess_perm hinner).trans hfull), hinnerRules]
    have hdenied := metadataDenied_inner_first hwrite hname
      (fun r hr hpath => hfree (.inl ⟨r, hinnerPerm.mem_iff.2 hr, hpath⟩))
    exact fun h => nomatch h.2.symm.trans hdenied
  · rw [canWrite_toPath_iff ((hasFullDiskWriteAccess_perm houterEntries).trans hfull), houterRules]
    exact ⟨(Specific.decided_perm houterPerm _).symm.trans hdecided,
      metadataDenied_outer_first (houterPerm.mem_iff.1 hentry) hwrite houterWrite hguard hnested⟩

end Nested

/-- **The access of a path does not depend on the order of the entries; whether it may be written depends on it, and a
guarded path may be written, exactly where a write entry lies in the metadata of another and leaves its own unruled.** -/
theorem write_access_order_iff (host : Host) (policy : FileSystemSandboxPolicy) (cwd : Path) :
    (∀ entries, policy.entries.Perm entries → ∀ path,
      resolveAccessWithCwd host { policy with entries } path cwd = resolveAccessWithCwd host policy path cwd) ∧
    (((∀ entries, policy.entries.Perm entries → ∀ path,
        canWritePathWithCwd host { policy with entries } path cwd = canWritePathWithCwd host policy path cwd) ∧
      (policy.hasFullDiskWriteAccess = false → ∀ path p, resolveCandidatePath host path cwd = some p →
        canWritePathWithCwd host policy path cwd = true →
        ∀ entry ∈ resolvedEntriesWithCwd host policy cwd, entry.access = .write → ∀ name ∈ protectedMetadataPathNames,
          entry.path ++ [name] <+: p → ∃ opener ∈ resolvedEntriesWithCwd host policy cwd,
            opener.access = .write ∧ opener.path <+: p ∧ entry.path ++ [name] <+: opener.path)) ↔
    (policy.hasFullDiskWriteAccess = false → NestedMetadataRuled (resolvedEntriesWithCwd host policy cwd))) := by
  refine ⟨fun entries hperm path => resolveAccess_perm hperm path, ⟨?_, ?_⟩⟩
  · rintro ⟨horder, -⟩ hfull
    by_contra hfree
    obtain ⟨inner, outer, hinner, houter, p, hdenied, hallowed⟩ := order_matters hfull hfree
    rw [horder inner hinner] at hdenied
    rw [horder outer houter] at hallowed
    cases hdenied.symm.trans hallowed
  · intro hruled
    refine ⟨fun entries hperm path => canWrite_perm hperm hruled path, ?_⟩
    intro hfull path p hp hwrite entry hentry hentryWrite name hname hpre
    obtain ⟨_, hp', hwrites⟩ := (canWrite_iff hfull path).1 hwrite
    cases hp.symm.trans hp'
    refine opened_iff.1 ?_
    by_contra hopened
    rw [not_eq_true] at hopened
    have hdenied := metadataDenied_of_guarded (hruled hfull) hwrites.1 ⟨entry, hentry, hentryWrite, name, hname, hpre, hopened⟩
    cases hwrites.2.symm.trans hdenied

def workspacePath : AbsolutePathBuf := [['w']]

def insideGit : AbsolutePathBuf := [['w'], ".git".toList, ['x']]

/-- **Listed behind the workspace, the inner entry lets its own `.git` be written; listed before it, it does not.** -/
theorem inner_entry_order_matters :
    canWritePathWithCwd bareHost ⟨.restricted, [.new (.path workspacePath) .write, .new (.path insideGit) .write]⟩
      (AbsolutePathBuf.toPath (insideGit ++ [".git".toList])) ⟨true, []⟩ = true ∧
    canWritePathWithCwd bareHost ⟨.restricted, [.new (.path insideGit) .write, .new (.path workspacePath) .write]⟩
      (AbsolutePathBuf.toPath (insideGit ++ [".git".toList])) ⟨true, []⟩ = false := by
  decide

end Owc.Permissions
