import OpenWebCodex.Permissions
/-!
# PermissionsAccess — where a policy lets a path be written

Write access is what the most specific entry gives, less the metadata rule: a path in the `.git`, `.agents` or `.codex` of a
write entry needs a write entry of its own there.
-/
namespace Owc.Permissions

open List
open Specific (Rule Deepest decided)

/-! ## The metadata rule on resolved entries -/

section Rules

variable {rules : List ResolvedFileSystemEntry} {p q : AbsolutePathBuf}

def metadataDir (path p : AbsolutePathBuf) : Option AbsolutePathBuf :=
  match stripPrefix p path with
  | some (name :: _) => if name ∈ protectedMetadataPathNames then some (path ++ [name]) else none
  | _ => none

def guardOf (rules : List ResolvedFileSystemEntry) (p : AbsolutePathBuf) : Option AbsolutePathBuf :=
  (rules.filter (·.access.canWrite)).findSome? (fun entry => metadataDir entry.path p)

/-- A write entry at or below `guard` covers `p`. -/
def opened (rules : List ResolvedFileSystemEntry) (guard p : AbsolutePathBuf) : Bool :=
  rules.any (fun entry => entry.access.canWrite && entry.path.isPrefixOf p && guard.isPrefixOf entry.path)

def metadataDenied (rules : List ResolvedFileSystemEntry) (p : AbsolutePathBuf) : Bool :=
  match guardOf rules p with
  | none => false
  | some guard => !opened rules guard p

def Writes (rules : List ResolvedFileSystemEntry) (p : AbsolutePathBuf) : Prop :=
  decided rules p = some .write ∧ metadataDenied rules p = false

theorem metadataDir_eq_some {path guard} :
    metadataDir path p = some guard ↔ ∃ name ∈ protectedMetadataPathNames, guard = path ++ [name] ∧ guard <+: p := by
  unfold metadataDir
  constructor
  · intro h
    split at h
    · rename_i name rest hstrip
      split at h
      · rename_i hname
        cases h
        refine ⟨name, hname, rfl, rest, ?_⟩
        rw [stripPrefix_eq_some.1 hstrip, append_assoc, singleton_append]
      · cases h
    · cases h
  · rintro ⟨name, hname, rfl, rest, rfl⟩
    have hstrip : stripPrefix (path ++ [name] ++ rest) path = some (name :: rest) := by
      rw [stripPrefix_eq_some, append_assoc, singleton_append]
    rw [hstrip]
    exact if_pos hname

theorem guardOf_eq_some {guard} (h : guardOf rules p = some guard) :
    ∃ entry ∈ rules, entry.access = .write ∧ ∃ name ∈ protectedMetadataPathNames, guard = entry.path ++ [name] ∧ guard <+: p := by
  obtain ⟨entry, hentry, hdir⟩ := exists_of_findSome?_eq_some h
  obtain ⟨hmem, hwrite⟩ := mem_filter.1 hentry
  exact ⟨entry, hmem, by simpa [FileSystemAccessMode.canWrite] using hwrite, metadataDir_eq_some.1 hdir⟩

theorem opened_iff {guard} :
    opened rules guard p ↔ ∃ entry ∈ rules, entry.access = .write ∧ entry.path <+: p ∧ guard <+: entry.path := by
  simp [opened, any_eq_true, FileSystemAccessMode.canWrite, and_assoc]

theorem metadataDenied_iff :
    metadataDenied rules p ↔ ∃ guard, guardOf rules p = some guard ∧ opened rules guard p = false := by
  unfold metadataDenied
  cases guardOf rules p <;> simp

/-- The rule reads a path only through the entries that cover it and the metadata directories that hold it. -/
theorem metadataDenied_congr {p' : AbsolutePathBuf}
    (hdirs : ∀ entry ∈ rules, ∀ name ∈ protectedMetadataPathNames, entry.path ++ [name] <+: p ↔ entry.path ++ [name] <+: p')
    (hcover : ∀ entry ∈ rules, entry.path <+: p ↔ entry.path <+: p') : metadataDenied rules p = metadataDenied rules p' := by
  have hguard : guardOf rules p = guardOf rules p' := by
    unfold guardOf
    rw [← head?_filterMap, ← head?_filterMap]
    congr 1
    refine filterMap_congr fun entry hentry => Option.ext fun guard => ?_
    rw [metadataDir_eq_some, metadataDir_eq_some]
    refine exists_congr fun name => and_congr_right fun hname => and_congr_right ?_
    rintro rfl
    exact hdirs entry (mem_of_mem_filter hentry) name hname
  have hopened : ∀ guard, opened rules guard p = opened rules guard p' := by
    intro guard
    rw [Bool.eq_iff_iff, opened_iff, opened_iff]
    refine exists_congr fun entry => and_congr_right fun hentry => and_congr_right fun _ => and_congr_left fun _ => ?_
    exact hcover entry hentry
  unfold metadataDenied
  rw [hguard]
  cases guardOf rules p' with
  | none => rfl
  | some guard => exact congrArg (!·) (hopened guard)

theorem prefix_concat_iff {path : AbsolutePathBuf} {name : Str} (hpq : path <+: q) (hne : path ≠ q) {r : AbsolutePathBuf}
    (hqr : q <+: r) : path ++ [name] <+: r ↔ path ++ [name] <+: q := by
  refine ⟨fun h => prefix_of_prefix_length_le h hqr ?_, fun h => h.trans hqr⟩
  simpa using Nat.lt_of_le_of_ne hpq.length_le (mt hpq.eq_of_length hne)

theorem eq_deepest_of_not_opened (hdeepest : Deepest rules q p) (hwrite : decided rules q = some .write)
    {entry : ResolvedFileSystemEntry} (hentry : entry ∈ rules) {name : Str} (hpre : entry.path ++ [name] <+: p)
    (hopened : opened rules (entry.path ++ [name]) p = false) : entry.path = q := by
  by_contra hne
  have hentryq := hdeepest.deepest entry hentry ((prefix_append _ _).trans hpre)
  obtain ⟨r, hr, rfl, hrwrite⟩ := hdeepest.exists_rule hwrite
  have hopens := opened_iff.2 ⟨r, hr, hrwrite, hdeepest.above, (prefix_concat_iff hentryq hne hdeepest.above).1 hpre⟩
  cases hopens.symm.trans hopened

/-- **Below its deepest entry, a write entry, a path is denied where the entry's own metadata directory is.** -/
theorem metadataDenied_deepest (hdeepest : Deepest rules q p) (hwrite : decided rules q = some .write) :
    metadataDenied rules p ↔ ∃ name ∈ protectedMetadataPathNames, q ++ [name] <+: p ∧ metadataDenied rules (q ++ [name]) := by
  have hsame : ∀ name, q ++ [name] <+: p → metadataDenied rules p = metadataDenied rules (q ++ [name]) := by
    intro name hname
    have hcover : ∀ entry ∈ rules, entry.path <+: p ↔ entry.path <+: q ++ [name] := fun entry hentry =>
      ⟨fun h => (hdeepest.deepest entry hentry h).trans (prefix_append q [name]), fun h => h.trans hname⟩
    refine metadataDenied_congr (fun entry hentry other _ => ⟨fun h => ?_, fun h => h.trans hname⟩) hcover
    have hentryq := hdeepest.deepest entry hentry ((prefix_append _ _).trans h)
    refine prefix_of_prefix_length_le h hname ?_
    have := hentryq.length_le
    simp only [length_append, length_singleton]
    omega
  constructor
  · intro hdenied
    obtain ⟨guard, hguard, hopened⟩ := metadataDenied_iff.1 hdenied
    obtain ⟨entry, hentry, _, name, hname, rfl, hpre⟩ := guardOf_eq_some hguard
    obtain rfl := eq_deepest_of_not_opened hdeepest hwrite hentry hpre hopened
    exact ⟨name, hname, hpre, hsame name hpre ▸ hdenied⟩
  · rintro ⟨name, _, hpre, hdenied⟩
    rw [hsame name hpre]
    exact hdenied

/-- **A path may be written where its deepest entry may, unless that entry's metadata holds it and may not.** -/
theorem writes_iff : Writes rules p ↔ ∃ q, Deepest rules q p ∧ decided rules q = some .write ∧
    ∀ name ∈ protectedMetadataPathNames, q ++ [name] <+: p → Writes rules (q ++ [name]) := by
  constructor
  · rintro ⟨hdecided, hdenied⟩
    obtain ⟨q, hdeepest, hwrite, _⟩ := Specific.exists_deepest_of_decided hdecided
    refine ⟨q, hdeepest, hwrite, fun name hname hpre => ⟨?_, ?_⟩⟩
    · rw [(hdeepest.mid (prefix_append q [name]) hpre).decided_eq]
      exact hwrite
    · refine Bool.eq_false_iff.2 fun h => ?_
      cases hdenied.symm.trans ((metadataDenied_deepest hdeepest hwrite).2 ⟨name, hname, hpre, h⟩)
  · rintro ⟨q, hdeepest, hwrite, hnames⟩
    refine ⟨hdeepest.decided_eq.trans hwrite, Bool.eq_false_iff.2 fun h => ?_⟩
    obtain ⟨name, hname, hpre, hdenied⟩ := (metadataDenied_deepest hdeepest hwrite).1 h
    cases (hnames name hname hpre).2.symm.trans hdenied

theorem concat_not_above (path : AbsolutePathBuf) (name : Str) : ¬ path ++ [name] <+: path :=
  fun h => by simpa using h.length_le

theorem writes_ruled (hentry : entry ∈ rules) : Writes rules entry.path ↔ decided rules entry.path = some .write := by
  refine ⟨fun h => h.1, fun h => writes_iff.2 ⟨entry.path, Specific.deepest_self hentry, h, fun name _ hpre => ?_⟩⟩
  exact absurd hpre (concat_not_above entry.path name)

end Rules

/-! ## Policies -/

section Policy

variable {host : Host} {policy : FileSystemSandboxPolicy} {cwd : Path}

theorem metadataPathName_eq (name : Str) :
    metadataPathName name = if name ∈ protectedMetadataPathNames then some name else none := by
  unfold metadataPathName
  cases hfind : protectedMetadataPathNames.find? (· == name) with
  | none =>
    have habsent : name ∉ protectedMetadataPathNames := fun h => by simpa using find?_eq_none.1 hfind name h
    rw [if_neg habsent]
  | some found =>
    have heq : found = name := by simpa using find?_some hfind
    rw [if_pos (heq ▸ mem_of_find?_eq_some hfind), heq]

theorem join_metadata (hname : name ∈ protectedMetadataPathNames) (path : AbsolutePathBuf) :
    path.join host (.ofText name) = path ++ [name] := by
  have hparse : name ≠ ['~'] ∧ Path.ofText name = ⟨false, [.normal name]⟩ := by
    revert name
    decide
  exact join_name hparse.1 hparse.2 path

theorem metadataChild_eq (target : AbsolutePathBuf) : (metadataChildOfWritableRoot host policy target cwd).map Prod.fst =
      guardOf (resolvedEntriesWithCwd host policy cwd) target := by
  unfold metadataChildOfWritableRoot guardOf
  rw [map_findSome?]
  congr 1
  funext entry
  unfold metadataDir
  show Option.map Prod.fst ((stripPrefix target entry.path).bind _) = _
  cases stripPrefix target entry.path with
  | none => rfl
  | some rest =>
    cases rest with
    | nil => rfl
    | cons name =>
      show Option.map Prod.fst ((metadataPathName name).bind _) = _
      rw [metadataPathName_eq]
      by_cases hname : name ∈ protectedMetadataPathNames
      · rw [if_pos hname]
        simp only [if_pos hname]
        exact congrArg some (join_metadata hname entry.path)
      · simp [if_neg hname]

theorem kind_of_not_full (h : policy.hasFullDiskWriteAccess = false) : policy.kind = .restricted := by
  cases hkind : policy.kind <;> simp_all [FileSystemSandboxPolicy.hasFullDiskWriteAccess]

theorem isMetadataWriteDenied_eq (hkind : policy.kind = .restricted)
    (hpath : resolveCandidatePath host path cwd = some p) :
    isMetadataWriteDenied host policy path cwd = metadataDenied (resolvedEntriesWithCwd host policy cwd) p := by
  have hrestricted : (policy.kind != .restricted) = false := by rw [hkind]; rfl
  unfold isMetadataWriteDenied metadataDenied
  rw [hrestricted, hpath, ← metadataChild_eq]
  simp only [Bool.false_eq_true, if_false]
  cases metadataChildOfWritableRoot host policy p cwd with
  | none | some => rfl

theorem resolveAccess_eq (hkind : policy.kind = .restricted) (path : Path) :
    resolveAccessWithCwd host policy path cwd = match resolveCandidatePath host path cwd with
      | some p => (decided (resolvedEntriesWithCwd host policy cwd) p).getD .deny
      | none => .deny := by
  obtain ⟨_, _⟩ := policy
  subst hkind
  rfl

theorem getD_canWrite_iff (mode : Option FileSystemAccessMode) : (mode.getD .deny).canWrite ↔ mode = some .write := by
  cases mode with
  | none => decide
  | some mode => cases mode <;> decide

theorem resolveCandidatePath_toPath (p : AbsolutePathBuf) : resolveCandidatePath host p.toPath cwd = some p :=
  fromAbsolutePath_toPath p

/-- **Writing, without full-disk access, is what the resolved entries say.** -/
theorem canWrite_iff (hfull : policy.hasFullDiskWriteAccess = false) (path : Path) :
    canWritePathWithCwd host policy path cwd ↔
      ∃ p, resolveCandidatePath host path cwd = some p ∧ Writes (resolvedEntriesWithCwd host policy cwd) p := by
  have hkind := kind_of_not_full hfull
  unfold canWritePathWithCwd
  rw [resolveAccess_eq hkind, hfull]
  cases hpath : resolveCandidatePath host path cwd with
  | none => simp [FileSystemAccessMode.canWrite]
  | some p =>
    rw [isMetadataWriteDenied_eq hkind hpath]
    simp only [Option.some.injEq, exists_eq_left', Writes, ← getD_canWrite_iff]
    cases ((decided (resolvedEntriesWithCwd host policy cwd) p).getD .deny).canWrite <;> simp

theorem canWrite_toPath_iff (hfull : policy.hasFullDiskWriteAccess = false) (p : AbsolutePathBuf) :
    canWritePathWithCwd host policy p.toPath cwd ↔ Writes (resolvedEntriesWithCwd host policy cwd) p := by
  rw [canWrite_iff hfull]
  simp [resolveCandidatePath_toPath]

end Policy

end Owc.Permissions
