import OpenWebCodex.PatchDelta
/-!
# PatchMove — what an update leaves at its destination

An update in place leaves the derived text at its path.  A move writes its destination first and removes its source then,
so the text stays exactly when the removal does not reach it: `Files.Apart` (`update_destination_holds`).
-/
namespace Owc.Patch

open Function

variable {P : Type} [DecidableEq P] {f : Files P} {p q : P}

/-! ## A write, then a removal -/

namespace Files

/-- Where `q` leads is not the place `p` names, and `q` leads there without it. -/
def Apart (f : Files P) (q p : P) : Prop := ∃ t, f.target q = some t ∧ t ≠ f.canon p ∧ (f.unlink p).target q = some t

/-- Without the place `p` names, a path leads nowhere else than there or where it led. -/
theorem follow_unlink : ∀ {n q}, (f.unlink p).follow n q = some t → t ≠ f.canon p → f.follow n q = some t
  | 0, _, h, _ => h
  | n + 1, q, h, ht => by
    by_cases hq : f.canon q = f.canon p
    · rw [follow_of_not_link fun t => by simp [unlink, set, hq]] at h
      cases h
      exact absurd hq ht
    · have hsame : (f.unlink p).entries ((f.unlink p).canon q) = f.entries (f.canon q) := update_of_ne hq _ _
      rw [follow, hsame] at h
      rw [follow]
      split at h
      · exact follow_unlink h ht
      · exact h

theorem target_of_held_unlink (h : (f.unlink p).held q = some node) :
    ∃ t, f.target q = some t ∧ t ≠ f.canon p ∧ (f.unlink p).target q = some t := by
  obtain ⟨t, ht, he⟩ := Option.bind_eq_some_iff.1 h
  have hne : t ≠ f.canon p := by
    rintro rfl
    simp [unlink, set] at he
  exact ⟨t, follow_unlink ht hne, hne, ht⟩

theorem target_unlink_set (content : Str) (hne : t ≠ f.canon p) (hl : ∀ l, f.entries t ≠ some (.link l)) :
    ((f.set t (some (.text content))).unlink p).target q = (f.unlink p).target q := by
  have hcomm : (f.set t (some (.text content))).unlink p = (f.unlink p).set t (some (.text content)) := by
    simp only [unlink, set, update_comm hne]
  have hsame : (f.unlink p).entries t = f.entries t := update_of_ne hne _ _
  rw [hcomm]
  exact follow_set (by rw [hsame]; exact hl) (by simp) maxLinks q

theorem held_writeText (h : f.held p = some node) (content : Str) :
    (f.writeText p content).held p = some (.text content) := by
  obtain ⟨t, ht, -⟩ := Option.bind_eq_some_iff.1 h
  rw [held, target_writeText, ht, writeText_some ht]
  exact update_self ..

/-- **A written text outlives a removal** exactly when the path it was written to is apart from the one removed. -/
theorem held_writeText_unlink (content : Str) :
    ((f.writeText q content).unlink p).held q = some (.text content) ↔ f.Apart q p := by
  have hcanon : (f.writeText q content).canon p = f.canon p := by rw [canon_writeText]
  constructor
  · intro h
    obtain ⟨t, ht, hne, hu⟩ := target_of_held_unlink h
    rw [target_writeText] at ht
    rw [hcanon] at hne
    rw [writeText_some ht, target_unlink_set content hne (follow_not_link ht)] at hu
    exact ⟨t, ht, hne, hu⟩
  · rintro ⟨t, ht, hne, hu⟩
    rw [writeText_some ht, held, target_unlink_set content hne (follow_not_link ht), hu]
    exact (update_of_ne hne _ _).trans (update_self ..)

end Files

/-! ## An update that succeeds -/

section Arms

variable {σ : Type} {paths : PathOps P} {fs : ExecutorFileSystem P σ} {files : σ → Files P} (hb : Behaves fs files)
  {s s' : σ} {delta delta' : AppliedPatchDelta P} {cwd : P}

def Derived (paths : PathOps P) (f : Files P) (p : P) (chunks : List UpdateFileChunk) (new : Str) : Prop :=
  ∃ old, f.held p = some (.text old) ∧ deriveNewContents (paths.inferredNativePathString p) old chunks = .ok ⟨old, new⟩

include hb

theorem derive_derived (h : deriveNewContentsFromChunks paths fs s p chunks = (s', .ok applied)) :
    Derived paths (files s) p chunks applied.newContents := by
  have hrec := hb.readFileText_ok s p
  unfold deriveNewContentsFromChunks at h
  rcases hr : fs.readFileText s p with ⟨s₁, read⟩
  rw [hr] at h hrec
  cases read with
  | error e => cases h
  | ok old =>
    refine ⟨old, hrec old rfl, ?_⟩
    have hd := (Prod.mk.inj h).2
    have hold : applied.originalContents = old := by
      unfold deriveNewContents at hd
      split at hd <;> cases hd
      rfl
    rw [hd, ← hold]

theorem applyMove_ok (h : applyMove paths fs s delta p q applied = (s', delta', .ok ())) :
    files s' = ((files s).writeText q applied.newContents).unlink p := by
  unfold applyMove at h
  rcases hr : readOptionalFileTextForDelta fs s q delta.exact_ with ⟨s₁, exact₁, overwritten⟩
  obtain ⟨hf₁, -⟩ := readOptional_spec hb hr
  simp only [hr] at h
  rcases hw : writeFileWithMissingParentRetry paths fs s₁ q applied.newContents with ⟨s₂, rw_⟩
  simp only [hw] at h
  cases rw_ with
  | error e => cases h
  | ok _ =>
  simp only at h
  split at h
  · cases h
  · rename_i hrem
    cases h
    rw [((removeFile_spec hb hrem).1 rfl).1, writeRetry_spec hb hw, hf₁]

theorem applyUpdateFile_ok (hp : paths.join cwd source = .ok p)
    (h : applyUpdateFile paths fs cwd s delta p movePath chunks = (s', delta', .ok ())) :
    ∃ q new, paths.join cwd (Hunk.updateFile source movePath chunks).path = .ok q ∧ Derived paths (files s) p chunks new ∧
      ((files s').held q = some (.text new) ↔ movePath = none ∨ (files s).Apart q p) := by
  unfold applyUpdateFile at h
  rcases hn : noteExistingPathDeltaSupport fs s p delta.exact_ with ⟨s₁, exact₁⟩
  have hf₁ := (note_spec hb hn).1
  simp only [hn] at h
  rcases hd : deriveNewContentsFromChunks paths fs s₁ p chunks with ⟨s₂, res⟩
  have hf₂ := (derive_spec hb hd).1.trans hf₁
  simp only [hd] at h
  cases res with
  | error e => cases h
  | ok applied =>
  have hder := derive_derived hb hd
  rw [hf₁] at hder
  cases movePath with
  | none =>
    obtain ⟨old, hold, -⟩ := id hder
    refine ⟨p, applied.newContents, hp, hder, iff_of_true ?_ (.inl rfl)⟩
    simp only [applyInPlace] at h
    split at h
    · cases h
    rename_i hw
    cases h
    have hwritten := hb.writeFile_ok s₂ p applied.newContents (by rw [hw])
    rw [hw, hf₂] at hwritten
    rw [hwritten]
    exact Files.held_writeText hold _
  | some dest =>
    cases hj : paths.join cwd dest with
    | error e => simp [hj] at h
    | ok q =>
      simp only [hj] at h
      refine ⟨q, applied.newContents, hj, hder, ?_⟩
      rw [applyMove_ok hb h, hf₂, Files.held_writeText_unlink]
      simp

end Arms

/-! ## A patch that succeeds -/

section Run

variable {σ : Type} {paths : PathOps P} {fs : ExecutorFileSystem P σ} {cwd : P}

omit [DecidableEq P] in
theorem applyHunkLoop_split : ∀ before s delta affected,
    (applyHunkLoop paths fs cwd s delta affected (before ++ hunk :: after)).2.2 = .ok done →
    ∃ delta₁ delta₂, applyHunk paths fs cwd (applyHunkLoop paths fs cwd s delta affected before).1 delta₁ hunk =
      ((applyHunkLoop paths fs cwd s delta affected (before ++ [hunk])).1, delta₂, .ok ())
  | before, s, delta, affected, h => by
    cases before with
    | nil =>
      rw [List.nil_append, applyHunkLoop] at h
      rcases ha : applyHunk paths fs cwd s delta hunk with ⟨s₁, delta₁, _ | _⟩
      · rw [ha] at h
        cases h
      · refine ⟨delta, delta₁, ?_⟩
        simp only [List.nil_append, applyHunkLoop, ha]
    | cons first before =>
      rw [List.cons_append, applyHunkLoop] at h
      rcases ha : applyHunk paths fs cwd s delta first with ⟨s₁, delta₁, _ | _⟩ <;> rw [ha] at h
      · cases h
      · simpa only [List.cons_append, applyHunkLoop, ha] using applyHunkLoop_split before s₁ delta₁ _ h

omit [DecidableEq P] in
theorem applyHunksToFiles_fst (s : σ) (delta : AppliedPatchDelta P) (hunks : List Hunk) :
    (applyHunksToFiles paths fs cwd s delta hunks).1 = (applyHunkLoop paths fs cwd s delta ⟨[], [], []⟩ hunks).1 := by
  cases hunks <;> rfl

end Run

/-- **What the updates of a patch leave.**  On any disk and whichever calls fail, after each update of a patch that
succeeds the destination holds the derived text exactly when the update does not move, or its destination is apart from
its source on the disk it starts from. -/
theorem update_destination_holds (paths : PathOps P) (ancestors : P → List P) (parent : P → Option P)
    (faults : Nat → Option Fault) (cwd : P) (s : DiskState P) (delta : AppliedPatchDelta P) (before after : List Hunk)
    (source : Str) (movePath : Option Str) (chunks : List UpdateFileChunk) (affected : AffectedPaths)
    (hok : (applyHunksToFiles paths (diskFs ancestors parent faults) cwd s delta
      (before ++ .updateFile source movePath chunks :: after)).2.2 = .ok affected) :
    let files hunks := (applyHunksToFiles paths (diskFs ancestors parent faults) cwd s delta hunks).1.files
    ∃ p q new, paths.join cwd source = .ok p ∧ paths.join cwd (Hunk.updateFile source movePath chunks).path = .ok q ∧
      Derived paths (files before) p chunks new ∧
      ((files (before ++ [.updateFile source movePath chunks])).held q = some (.text new) ↔
        movePath = none ∨ (files before).Apart q p) := by
  intro files
  rw [applyHunksToFiles, if_neg (by simp)] at hok
  obtain ⟨_, _, h⟩ := applyHunkLoop_split before s delta _ hok
  unfold applyHunk Hunk.resolvePath at h
  cases hp : paths.join cwd source with
  | error => simp [Hunk.sourcePath, hp] at h
  | ok p =>
    simp only [Hunk.sourcePath, hp] at h
    obtain ⟨q, new, hq, hd, hiff⟩ := applyUpdateFile_ok (diskFs_behaves ancestors parent faults) hp h
    rw [← applyHunksToFiles_fst] at hd hiff
    rw [← applyHunksToFiles_fst] at hiff
    exact ⟨p, q, new, rfl, hq, hd, hiff⟩

theorem update_destination_holds_moved :
    ∃ p q new, slashPaths.join "/w".toList "f".toList = .ok p ∧ slashPaths.join "/w".toList "g".toList = .ok q ∧
      Derived slashPaths oneFile.files p [⟨none, ["a".toList], ["b".toList], false⟩] new ∧
      ((applyHunksToFiles slashPaths (diskFs (fun p => [p]) slashPaths.parent (fun _ => none)) "/w".toList oneFile
          (.empty Str) (moveTo "g".toList)).1.files.held q = some (.text new) ↔
        some "g".toList = none ∨ oneFile.files.Apart q p) :=
  update_destination_holds slashPaths (fun p => [p]) slashPaths.parent (fun _ => none) "/w".toList oneFile (.empty Str) [] []
    "f".toList (some "g".toList) [⟨none, ["a".toList], ["b".toList], false⟩] ⟨[], ["g".toList], []⟩ (by decide)

/-- **A move to the path it starts from succeeds and leaves nothing**, where the text is wanted. -/
theorem self_move_destroys :
    (applyHunksToFiles slashPaths (diskFs (fun p => [p]) slashPaths.parent (fun _ => none)) "/w".toList oneFile (.empty Str)
        (moveTo "f".toList)).2.2 = .ok ⟨[], ["f".toList], []⟩ ∧
      Derived slashPaths oneFile.files "/w/f".toList [⟨none, ["a".toList], ["b".toList], false⟩] "b\n".toList ∧
      (applyHunksToFiles slashPaths (diskFs (fun p => [p]) slashPaths.parent (fun _ => none)) "/w".toList oneFile
        (.empty Str) (moveTo "f".toList)).1.files.held "/w/f".toList = none :=
  ⟨by decide, ⟨"a\n".toList, by decide, by decide⟩, by decide⟩

end Owc.Patch
