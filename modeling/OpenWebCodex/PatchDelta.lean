import OpenWebCodex.PatchDisk
/-!
# PatchDelta — the delta of an application replays to what is on the disk

Whatever fails on the way, an application that ends with `delta.exact` still set leaves the files that its recorded
changes make of the initial ones, and each recorded content is what was there before its change
(`applyHunksToFiles_replay`).  `InStep` is the loop's invariant; one lemma for each arm of the loop keeps it.  A move onto
the file it starts from breaks it: the file is written, then removed, and the delta says it was moved.
-/
namespace Owc.Patch

variable {P : Type} [DecidableEq P]

/-! ## Replaying a delta -/

def AppliedPatchChange.replay (f : Files P) : AppliedPatchChange P → Files P
  | ⟨p, .add content _⟩ => f.writeText p content
  | ⟨p, .delete _⟩ => f.unlink p
  | ⟨p, .update none _ _ newContent⟩ => f.writeText p newContent
  | ⟨p, .update (some dest) _ _ newContent⟩ => (f.unlink p).writeText dest newContent

def AppliedPatchChange.Right (f : Files P) : AppliedPatchChange P → Prop
  | ⟨p, .add _ overwritten⟩ => f.Recorded p overwritten
  | ⟨p, .delete content⟩ => f.Recorded p (some content)
  | ⟨p, .update none oldContent _ _⟩ => f.Recorded p (some oldContent)
  | ⟨p, .update (some dest) oldContent overwritten _⟩ => f.Recorded p (some oldContent) ∧ f.Recorded dest overwritten

def replayAll (f : Files P) (changes : List (AppliedPatchChange P)) : Files P := changes.foldl AppliedPatchChange.replay f

def RightAll : Files P → List (AppliedPatchChange P) → Prop
  | _, [] => True
  | f, change :: changes => change.Right f ∧ RightAll (change.replay f) changes

theorem rightAll_concat (change : AppliedPatchChange P) : ∀ (changes : List (AppliedPatchChange P)) (f : Files P),
    RightAll f (changes ++ [change]) ↔ RightAll f changes ∧ change.Right (replayAll f changes)
  | [], f => by simp [RightAll, replayAll]
  | c :: changes, f => by
    rw [List.cons_append, RightAll, RightAll, rightAll_concat change changes (c.replay f), and_assoc]
    rfl

theorem canon_replay (f : Files P) (change : AppliedPatchChange P) : (change.replay f).canon = f.canon := by
  obtain ⟨p, change⟩ := change
  cases change with
  | add content => exact f.canon_writeText p content
  | delete => rfl
  | update movePath oldContent overwritten newContent =>
    cases movePath with
    | none => exact f.canon_writeText p newContent
    | some dest => exact (f.unlink p).canon_writeText dest newContent

theorem canon_replayAll : ∀ (changes : List (AppliedPatchChange P)) (f : Files P), (replayAll f changes).canon = f.canon
  | [], _ => rfl
  | c :: changes, f => (canon_replayAll changes (c.replay f)).trans (canon_replay f c)

/-- **The delta and the files in step**: as long as the delta is exact. -/
def InStep (initial now : Files P) (delta : AppliedPatchDelta P) : Prop :=
  delta.exact_ = true → now = replayAll initial delta.changes ∧ RightAll initial delta.changes

variable {changes : List (AppliedPatchChange P)}

theorem inStep_of_not_exact : InStep initial now ⟨changes, false⟩ := fun h => by cases h

section

variable {initial now now' : Files P} {exact_ exact' : Bool} (h : InStep initial now ⟨changes, exact_⟩)
include h

theorem InStep.mono (hx : exact' → exact_ ∧ now' = now) : InStep initial now' ⟨changes, exact'⟩ := fun he => by
  rw [(hx he).2]
  exact h (hx he).1

theorem InStep.push (change : AppliedPatchChange P) (hx : exact' → exact_ ∧ now' = change.replay now ∧ change.Right now) :
    InStep initial now' ⟨changes ++ [change], exact'⟩ := fun he => by
  obtain ⟨hex, hnow, hright⟩ := hx he
  obtain ⟨hreplay, hall⟩ := h hex
  subst hreplay
  refine ⟨?_, (rightAll_concat change changes initial).2 ⟨hall, hright⟩⟩
  rw [hnow, replayAll, replayAll, List.foldl_append]
  rfl

end

/-! ## Moves -/

def Hunk.MovesElsewhere (paths : PathOps P) (canon : P → P) (cwd : P) : Hunk → Prop
  | .updateFile path (some dest) _ =>
    ∀ p q, paths.join cwd path = .ok p → paths.join cwd dest = .ok q → canon q ≠ canon p
  | _ => True

/-! ## Probes and removals -/

section Arms

variable {σ : Type} {paths : PathOps P} {fs : ExecutorFileSystem P σ} {files : σ → Files P} (hb : Behaves fs files)
  {s s' : σ} {p : P} {exact_ exact' : Bool}

include hb

theorem note_spec (h : noteExistingPathDeltaSupport fs s p exact_ = (s', exact')) :
    files s' = files s ∧ (exact' → exact_ ∧ ((files s).Regular p ∨ (files s).Absent p)) := by
  have hf := hb.getMetadata_files s p
  have hok := hb.getMetadata_ok s p
  have hnf := hb.getMetadata_notFound s p
  unfold noteExistingPathDeltaSupport at h
  rcases hm : fs.getMetadata s p with ⟨s₁, r⟩
  rw [hm] at h hf hok hnf
  cases r with
  | ok metadata =>
    cases h
    refine ⟨hf, fun he => ?_⟩
    simp only [Bool.and_eq_true, Bool.not_eq_true'] at he
    exact ⟨he.1, .inl (hok metadata rfl he.2.1 he.2.2)⟩
  | error e =>
    cases h
    refine ⟨hf, fun he => ?_⟩
    simp only [Bool.and_eq_true, beq_iff_eq] at he
    exact ⟨he.1, .inr (hnf e rfl he.2)⟩

theorem readOptional_spec (h : readOptionalFileTextForDelta fs s p exact_ = (s', exact', overwritten)) :
    files s' = files s ∧ (exact' →
      exact_ ∧ ((files s).Regular p ∨ (files s).Absent p) ∧ (files s).Recorded p overwritten) := by
  unfold readOptionalFileTextForDelta at h
  rcases hn : noteExistingPathDeltaSupport fs s p exact_ with ⟨s₁, exact₁⟩
  obtain ⟨hf₁, hx₁⟩ := note_spec hb hn
  have hf := hb.readFileText_files s₁ p
  have hok := hb.readFileText_ok s₁ p
  have hnf := hb.readFileText_notFound s₁ p
  simp only [hn] at h
  rcases hr : fs.readFileText s₁ p with ⟨s₂, r⟩
  rw [hr] at h hf hok hnf
  rw [hf₁] at hf hok hnf
  cases r with
  | ok content =>
    cases h
    exact ⟨hf, fun he => ⟨(hx₁ he).1, (hx₁ he).2, hok content rfl⟩⟩
  | error e =>
    cases h
    refine ⟨hf, fun he => ?_⟩
    simp only [Bool.and_eq_true, beq_iff_eq] at he
    exact ⟨(hx₁ he.1).1, (hx₁ he.1).2, hnf e rfl he.2⟩

theorem writeRetry_spec (h : writeFileWithMissingParentRetry paths fs s p contents = (s', .ok ())) :
    files s' = (files s).writeText p contents := by
  unfold writeFileWithMissingParentRetry at h
  have hok := hb.writeFile_ok s p contents
  have herr := hb.writeFile_error s p contents
  rcases hw : fs.writeFile s p contents with ⟨s₁, r⟩
  rw [hw] at h hok herr
  cases r with
  | ok _ =>
    cases h
    exact hok rfl
  | error e =>
  simp only at h
  split at h
  · -- the parent is made, which touches no file, and the second write succeeds
    have hparent : files (createParent paths fs s₁ p).1 = files s₁ := by
      unfold createParent
      split
      · rfl
      · exact hb.createDirectory_files s₁ _
    split at h
    · cases h
    rename_i s₂ _ hc
    rw [hc] at hparent
    have hok₂ := hb.writeFile_ok s₂ p contents
    split at h
    · cases h
    rename_i hw₂
    rw [hw₂] at hok₂
    cases h
    rw [hok₂ rfl, hparent]
    rcases herr e rfl with hsame | ⟨partial_, hpart⟩
    · rw [hsame]
    · rw [hpart, Files.writeText_writeText]
  · cases h

theorem ensureNotDirectory_files (h : ensureNotDirectory fs s p = (s', r)) : files s' = files s := by
  have hf := hb.getMetadata_files s p
  unfold ensureNotDirectory at h
  rcases hm : fs.getMetadata s p with ⟨s₁, m⟩
  rw [hm] at h hf
  cases m <;> (cases h; exact hf)

/-- **A removal that failed and left the delta exact has left the file.** -/
theorem removeFile_spec (h : removeFile fs s exact_ p context expected = (s', exact', r)) :
    (r = .ok () → files s' = (files s).unlink p ∧ exact' = exact_) ∧
      (∀ e, r = .error e → exact' → exact_ ∧ files s' = files s) := by
  unfold removeFile at h
  rcases hd : ensureNotDirectory fs s p with ⟨s₁, rd⟩
  have hf₁ := ensureNotDirectory_files hb hd
  simp only [hd] at h
  cases rd with
  | error e =>
    cases h
    exact ⟨nofun, fun _ _ hx => ⟨hx, hf₁⟩⟩
  | ok _ =>
  have hok := hb.remove_ok s₁ p
  have herr := hb.remove_error s₁ p
  rcases hr : fs.remove s₁ p with ⟨s₂, rr⟩
  simp only [hr] at h hok herr
  rw [hf₁] at hok herr
  cases rr with
  | ok _ =>
    cases h
    exact ⟨fun _ => ⟨hok rfl, rfl⟩, nofun⟩
  | error e =>
    cases h
    refine ⟨nofun, fun _ _ hx => ?_⟩
    rw [Bool.and_eq_true] at hx
    refine ⟨hx.1, ?_⟩
    -- the file was read back with its old content, so it is still there
    obtain ⟨-, hfree⟩ := hx
    unfold removeFailureWasSideEffectFree at hfree ⊢
    cases expected with
    | none => cases hfree
    | some content =>
      have hf₃ := hb.readFileText_files s₂ p
      have hrec := hb.readFileText_ok s₂ p
      rcases hread : fs.readFileText s₂ p with ⟨s₃, c⟩
      simp only [hread] at hfree hf₃ hrec ⊢
      cases c with
      | error e => cases hfree
      | ok c =>
        have hheld : (files s₂).held p = some (.text c) := hrec c rfl
        rw [hf₃]
        rcases herr e rfl with hsame | hgone
        · exact hsame
        · rw [hgone, Files.held_unlink] at hheld
          cases hheld

/-! ## The arms of the loop -/

variable {initial : Files P} {delta delta' : AppliedPatchDelta P} {r : Except HunkError Unit}

section

variable (hi : InStep initial (files s) delta)
include hi

theorem applyAddFile_inStep (h : applyAddFile paths fs s delta p contents = (s', delta', r)) :
    InStep initial (files s') delta' := by
  unfold applyAddFile at h
  rcases hr : readOptionalFileTextForDelta fs s p delta.exact_ with ⟨s₁, exact₁, overwritten⟩
  obtain ⟨hf₁, hx₁⟩ := readOptional_spec hb hr
  simp only [hr] at h
  rcases hw : writeFileWithMissingParentRetry paths fs s₁ p contents with ⟨s₂, rw_⟩
  simp only [hw] at h
  cases rw_ with
  | error e =>
    cases h
    exact inStep_of_not_exact
  | ok _ =>
    cases h
    refine InStep.push hi ⟨p, .add contents overwritten⟩ fun he => ?_
    obtain ⟨hex, -, hrec⟩ := hx₁ he
    exact ⟨hex, by rw [writeRetry_spec hb hw, hf₁]; rfl, hrec⟩

theorem applyDeleteFile_inStep (h : applyDeleteFile paths fs s delta p = (s', delta', r)) :
    InStep initial (files s') delta' := by
  unfold applyDeleteFile at h
  rcases hn : noteExistingPathDeltaSupport fs s p delta.exact_ with ⟨s₁, exact₁⟩
  obtain ⟨hf₁, hx₁⟩ := note_spec hb hn
  have hf₂ := hb.readFileText_files s₁ p
  have hrec := hb.readFileText_ok s₁ p
  rcases hr : fs.readFileText s₁ p with ⟨s₂, read⟩
  simp only [hn, hr] at h
  rw [hr, hf₁] at hf₂
  rw [hr, hf₁] at hrec
  split at h
  · -- the removal failed: nothing has changed, or the delta says that it may have
    rename_i s₃ exact₃ e hrem
    cases h
    obtain ⟨-, herr⟩ := removeFile_spec hb hrem
    refine InStep.mono hi fun he => ?_
    obtain ⟨hex, hsame⟩ := herr e rfl he
    rw [Bool.and_eq_true] at hex
    exact ⟨(hx₁ hex.1).1, hsame.trans hf₂⟩
  · rename_i s₃ exact₃ _ hrem
    obtain ⟨hok, -⟩ := removeFile_spec hb hrem
    obtain ⟨hgone, hex₃⟩ := hok rfl
    cases read with
    | error e =>
      cases h
      rw [hex₃]
      exact InStep.mono hi fun he => by simp [Except.toOption] at he
    | ok content =>
      cases h
      refine InStep.push hi ⟨p, .delete content⟩ fun he => ?_
      rw [hex₃, Bool.and_eq_true] at he
      exact ⟨(hx₁ he.1).1, by rw [hgone, hf₂]; rfl, hrec content rfl⟩

theorem applyInPlace_inStep (hold : (files s).Recorded p (some applied.originalContents))
    (h : applyInPlace paths fs s delta p applied = (s', delta', r)) : InStep initial (files s') delta' := by
  unfold applyInPlace at h
  have hok := hb.writeFile_ok s p applied.newContents
  rcases hw : fs.writeFile s p applied.newContents with ⟨s₁, rw_⟩
  rw [hw] at h hok
  cases rw_ with
  | error e =>
    cases h
    exact inStep_of_not_exact
  | ok _ =>
    cases h
    exact InStep.push hi ⟨p, .update none applied.originalContents none applied.newContents⟩ (fun he => ⟨he, hok rfl, hold⟩)

theorem applyMove_inStep (hreg : delta.exact_ → (files s).Regular p)
    (hold : (files s).Recorded p (some applied.originalContents)) (hne : initial.canon dest ≠ initial.canon p)
    (h : applyMove paths fs s delta p dest applied = (s', delta', r)) : InStep initial (files s') delta' := by
  unfold applyMove at h
  rcases hr : readOptionalFileTextForDelta fs s dest delta.exact_ with ⟨s₁, exact₁, overwritten⟩
  obtain ⟨hf₁, hx₁⟩ := readOptional_spec hb hr
  simp only [hr] at h
  rcases hw : writeFileWithMissingParentRetry paths fs s₁ dest applied.newContents with ⟨s₂, rw_⟩
  simp only [hw] at h
  cases rw_ with
  | error e =>
    cases h
    exact inStep_of_not_exact
  | ok _ =>
  have hf₂ := writeRetry_spec hb hw
  rw [hf₁] at hf₂
  simp only at h
  split at h
  · -- the destination is written and the source is still there: the delta holds the addition
    rename_i s₃ exact₃ e hrem
    obtain ⟨-, herr⟩ := removeFile_spec hb hrem
    cases h
    refine InStep.push hi ⟨dest, .add applied.newContents overwritten⟩ fun he => ?_
    obtain ⟨hex, hsame⟩ := herr e rfl he
    obtain ⟨hex, -, hrec⟩ := hx₁ hex
    exact ⟨hex, hsame.trans hf₂, hrec⟩
  · rename_i s₃ exact₃ _ hrem
    obtain ⟨hok, -⟩ := removeFile_spec hb hrem
    obtain ⟨hgone, hex₃⟩ := hok rfl
    cases h
    refine InStep.push hi ⟨p, .update (some dest) applied.originalContents overwritten applied.newContents⟩ fun he => ?_
    obtain ⟨hex, hdest, hrec⟩ := hx₁ (hex₃ ▸ he)
    have hcanon : (files s).canon = initial.canon := by rw [(hi hex).1, canon_replayAll]
    refine ⟨hex, ?_, hold, hrec⟩
    rw [hgone, hf₂, Files.unlink_writeText_comm (hreg hex) hdest (by rw [hcanon]; exact hne)]
    rfl

end

theorem derive_spec (h : deriveNewContentsFromChunks paths fs s p chunks = (s', res)) :
    files s' = files s ∧ ∀ applied, res = .ok applied → (files s).Recorded p (some applied.originalContents) := by
  have hf := hb.readFileText_files s p
  have hrec := hb.readFileText_ok s p
  unfold deriveNewContentsFromChunks at h
  rcases hr : fs.readFileText s p with ⟨s₁, read⟩
  rw [hr] at h hf hrec
  cases read with
  | error e =>
    cases h
    exact ⟨hf, nofun⟩
  | ok content =>
    cases h
    refine ⟨hf, fun applied ha => ?_⟩
    unfold deriveNewContents at ha
    split at ha <;> cases ha
    exact hrec content rfl

variable {cwd : P}

theorem applyUpdateFile_inStep (hi : InStep initial (files s) delta)
    (hm : ∀ dest q, movePath = some dest → paths.join cwd dest = .ok q → initial.canon q ≠ initial.canon p)
    (h : applyUpdateFile paths fs cwd s delta p movePath chunks = (s', delta', r)) : InStep initial (files s') delta' := by
  unfold applyUpdateFile at h
  rcases hn : noteExistingPathDeltaSupport fs s p delta.exact_ with ⟨s₁, exact₁⟩
  obtain ⟨hf₁, hx₁⟩ := note_spec hb hn
  have hi₁ : InStep initial (files s₁) { delta with exact_ := exact₁ } :=
    InStep.mono hi fun he => ⟨(hx₁ he).1, hf₁⟩
  simp only [hn] at h
  rcases hd : deriveNewContentsFromChunks paths fs s₁ p chunks with ⟨s₂, res⟩
  obtain ⟨hf₂, hold⟩ := derive_spec hb hd
  have hi₂ : InStep initial (files s₂) { delta with exact_ := exact₁ } := by rw [hf₂]; exact hi₁
  simp only [hd] at h
  cases res with
  | error e =>
    cases h
    exact hi₂
  | ok applied =>
  have hrec : (files s₂).Recorded p (some applied.originalContents) := by rw [hf₂]; exact hold applied rfl
  cases movePath with
  | none => exact applyInPlace_inStep hb hi₂ hrec h
  | some dest =>
  cases hj : paths.join cwd dest with
  | error e =>
    simp only [hj] at h
    cases h
    exact hi₂
  | ok q =>
    simp only [hj] at h
    refine applyMove_inStep hb hi₂ (fun he => ?_) hrec (hm dest q rfl hj) h
    -- a text was read there, so the note that left the delta exact saw a file
    rw [hf₂, hf₁]
    rw [hf₂, hf₁] at hrec
    exact (hx₁ he).2.resolve_right hrec.not_absent

theorem applyHunk_inStep (hi : InStep initial (files s) delta) (hm : hunk.MovesElsewhere paths initial.canon cwd)
    (h : applyHunk paths fs cwd s delta hunk = (s', delta', r)) : InStep initial (files s') delta' := by
  unfold applyHunk Hunk.resolvePath at h
  cases hp : paths.join cwd hunk.sourcePath with
  | error e =>
    simp only [hp] at h
    cases h
    exact hi
  | ok path =>
  simp only [hp] at h
  cases hunk with
  | addFile text contents => exact applyAddFile_inStep hb hi h
  | deleteFile text => exact applyDeleteFile_inStep hb hi h
  | updateFile text movePath chunks =>
    refine applyUpdateFile_inStep hb hi (fun dest q hd hq => ?_) h
    subst hd
    exact hm path q hp hq

theorem applyHunkLoop_inStep : ∀ hunks s delta affected,
    InStep initial (files s) delta → (∀ h ∈ hunks, h.MovesElsewhere paths initial.canon cwd) →
    InStep initial (files (applyHunkLoop paths fs cwd s delta affected hunks).1)
      (applyHunkLoop paths fs cwd s delta affected hunks).2.1
  | [], s, delta, affected, hi, _ => hi
  | hunk :: hunks, s, delta, affected, hi, hm => by
    rw [applyHunkLoop]
    rcases ha : applyHunk paths fs cwd s delta hunk with ⟨s₁, delta₁, r₁⟩
    have hi₁ := applyHunk_inStep hb hi (hm hunk List.mem_cons_self) ha
    cases r₁ with
    | error e => exact hi₁
    | ok _ => exact applyHunkLoop_inStep hunks s₁ delta₁ _ hi₁ fun h hh => hm h (List.mem_cons_of_mem _ hh)

theorem applyHunksToFiles_inStep (hunks : List Hunk) (s : σ) (hm : ∀ h ∈ hunks, h.MovesElsewhere paths (files s).canon cwd) :
    InStep (files s) (files (applyHunksToFiles paths fs cwd s (.empty P) hunks).1)
      (applyHunksToFiles paths fs cwd s (.empty P) hunks).2.1 := by
  have hstart : InStep (files s) (files s) (.empty P) := fun _ => ⟨rfl, trivial⟩
  unfold applyHunksToFiles
  split
  · exact hstart
  · exact applyHunkLoop_inStep hb hunks s _ _ hstart hm

end Arms

/-! ## The disk -/

/-- **An exact delta replays to the disk.**  From any disk, for any hunks none of which moves a file onto itself, and
whichever calls fail and however far they got: if the application ends with `exact` still set, the files are those the
recorded changes make of the initial ones, in order, and each recorded content is what was there before its change. -/
theorem applyHunksToFiles_replay (paths : PathOps P) (ancestors : P → List P) (parent : P → Option P)
    (faults : Nat → Option Fault) (cwd : P) (s : DiskState P) (hunks : List Hunk)
    (hm : ∀ h ∈ hunks, h.MovesElsewhere paths s.files.canon cwd) (delta : AppliedPatchDelta P)
    (hd : (applyHunksToFiles paths (diskFs ancestors parent faults) cwd s (.empty P) hunks).2.1 = delta)
    (hx : delta.exact_ = true) :
    (applyHunksToFiles paths (diskFs ancestors parent faults) cwd s (.empty P) hunks).1.files =
        replayAll s.files delta.changes ∧
      RightAll s.files delta.changes := by
  have h := applyHunksToFiles_inStep (diskFs_behaves ancestors parent faults) hunks s hm
  rw [hd] at h
  exact h hx

def oneFile : DiskState Str where
  files := ⟨id, fun p => if p = "/w/f".toList then some (.text "a\n".toList) else none⟩
  isDir p := p == "/w".toList
  calls := 0

def moveTo (dest : Str) : List Hunk := [.updateFile "f".toList (some dest) [⟨none, ["a".toList], ["b".toList], false⟩]]

def movedTo (dest : Str) (overwritten : Option Str) : List (AppliedPatchChange Str) :=
  [⟨"/w/f".toList, .update (some dest) "a\n".toList overwritten "b\n".toList⟩]

/-- The file is moved, although the first write to the new place fails and has to be made again. -/
theorem applyHunksToFiles_replay_retry : (applyHunksToFiles slashPaths (diskFs (fun p => [p]) slashPaths.parent
        (fun n => if n = 4 then some ⟨notFound, .part "b".toList⟩ else none)) "/w".toList oneFile (.empty Str)
        (moveTo "g".toList)).1.files = replayAll oneFile.files (movedTo "/w/g".toList none) ∧
      RightAll oneFile.files (movedTo "/w/g".toList none) :=
  applyHunksToFiles_replay slashPaths (fun p => [p]) slashPaths.parent
    (fun n => if n = 4 then some ⟨notFound, .part "b".toList⟩ else none) "/w".toList oneFile (moveTo "g".toList)
    (fun h hh => by
      cases List.mem_singleton.1 hh
      intro p q hp hq
      cases hp
      cases hq
      decide)
    ⟨movedTo "/w/g".toList none, true⟩ (by decide) rfl

/-- **A file moved onto itself is gone**, and the delta says that it holds its new text. -/
theorem applyHunksToFiles_selfMove :
    (applyHunksToFiles slashPaths (diskFs (fun p => [p]) slashPaths.parent (fun _ => none)) "/w".toList oneFile (.empty Str)
        (moveTo "f".toList)).2.1 = ⟨movedTo "/w/f".toList (some "a\n".toList), true⟩ ∧
    (applyHunksToFiles slashPaths (diskFs (fun p => [p]) slashPaths.parent (fun _ => none)) "/w".toList oneFile (.empty Str)
        (moveTo "f".toList)).1.files.entries "/w/f".toList = none ∧
    (replayAll oneFile.files (movedTo "/w/f".toList (some "a\n".toList))).entries "/w/f".toList =
      some (.text "b\n".toList) := by
  decide

end Owc.Patch
