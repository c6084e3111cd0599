import OpenWebCodex.PatchApply
import OpenWebCodex.PatchStream
/-!
# PatchVerify — what verification announces, and what application does

`verify_apply_patch_args` (`apply-patch/src/invocation.rs`) evaluates every hunk on the file system as it is and collects
the changes by path; `apply_hunks` carries the hunks out one after the other.  On a file system that is a map from paths
to texts the two agree for patches whose hunks keep off each other's paths (`applyHunks_announced`).
-/
namespace Owc.Patch

open Hunk Function

/-! ## `verify_apply_patch_args` -/

inductive ApplyPatchFileChange (P : Type)
  | add (content : Str)
  | delete (content : Str)
  | update (unifiedDiff : Str) (movePath : Option P) (newContent : Str)
deriving DecidableEq

/-- The `HashMap` of the changes is a list without two entries for one path. -/
structure ApplyPatchAction (P : Type) where
  changes : List (P × ApplyPatchFileChange P)
  patch : Str
  cwd : P
deriving DecidableEq

inductive MaybeApplyPatchVerified (P : Type)
  | body (action : ApplyPatchAction P)
  | correctnessError (error : ApplyPatchError)
deriving DecidableEq

section Verify

variable {P σ : Type} [DecidableEq P] (paths : PathOps P) (fs : ExecutorFileSystem P σ)
  (unifiedDiff : Str → Str → Str)

def insertChange (changes : List (P × ApplyPatchFileChange P)) (path : P) (change : ApplyPatchFileChange P) :
    List (P × ApplyPatchFileChange P) :=
  (path, change) :: changes.filter (fun e => e.1 ≠ path)

def verifyHunk (cwd : P) (s : σ) (hunk : Hunk) : σ × Except ApplyPatchError (P × ApplyPatchFileChange P) :=
  match hunk.resolvePath paths cwd with
  | .error e => (s, .error (.pathUri e))
  | .ok path =>
    match hunk with
    | .addFile _ contents => (s, .ok (path, .add contents))
    | .deleteFile _ =>
      match fs.readFileText s path with
      | (s, .error source) => (s, .error (.ioError ("Failed to read ".toList ++ paths.inferredNativePathString path) source))
      | (s, .ok content) => (s, .ok (path, .delete content))
    | .updateFile _ movePath chunks =>
      match deriveNewContentsFromChunks paths fs s path chunks with
      | (s, .error e) => (s, .error e)
      | (s, .ok applied) =>
        let diff := unifiedDiff applied.originalContents applied.newContents
        match movePath with
        | none => (s, .ok (path, .update diff none applied.newContents))
        | some dest =>
          match paths.join cwd dest with
          | .error e => (s, .error (.pathUri e))
          | .ok destUri => (s, .ok (path, .update diff (some destUri) applied.newContents))

def verifyHunks (cwd : P) : σ → List (P × ApplyPatchFileChange P) → List Hunk →
    σ × Except ApplyPatchError (List (P × ApplyPatchFileChange P))
  | s, changes, [] => (s, .ok changes)
  | s, changes, hunk :: hunks =>
    match verifyHunk paths fs unifiedDiff cwd s hunk with
    | (s, .error e) => (s, .error e)
    | (s, .ok (path, change)) => verifyHunks cwd s (insertChange changes path change) hunks

def effectiveCwd (cwd : P) : Option Str → Except Str P
  | none => .ok cwd
  | some dir => paths.join cwd dir

def tryVerifyApplyPatchArgs (s : σ) (args : ApplyPatchArgs) (cwd : P) : σ × Except ApplyPatchError (ApplyPatchAction P) :=
  match effectiveCwd paths cwd args.workdir with
  | .error e => (s, .error (.pathUri e))
  | .ok effective =>
    match verifyHunks paths fs unifiedDiff effective s [] args.hunks with
    | (s, .error e) => (s, .error e)
    | (s, .ok changes) => (s, .ok ⟨changes, args.patch, effective⟩)

def verifyApplyPatchArgs (s : σ) (args : ApplyPatchArgs) (cwd : P) : σ × MaybeApplyPatchVerified P :=
  match tryVerifyApplyPatchArgs paths fs unifiedDiff s args cwd with
  | (s, .ok action) => (s, .body action)
  | (s, .error e) => (s, .correctnessError e)

end Verify

/-! ## What an action announces -/

section Announce

variable {P : Type}

def ApplyPatchFileChange.Holds (m : P → Option Str) (path : P) : ApplyPatchFileChange P → Prop
  | .add content => m path = some content
  | .delete _ => m path = none
  | .update _ none newContent => m path = some newContent
  | .update _ (some dest) newContent => m path = none ∧ m dest = some newContent

def ApplyPatchFileChange.movePath : ApplyPatchFileChange P → Option P
  | .update _ movePath _ => movePath
  | _ => none

/-- The action speaks of the path: it has a change for it, or moves a file there. -/
def Mentions (changes : List (P × ApplyPatchFileChange P)) (x : P) : Prop :=
  ∃ e ∈ changes, e.1 = x ∨ e.2.movePath = some x

/-- **`after` is what the changes announce of `before`**: each change holds, and no path the changes do not mention
differs. -/
structure Announced (before after : P → Option Str) (changes : List (P × ApplyPatchFileChange P)) : Prop where
  holds : ∀ e ∈ changes, e.2.Holds after e.1
  frame : ∀ x, ¬ Mentions changes x → after x = before x

theorem ApplyPatchFileChange.holds_congr {m m' : P → Option Str} {path : P} {change : ApplyPatchFileChange P}
    (hp : m' path = m path) (hd : ∀ dest, change.movePath = some dest → m' dest = m dest) (h : change.Holds m path) :
    change.Holds m' path := by
  cases change with
  | add | delete => exact hp.trans h
  | update diff movePath =>
    cases movePath with
    | none => exact hp.trans h
    | some dest => exact ⟨hp.trans h.1, (hd dest rfl).trans h.2⟩

/-! ## What verification finds -/

variable (paths : PathOps P)

/-- What verification has found out about a hunk, in the words of the map it looked at. -/
inductive Verified (m : P → Option Str) (cwd : P) : Hunk → P → ApplyPatchFileChange P → Prop
  | addFile {text contents : Str} {path : P} (hp : paths.join cwd text = .ok path) :
      Verified m cwd (.addFile text contents) path (.add contents)
  | deleteFile {text content : Str} {path : P} (hp : paths.join cwd text = .ok path) (hc : m path = some content) :
      Verified m cwd (.deleteFile text) path (.delete content)
  | inPlace {text original diff : Str} {path : P} {chunks : List UpdateFileChunk} {applied : AppliedPatch}
      (hp : paths.join cwd text = .ok path) (hc : m path = some original)
      (hn : deriveNewContents (paths.inferredNativePathString path) original chunks = .ok applied) :
      Verified m cwd (.updateFile text none chunks) path (.update diff none applied.newContents)
  | moved {text moveTo original diff : Str} {path dest : P} {chunks : List UpdateFileChunk} {applied : AppliedPatch}
      (hp : paths.join cwd text = .ok path) (hd : paths.join cwd moveTo = .ok dest) (hc : m path = some original)
      (hn : deriveNewContents (paths.inferredNativePathString path) original chunks = .ok applied) :
      Verified m cwd (.updateFile text (some moveTo) chunks) path (.update diff (some dest) applied.newContents)

/-- What the present map must say for the hunk to do what was verified: an update finds the text that was read, a deletion
finds some text, a move does not end where it starts. -/
def Ready (m now : P → Option Str) (path : P) : ApplyPatchFileChange P → Prop
  | .add _ => True
  | .delete _ => (now path).isSome
  | .update _ none _ => now path = m path
  | .update _ (some dest) _ => now path = m path ∧ dest ≠ path

end Announce

/-! ## A file system that is a map -/

section Map

variable {P : Type} [DecidableEq P]

def noSuchFile : IoError := ⟨.notFound, "No such file or directory (os error 2)".toList⟩

/-- Texts by path: no directories, no links, and nothing fails but the reading of what is not there. -/
def mapFs (P : Type) [DecidableEq P] : ExecutorFileSystem P (P → Option Str) where
  getMetadata m p := (m, match m p with
    | some _ => .ok ⟨false, true, false⟩
    | none => .error noSuchFile)
  readFileText m p := (m, match m p with
    | some content => .ok content
    | none => .error noSuchFile)
  writeFile m p contents := (Function.update m p (some contents), .ok ())
  createDirectory m _ := (m, .ok ())
  remove m p := match m p with
    | some _ => (Function.update m p none, .ok ())
    | none => (m, .error noSuchFile)

def ApplyPatchFileChange.effect (m : P → Option Str) (path : P) : ApplyPatchFileChange P → P → Option Str
  | .add content => Function.update m path (some content)
  | .delete _ => Function.update m path none
  | .update _ none newContent => Function.update m path (some newContent)
  | .update _ (some dest) newContent => Function.update (Function.update m dest (some newContent)) path none

section

variable {path : P} {change : ApplyPatchFileChange P}

theorem mem_insertChange {e} :
    e ∈ insertChange changes path change ↔ e = (path, change) ∨ (e ∈ changes ∧ e.1 ≠ path) := by
  simp [insertChange, List.mem_filter]

theorem ApplyPatchFileChange.holds_effect (m : P → Option Str) (hd : change.movePath ≠ some path) :
    change.Holds (change.effect m path) path := by
  cases change with
  | add | delete => exact update_self ..
  | update diff movePath newContent =>
    cases movePath with
    | none => exact update_self ..
    | some dest =>
      have hne : dest ≠ path := fun h => hd (by rw [h]; rfl)
      simp [Holds, effect, hne]

theorem ApplyPatchFileChange.effect_of_ne (m : P → Option Str) {x} (hp : x ≠ path) (hd : change.movePath ≠ some x) :
    change.effect m path x = m x := by
  cases change with
  | add | delete => exact update_of_ne hp ..
  | update diff movePath newContent =>
    cases movePath with
    | none => exact update_of_ne hp ..
    | some dest =>
      have hx : x ≠ dest := fun h => hd (by rw [h]; rfl)
      simp [effect, hp, hx]

end

/-! ## One hunk on a map -/

variable (paths : PathOps P) (unifiedDiff : Str → Str → Str) {cwd : P}

theorem readFileText_mapFs (m : P → Option Str) (path : P) :
    (mapFs P).readFileText m path = (m, match m path with | some content => .ok content | none => .error noSuchFile) := rfl

theorem deriveNewContentsFromChunks_mapFs {m : P → Option Str} {path content} (h : m path = some content)
    (chunks : List UpdateFileChunk) :
    deriveNewContentsFromChunks paths (mapFs P) m path chunks =
      (m, deriveNewContents (paths.inferredNativePathString path) content chunks) := by
  simp only [deriveNewContentsFromChunks, readFileText_mapFs, h]

theorem verifyHunk_mapFs {m m' : P → Option Str} {hunk path change}
    (h : verifyHunk paths (mapFs P) unifiedDiff cwd m hunk = (m', .ok (path, change))) :
    m' = m ∧ Verified paths m cwd hunk path change := by
  cases hp : paths.join cwd hunk.sourcePath with
  | error e => simp [verifyHunk, resolvePath, hp] at h
  | ok p =>
  cases hunk with
  | addFile =>
    simp only [verifyHunk, resolvePath, hp] at h
    cases h
    exact ⟨rfl, .addFile hp⟩
  | deleteFile text =>
    cases hm : m p with
    | none => simp [verifyHunk, resolvePath, hp, readFileText_mapFs, hm] at h
    | some content =>
      simp only [verifyHunk, resolvePath, hp, readFileText_mapFs, hm] at h
      cases h
      exact ⟨rfl, .deleteFile hp hm⟩
  | updateFile text movePath chunks =>
    cases hm : m p with
    | none => simp [verifyHunk, resolvePath, hp, deriveNewContentsFromChunks, readFileText_mapFs, hm] at h
    | some original =>
    have hder := deriveNewContentsFromChunks_mapFs paths hm chunks
    cases hn : deriveNewContents (paths.inferredNativePathString p) original chunks with
    | error e => simp [verifyHunk, resolvePath, hp, hder, hn] at h
    | ok applied =>
    simp only [verifyHunk, resolvePath, hp, hder, hn] at h
    cases movePath with
    | none =>
      cases h
      exact ⟨rfl, .inPlace hp hm hn⟩
    | some moveTo =>
      cases hd : paths.join cwd moveTo with
      | error e => simp [hd] at h
      | ok dest =>
        simp only [hd] at h
        cases h
        exact ⟨rfl, .moved hp hd hm hn⟩

section

variable (m : P → Option Str) (path : P)

theorem noteExistingPathDeltaSupport_mapFs (exact_ : Bool) :
    noteExistingPathDeltaSupport (mapFs P) m path exact_ = (m, exact_) := by
  cases h : m path <;> simp [noteExistingPathDeltaSupport, mapFs, h, noSuchFile]

theorem readOptionalFileTextForDelta_mapFs (exact_ : Bool) :
    readOptionalFileTextForDelta (mapFs P) m path exact_ = (m, exact_, m path) := by
  cases h : m path <;>
    simp [readOptionalFileTextForDelta, noteExistingPathDeltaSupport_mapFs, readFileText_mapFs, h, noSuchFile]

theorem writeFileWithMissingParentRetry_mapFs (contents : Str) :
    writeFileWithMissingParentRetry paths (mapFs P) m path contents = (update m path (some contents), .ok ()) := rfl

end

theorem removeFile_mapFs {m : P → Option Str} {path content} (h : m path = some content) (exact_ : Bool)
    (context : Str) (expected : Option Str) :
    removeFile (mapFs P) m exact_ path context expected = (update m path none, exact_, .ok ()) := by
  simp [removeFile, ensureNotDirectory, mapFs, h]

/-- **A hunk that finds what was verified does what was announced.** -/
theorem applyHunk_mapFs {m now : P → Option Str} {hunk path change}
    (hv : Verified paths m cwd hunk path change) (hr : Ready m now path change) (delta : AppliedPatchDelta P) :
    (applyHunk paths (mapFs P) cwd now delta hunk).1 = change.effect now path ∧
      (applyHunk paths (mapFs P) cwd now delta hunk).2.2 = .ok () := by
  cases hv with
  | addFile hp =>
    simp only [applyHunk, resolvePath, sourcePath, hp, applyAddFile, readOptionalFileTextForDelta_mapFs,
      writeFileWithMissingParentRetry_mapFs]
    exact ⟨rfl, trivial⟩
  | deleteFile hp =>
    obtain ⟨_, hnow⟩ := Option.isSome_iff_exists.1 hr
    simp only [applyHunk, resolvePath, sourcePath, hp, applyDeleteFile, noteExistingPathDeltaSupport_mapFs,
      readFileText_mapFs, hnow, Except.toOption, removeFile_mapFs hnow]
    exact ⟨rfl, trivial⟩
  | inPlace hp hc hn =>
    have hnow := Eq.trans hr hc
    simp only [applyHunk, resolvePath, sourcePath, hp, applyUpdateFile, noteExistingPathDeltaSupport_mapFs,
      deriveNewContentsFromChunks_mapFs paths hnow, hn, applyInPlace]
    exact ⟨rfl, rfl⟩
  | @moved text moveTo original diff path dest chunks applied hp hd hc hn =>
    have hnow := Eq.trans hr.1 hc
    -- the destination is written before the original goes
    have hafter : update now dest (some applied.newContents) path = some original := by
      rw [update_of_ne (Ne.symm hr.2), hnow]
    simp only [applyHunk, resolvePath, sourcePath, hp, applyUpdateFile, noteExistingPathDeltaSupport_mapFs,
      deriveNewContentsFromChunks_mapFs paths hnow, hn, hd, applyMove, readOptionalFileTextForDelta_mapFs,
      writeFileWithMissingParentRetry_mapFs, removeFile_mapFs hafter]
    exact ⟨rfl, trivial⟩

end Map

end Owc.Patch
