import OpenWebCodex.PatchReplace
/-!
# PatchApply — hunks applied to a file system

`apply_hunks` and what it calls (`apply-patch/src/lib.rs`), over any `ExecutorFileSystem`: a record of the operations the
code uses, each passing on the file system's state.  Reads pass it on too, since a real file system may fail at any call.
Path URIs are a type with the operations the code uses of `PathUri`.
-/
namespace Owc.Patch

/-! ## What the code is given -/

/-- `FileMetadata`, less the size and times nothing here reads. -/
structure FileMetadata where
  isDirectory : Bool
  isFile : Bool
  isSymlink : Bool

structure PathOps (P : Type) where
  join : P → Str → Except Str P
  parent : P → Option P
  inferredNativePathString : P → Str

/-- Paths joined with a slash, as `PathUri` joins a plain relative name. -/
def slashPaths : PathOps Str where
  join cwd path := .ok (cwd ++ '/' :: path)
  parent path := match path.reverse.dropWhile (· ≠ '/') with
    | [] => none
    | _ :: parent => some parent.reverse
  inferredNativePathString path := path

structure ExecutorFileSystem (P σ : Type) where
  getMetadata : σ → P → σ × Except IoError FileMetadata
  readFileText : σ → P → σ × Except IoError Str
  writeFile : σ → P → Str → σ × Except IoError Unit
  /-- With `recursive: true`. -/
  createDirectory : σ → P → σ × Except IoError Unit
  /-- With `recursive: false` and `force: false`. -/
  remove : σ → P → σ × Except IoError Unit

inductive AppliedPatchFileChange (P : Type)
  | add (content : Str) (overwrittenContent : Option Str)
  | delete (content : Str)
  | update (movePath : Option P) (oldContent : Str) (overwrittenMoveContent : Option Str) (newContent : Str)
deriving DecidableEq

structure AppliedPatchChange (P : Type) where
  path : P
  change : AppliedPatchFileChange P
deriving DecidableEq

structure AppliedPatchDelta (P : Type) where
  changes : List (AppliedPatchChange P)
  exact_ : Bool
deriving DecidableEq

def AppliedPatchDelta.empty (P : Type) : AppliedPatchDelta P := ⟨[], true⟩

structure AffectedPaths where
  added : List Str
  modified : List Str
  deleted : List Str
deriving DecidableEq

/-- The `anyhow::Error`s of `apply_hunks_to_files`, by what they wrap. -/
inductive HunkError
  | bail (message : Str)
  | pathUri (message : Str)
  | io (context : Str) (source : IoError)
  | derived (error : ApplyPatchError)
deriving DecidableEq

structure AppliedPatch where
  originalContents : Str
  newContents : Str
deriving DecidableEq

/-! ## `derive_new_contents_from_chunks` -/

def fileLines (contents : Str) : List Str :=
  let lines := contents.split '\n'
  if lines.getLast? = some [] then lines.dropLast else lines

def fileText (lines : List Str) : Str :=
  Str.joinNl (if lines.getLast? = some [] then lines else lines ++ [[]])

def deriveNewContents (pathText : Str) (originalContents : Str) (chunks : List UpdateFileChunk) :
    Except ApplyPatchError AppliedPatch :=
  match computeReplacements (fileLines originalContents) pathText chunks with
  | .error e => .error e
  | .ok replacements => .ok ⟨originalContents, fileText (applyReplacements (fileLines originalContents) replacements)⟩

section Apply

variable {P σ : Type} (paths : PathOps P) (fs : ExecutorFileSystem P σ)

def deriveNewContentsFromChunks (s : σ) (path : P) (chunks : List UpdateFileChunk) :
    σ × Except ApplyPatchError AppliedPatch :=
  match fs.readFileText s path with
  | (s, .error err) => (s, .error (.ioError ("Failed to read file to update ".toList ++ paths.inferredNativePathString path) err))
  | (s, .ok originalContents) => (s, deriveNewContents (paths.inferredNativePathString path) originalContents chunks)

/-! ## Probes, and a write that makes its parent directories -/

def ensureNotDirectory (s : σ) (path : P) : σ × Except IoError Unit :=
  match fs.getMetadata s path with
  | (s, .error e) => (s, .error e)
  | (s, .ok metadata) =>
    (s, if metadata.isDirectory then .error ⟨.invalidInput, "path is a directory".toList⟩ else .ok ())

def removeFailureWasSideEffectFree (s : σ) (path : P) (expectedContent : Option Str) : σ × Bool :=
  match expectedContent with
  | none => (s, false)
  | some expectedContent =>
    match fs.readFileText s path with
    | (s, .error _) => (s, false)
    | (s, .ok content) => (s, content == expectedContent)

def noteExistingPathDeltaSupport (s : σ) (path : P) (exact_ : Bool) : σ × Bool :=
  match fs.getMetadata s path with
  | (s, .ok metadata) => (s, exact_ && (metadata.isFile && !metadata.isSymlink))
  | (s, .error source) => (s, exact_ && source.kind == .notFound)

def readOptionalFileTextForDelta (s : σ) (path : P) (exact_ : Bool) : σ × Bool × Option Str :=
  match noteExistingPathDeltaSupport fs s path exact_ with
  | (s, exact_) =>
    match fs.readFileText s path with
    | (s, .ok content) => (s, exact_, some content)
    | (s, .error source) => (s, exact_ && source.kind == .notFound, none)

def failedToWrite (path : P) : Str := "Failed to write file ".toList ++ paths.inferredNativePathString path

def createParent (s : σ) (path : P) : σ × Except IoError Unit :=
  match paths.parent path with
  | none => (s, .ok ())
  | some parent => fs.createDirectory s parent

def writeFileWithMissingParentRetry (s : σ) (path : P) (contents : Str) : σ × Except HunkError Unit :=
  match fs.writeFile s path contents with
  | (s, .ok _) => (s, .ok ())
  | (s, .error err) =>
    if err.kind = .notFound then
      match createParent paths fs s path with
      | (s, .error e) =>
        (s, .error (.io ("Failed to create parent directories for ".toList ++ paths.inferredNativePathString path) e))
      | (s, .ok _) =>
        match fs.writeFile s path contents with
        | (s, .error e) => (s, .error (.io (failedToWrite paths path) e))
        | (s, .ok _) => (s, .ok ())
    else (s, .error (.io (failedToWrite paths path) err))

/-! ## One hunk

Each arm of the loop returns the delta as it stands and whether the loop goes on. -/

def AppliedPatchDelta.push (delta : AppliedPatchDelta P) (path : P) (change : AppliedPatchFileChange P) :
    AppliedPatchDelta P := { delta with changes := delta.changes ++ [⟨path, change⟩] }

def applyAddFile (s : σ) (delta : AppliedPatchDelta P) (path : P) (contents : Str) :
    σ × AppliedPatchDelta P × Except HunkError Unit :=
  match readOptionalFileTextForDelta fs s path delta.exact_ with
  | (s, exact_, overwrittenContent) =>
    match writeFileWithMissingParentRetry paths fs s path contents with
    | (s, .error e) => (s, { delta with exact_ := false }, .error e)
    | (s, .ok _) => (s, { delta with exact_ }.push path (.add contents overwrittenContent), .ok ())

/-- `ensure_not_directory` and `remove`, and what a failed removal does to the `exact` flag. -/
def removeFile (s : σ) (exact_ : Bool) (path : P) (context : Str) (expectedContent : Option Str) :
    σ × Bool × Except HunkError Unit :=
  match ensureNotDirectory fs s path with
  | (s, .error e) => (s, exact_, .error (.io context e))
  | (s, .ok _) =>
    match fs.remove s path with
    | (s, .ok _) => (s, exact_, .ok ())
    | (s, .error e) =>
      match removeFailureWasSideEffectFree fs s path expectedContent with
      | (s, free) => (s, exact_ && free, .error (.io context e))

def applyDeleteFile (s : σ) (delta : AppliedPatchDelta P) (path : P) : σ × AppliedPatchDelta P × Except HunkError Unit :=
  match noteExistingPathDeltaSupport fs s path delta.exact_ with
  | (s, exact_) =>
    match fs.readFileText s path with
    | (s, read) =>
      let deletedContent := read.toOption
      match removeFile fs s (exact_ && deletedContent.isSome) path
          ("Failed to delete file ".toList ++ paths.inferredNativePathString path) deletedContent with
      | (s, exact_, .error e) => (s, { delta with exact_ }, .error e)
      | (s, exact_, .ok _) =>
        match deletedContent with
        | none => (s, { delta with exact_ }, .ok ())
        | some content => (s, { delta with exact_ }.push path (.delete content), .ok ())

def applyInPlace (s : σ) (delta : AppliedPatchDelta P) (path : P) (applied : AppliedPatch) :
    σ × AppliedPatchDelta P × Except HunkError Unit :=
  match fs.writeFile s path applied.newContents with
  | (s, .error e) => (s, { delta with exact_ := false }, .error (.io (failedToWrite paths path) e))
  | (s, .ok _) => (s, delta.push path (.update none applied.originalContents none applied.newContents), .ok ())

/-- The arm of a move: the destination is written and noted as added, and the note rewritten once the original is gone. -/
def applyMove (s : σ) (delta : AppliedPatchDelta P) (path dest : P) (applied : AppliedPatch) :
    σ × AppliedPatchDelta P × Except HunkError Unit :=
  match readOptionalFileTextForDelta fs s dest delta.exact_ with
  | (s, exact_, overwrittenMoveContent) =>
    match writeFileWithMissingParentRetry paths fs s dest applied.newContents with
    | (s, .error e) => (s, { delta with exact_ := false }, .error e)
    | (s, .ok _) =>
      match removeFile fs s exact_ path ("Failed to remove original ".toList ++ paths.inferredNativePathString path)
          (some applied.originalContents) with
      | (s, exact_, .error e) =>
        (s, { delta with exact_ }.push dest (.add applied.newContents overwrittenMoveContent), .error e)
      | (s, exact_, .ok _) =>
        (s, { delta with exact_ }.push path
          (.update (some dest) applied.originalContents overwrittenMoveContent applied.newContents), .ok ())

def applyUpdateFile (cwd : P) (s : σ) (delta : AppliedPatchDelta P) (path : P) (movePath : Option Str)
    (chunks : List UpdateFileChunk) : σ × AppliedPatchDelta P × Except HunkError Unit :=
  match noteExistingPathDeltaSupport fs s path delta.exact_ with
  | (s, exact_) =>
    match deriveNewContentsFromChunks paths fs s path chunks with
    | (s, .error e) => (s, { delta with exact_ }, .error (.derived e))
    | (s, .ok applied) =>
      match movePath with
      | none => applyInPlace paths fs s { delta with exact_ } path applied
      | some dest =>
        match paths.join cwd dest with
        | .error e => (s, { delta with exact_ }, .error (.pathUri e))
        | .ok destUri => applyMove paths fs s { delta with exact_ } path destUri applied

def Hunk.resolvePath (cwd : P) (hunk : Hunk) : Except Str P := paths.join cwd hunk.sourcePath

def applyHunk (cwd : P) (s : σ) (delta : AppliedPatchDelta P) (hunk : Hunk) :
    σ × AppliedPatchDelta P × Except HunkError Unit :=
  match hunk.resolvePath paths cwd with
  | .error e => (s, delta, .error (.pathUri e))
  | .ok path =>
    match hunk with
    | .addFile _ contents => applyAddFile paths fs s delta path contents
    | .deleteFile _ => applyDeleteFile paths fs s delta path
    | .updateFile _ movePath chunks => applyUpdateFile paths fs cwd s delta path movePath chunks

/-! ## All hunks -/

def AffectedPaths.note (affected : AffectedPaths) (hunk : Hunk) : AffectedPaths :=
  match hunk with
  | .addFile _ _ => { affected with added := affected.added ++ [hunk.path] }
  | .deleteFile _ => { affected with deleted := affected.deleted ++ [hunk.path] }
  | .updateFile _ _ _ => { affected with modified := affected.modified ++ [hunk.path] }

def applyHunkLoop (cwd : P) : σ → AppliedPatchDelta P → AffectedPaths → List Hunk →
    σ × AppliedPatchDelta P × Except HunkError AffectedPaths
  | s, delta, affected, [] => (s, delta, .ok affected)
  | s, delta, affected, hunk :: hunks =>
    match applyHunk paths fs cwd s delta hunk with
    | (s, delta, .error e) => (s, delta, .error e)
    | (s, delta, .ok _) => applyHunkLoop cwd s delta (affected.note hunk) hunks

def applyHunksToFiles (cwd : P) (s : σ) (delta : AppliedPatchDelta P) (hunks : List Hunk) :
    σ × AppliedPatchDelta P × Except HunkError AffectedPaths :=
  if hunks.isEmpty then (s, delta, .error (.bail "No files were modified.".toList))
  else applyHunkLoop paths fs cwd s delta ⟨[], [], []⟩ hunks

end Apply

/-! ## `apply_hunks` -/

def ParseError.text : ParseError → Str
  | .invalidPatchError message => "invalid patch: ".toList ++ message
  | .invalidHunkError message lineNumber =>
    "invalid hunk at line ".toList ++ (toString lineNumber).toList ++ ", ".toList ++ message

def ApplyPatchError.text : ApplyPatchError → Str
  | .parseError error => error.text
  | .ioError context source => context ++ ": ".toList ++ source.message
  | .computeReplacements message => message
  | .pathUri message => message
  | .implicitInvocation => ("patch detected without explicit call to apply_patch. " ++
      "Rerun as [\"apply_patch\", \"<patch>\"]").toList

def HunkError.text : HunkError → Str
  | .bail message => message
  | .pathUri message => message
  | .io context _ => context
  | .derived error => error.text

/-- An I/O error is found under its context, whatever else there is becomes one. -/
def HunkError.toApplyPatchError : HunkError → ApplyPatchError
  | .io _ source => .ioError "I/O error".toList source
  | e => .ioError e.text ⟨.other, e.text⟩

def printSummary (affected : AffectedPaths) : Str :=
  "Success. Updated the following files:\n".toList ++
    affected.added.flatMap (fun p => "A ".toList ++ p ++ ['\n']) ++
    affected.modified.flatMap (fun p => "M ".toList ++ p ++ ['\n']) ++
    affected.deleted.flatMap (fun p => "D ".toList ++ p ++ ['\n'])

structure ApplyPatchFailure (P : Type) where
  error : ApplyPatchError
  delta : AppliedPatchDelta P

/-- What one application leaves: the file system, what was printed, and the delta or the failure. -/
structure Applied (P σ : Type) where
  state : σ
  stdout : Str
  stderr : Str
  result : Except (ApplyPatchFailure P) (AppliedPatchDelta P)

def applyHunks {P σ : Type} (paths : PathOps P) (fs : ExecutorFileSystem P σ) (cwd : P) (s : σ) (hunks : List Hunk) :
    Applied P σ :=
  match applyHunksToFiles paths fs cwd s (.empty P) hunks with
  | (s, delta, .ok affected) => ⟨s, printSummary affected, [], .ok delta⟩
  | (s, delta, .error error) => ⟨s, [], error.text ++ ['\n'], .error ⟨error.toApplyPatchError, delta⟩⟩

end Owc.Patch
