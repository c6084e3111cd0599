import OpenWebCodex.PatchStream
/-!
# PatchPrint — the texts of a list of hunks

The grammar in the head of `apply-patch/src/parser.rs`, read as a relation: `Renders hunks environmentId text` says that
`text` is one way of writing the hunks down.  A hunk has many texts, since its context, removed and added lines may stand
in any order that keeps the old and the new lines, and the first `@@` may be missing; `render` is one of them.
-/
namespace Owc.Patch

/-! ## Hunks that can be printed -/

/-- A file name as the grammar has it: one line, not blank at either end. -/
structure PrintablePath (path : Str) : Prop where
  ne_nil : path ≠ []
  one_line : '\n' ∉ path
  trimmed : path.trim = path

structure PrintableLine (line : Str) : Prop where
  one_line : '\n' ∉ line
  no_cr : line.getLast? ≠ some '\r'

structure PrintableContext (context : Str) : Prop where
  ne_nil : context ≠ []
  one_line : '\n' ∉ context
  trimmed : context.trimEnd = context

structure PrintableChunk (chunk : UpdateFileChunk) : Prop where
  context : ∀ c ∈ chunk.changeContext, PrintableContext c
  not_bare : chunk.isBare = false
  old : ∀ l ∈ chunk.oldLines, PrintableLine l
  new : ∀ l ∈ chunk.newLines, PrintableLine l

def unlines (lines : List Str) : Str := lines.flatMap (· ++ ['\n'])

inductive Printable : Hunk → Prop
  | addFile {path : Str} {lines : List Str} (hp : PrintablePath path) (hl : ∀ l ∈ lines, PrintableLine l) :
      Printable (.addFile path (unlines lines))
  | deleteFile {path : Str} (hp : PrintablePath path) : Printable (.deleteFile path)
  | updateFile {path : Str} {movePath : Option Str} {chunks : List UpdateFileChunk} (hp : PrintablePath path)
      (hm : ∀ p ∈ movePath, PrintablePath p) (hne : chunks ≠ []) (hc : ∀ c ∈ chunks, PrintableChunk c) :
      Printable (.updateFile path movePath chunks)

/-! ## Their texts -/

/-- Change lines: the old lines, the new lines and one way of writing both down.  An empty context line may lose its
blank. -/
inductive ChangeLines : List Str → List Str → List Str → Prop
  | nil : ChangeLines [] [] []
  | context (l : Str) {old new text : List Str} (h : ChangeLines old new text) :
      ChangeLines (l :: old) (l :: new) ((' ' :: l) :: text)
  | blank {old new text : List Str} (h : ChangeLines old new text) : ChangeLines ([] :: old) ([] :: new) ([] :: text)
  | add (l : Str) {old new text : List Str} (h : ChangeLines old new text) : ChangeLines old (l :: new) (('+' :: l) :: text)
  | remove (l : Str) {old new text : List Str} (h : ChangeLines old new text) :
      ChangeLines (l :: old) new (('-' :: l) :: text)

def contextLine : Option Str → Str
  | none => emptyChangeContextMarker
  | some context => changeContextMarker ++ context

def eofLines (isEndOfFile : Bool) : List Str := if isEndOfFile then [eofMarker] else []

/-- A chunk's lines below its `@@`. -/
def ChunkBody (chunk : UpdateFileChunk) (text : List Str) : Prop :=
  ∃ changes, ChangeLines chunk.oldLines chunk.newLines changes ∧ text = changes ++ eofLines chunk.isEndOfFile

inductive ChunkLines : List UpdateFileChunk → List Str → Prop
  | nil : ChunkLines [] []
  | cons {chunk : UpdateFileChunk} {chunks : List UpdateFileChunk} {body text : List Str} (hb : ChunkBody chunk body)
      (h : ChunkLines chunks text) : ChunkLines (chunk :: chunks) (contextLine chunk.changeContext :: body ++ text)

/-- All chunks of a hunk: the first may do without its `@@` when it has no context. -/
inductive UpdateLines : List UpdateFileChunk → List Str → Prop
  | full {chunks : List UpdateFileChunk} {text : List Str} (h : ChunkLines chunks text) : UpdateLines chunks text
  | short {chunk : UpdateFileChunk} {chunks : List UpdateFileChunk} {body text : List Str}
      (hn : chunk.changeContext = none) (hb : ChunkBody chunk body) (h : ChunkLines chunks text) :
      UpdateLines (chunk :: chunks) (body ++ text)

inductive HunkLines : Hunk → List Str → Prop
  | addFile (path : Str) {lines : List Str} (hl : ∀ l ∈ lines, '\n' ∉ l) :
      HunkLines (.addFile path (unlines lines)) ((addFileMarker ++ path) :: lines.map ('+' :: ·))
  | deleteFile (path : Str) : HunkLines (.deleteFile path) [deleteFileMarker ++ path]
  | updateFile (path : Str) (movePath : Option Str) {chunks : List UpdateFileChunk} {text : List Str}
      (h : UpdateLines chunks text) :
      HunkLines (.updateFile path movePath chunks)
        ((updateFileMarker ++ path) :: movePath.toList.map (moveToMarker ++ ·) ++ text)

inductive HunksLines : List Hunk → List Str → Prop
  | nil : HunksLines [] []
  | cons {hunk : Hunk} {hunks : List Hunk} {text rest : List Str} (h : HunkLines hunk text) (hs : HunksLines hunks rest) :
      HunksLines (hunk :: hunks) (text ++ rest)

def environmentLines (environmentId : Option Str) : List Str :=
  environmentId.toList.map (fun id => environmentIdMarker ++ ' ' :: id)

def patchLines (environmentId : Option Str) (body : List Str) : List Str :=
  beginPatchMarker :: environmentLines environmentId ++ body

/-- **The texts of a patch**: every line ends in a line feed, the last may. -/
def Renders (hunks : List Hunk) (environmentId : Option Str) (text : Str) : Prop :=
  ∃ body, HunksLines hunks body ∧ ∃ tail ∈ [[], ['\n']],
    text = unlines (patchLines environmentId body) ++ endPatchMarker ++ tail

/-! ## One text -/

def renderChunk (chunk : UpdateFileChunk) : List Str :=
  contextLine chunk.changeContext ::
    (chunk.oldLines.map ('-' :: ·) ++ chunk.newLines.map ('+' :: ·)) ++ eofLines chunk.isEndOfFile

def renderHunk : Hunk → List Str
  | .addFile path contents => (addFileMarker ++ path) :: (contents.split '\n').dropLast.map ('+' :: ·)
  | .deleteFile path => [deleteFileMarker ++ path]
  | .updateFile path movePath chunks =>
    (updateFileMarker ++ path) :: movePath.toList.map (moveToMarker ++ ·) ++ chunks.flatMap renderChunk

/-- Every chunk with its `@@`, removed lines before added ones, no line feed at the end. -/
def render (hunks : List Hunk) : Str :=
  unlines (patchLines none (hunks.flatMap renderHunk)) ++ endPatchMarker

theorem changeLines_add (new : List Str) : ChangeLines [] new (new.map ('+' :: ·)) := by
  induction new with
  | nil => exact .nil
  | cons l new ih => exact .add l ih

theorem changeLines_removeAdd (new : List Str) : ∀ old, ChangeLines old new (old.map ('-' :: ·) ++ new.map ('+' :: ·))
  | [] => changeLines_add new
  | l :: old => .remove l (changeLines_removeAdd new old)

theorem chunkLines_render : ∀ chunks, ChunkLines chunks (chunks.flatMap renderChunk)
  | [] => .nil
  | chunk :: chunks =>
    .cons ⟨_, changeLines_removeAdd chunk.newLines chunk.oldLines, rfl⟩ (chunkLines_render chunks)

theorem split_unlines_append (s : Str) : ∀ lines, (∀ l ∈ lines, '\n' ∉ l) →
    (unlines lines ++ s).split '\n' = lines ++ s.split '\n'
  | [], _ => rfl
  | l :: lines, h => by
    have ih := split_unlines_append s lines fun x hx => h x (List.mem_cons_of_mem _ hx)
    have hcons : unlines (l :: lines) ++ s = l ++ '\n' :: (unlines lines ++ s) := by simp [unlines]
    rw [hcons, Str.split_append_sep '\n' _ l (h l List.mem_cons_self), ih]
    rfl

theorem split_unlines (lines : List Str) (h : ∀ l ∈ lines, '\n' ∉ l) : (unlines lines).split '\n' = lines ++ [[]] := by
  have := split_unlines_append [] lines h
  rwa [List.append_nil] at this

theorem hunkLines_render (h : Printable hunk) : HunkLines hunk (renderHunk hunk) := by
  cases h with
  | addFile hp hl =>
    rename_i path lines
    have hlf : ∀ l ∈ lines, '\n' ∉ l := fun l hm => (hl l hm).one_line
    have hs := split_unlines lines hlf
    have : renderHunk (.addFile path (unlines lines)) = (addFileMarker ++ path) :: lines.map ('+' :: ·) := by
      simp [renderHunk, hs]
    rw [this]
    exact .addFile path hlf
  | deleteFile => exact .deleteFile _
  | updateFile => exact .updateFile _ _ (.full (chunkLines_render _))

theorem hunksLines_render : ∀ hunks, (∀ h ∈ hunks, Printable h) → HunksLines hunks (hunks.flatMap renderHunk)
  | [], _ => .nil
  | hunk :: hunks, h => .cons (hunkLines_render (h hunk List.mem_cons_self))
      (hunksLines_render hunks fun x hx => h x (List.mem_cons_of_mem _ hx))

theorem renders_render (h : ∀ h ∈ hunks, Printable h) : Renders hunks none (render hunks) :=
  ⟨_, hunksLines_render hunks h, [], by simp, by simp [render]⟩

end Owc.Patch
