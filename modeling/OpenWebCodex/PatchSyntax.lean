import OpenWebCodex.Text
/-!
# PatchSyntax — hunks, chunks and the errors of `apply-patch`

The data of `codex-rs/apply-patch/src/parser.rs` and `lib.rs`.  A `PathBuf` is the text it was built from.
-/
namespace Owc.Patch

structure UpdateFileChunk where
  /-- A single line of context used to narrow down the position of the chunk. -/
  changeContext : Option Str
  oldLines : List Str
  newLines : List Str
  isEndOfFile : Bool
deriving DecidableEq

inductive Hunk
  | addFile (path : Str) (contents : Str)
  | deleteFile (path : Str)
  | updateFile (path : Str) (movePath : Option Str) (chunks : List UpdateFileChunk)
deriving DecidableEq

/-- The path a hunk reads, which for a rename is not the one `Hunk::path` names. -/
def Hunk.sourcePath : Hunk → Str
  | .addFile path _ => path
  | .deleteFile path => path
  | .updateFile path _ _ => path

/-- `Hunk::path`: the path affected, the move destination for a rename. -/
def Hunk.path : Hunk → Str
  | .addFile path _ => path
  | .deleteFile path => path
  | .updateFile _ (some path) _ => path
  | .updateFile path none _ => path

inductive ParseError
  | invalidPatchError (message : Str)
  | invalidHunkError (message : Str) (lineNumber : Nat)
deriving DecidableEq

inductive IoErrorKind
  | notFound
  | invalidInput
  | invalidData
  | other
deriving DecidableEq

structure IoError where
  kind : IoErrorKind
  message : Str
deriving DecidableEq

inductive ApplyPatchError
  | parseError (error : ParseError)
  | ioError (context : Str) (source : IoError)
  | computeReplacements (message : Str)
  | pathUri (message : Str)
  | implicitInvocation
deriving DecidableEq

end Owc.Patch
