import OpenWebCodex.PatchSyntax
/-!
# PatchStream — the line machine that reads a patch

`StreamingPatchParser` (`apply-patch/src/streaming_parser.rs`), which takes the text in pieces, and `parse_patch`
(`parser.rs`), which runs it over a whole text.  `processLine` is the machine's step; a step that fails changes nothing,
so it returns the next state or the error, and `pushDelta` keeps the buffer and line number an error leaves behind.
-/
namespace Owc.Patch

def beginPatchMarker : Str := "*** Begin Patch".toList
def endPatchMarker : Str := "*** End Patch".toList
def addFileMarker : Str := "*** Add File: ".toList
def deleteFileMarker : Str := "*** Delete File: ".toList
def updateFileMarker : Str := "*** Update File: ".toList
def moveToMarker : Str := "*** Move to: ".toList
def eofMarker : Str := "*** End of File".toList
def changeContextMarker : Str := "@@ ".toList
def emptyChangeContextMarker : Str := "@@".toList
def environmentIdMarker : Str := "*** Environment ID:".toList

inductive StreamingParserMode
  | notStarted
  | startedPatch
  | addFile
  | deleteFile
  | updateFile (hunkLineNumber : Nat)
  | endedPatch
deriving DecidableEq

structure StreamingParserState where
  mode : StreamingParserMode
  hunks : List Hunk
  environmentId : Option Str
deriving DecidableEq

structure StreamingPatchParser where
  lineBuffer : Str
  state : StreamingParserState
  lineNumber : Nat

def StreamingPatchParser.default : StreamingPatchParser := ⟨[], ⟨.notStarted, [], none⟩, 0⟩

/-! ## Messages -/

def notAHunkHeader (trimmed : Str) (lineNumber : Nat) : ParseError :=
  .invalidHunkError ("'".toList ++ trimmed ++ ("' is not a valid hunk header. Valid hunk headers: " ++
    "'*** Add File: \x7bpath\x7d', '*** Delete File: \x7bpath\x7d', '*** Update File: \x7bpath\x7d'").toList) lineNumber

def unexpectedLine (line : Str) (lineNumber : Nat) : ParseError :=
  .invalidHunkError ("Unexpected line found in update hunk: '".toList ++ line ++ ("'. Every line should start with " ++
    "' ' (context line), '+' (added line), or '-' (removed line)").toList) lineNumber

def expectedContextMarker (line : Str) (lineNumber : Nat) : ParseError :=
  .invalidHunkError ("Expected update hunk to start with a @@ context marker, got: '".toList ++ line ++ "'".toList)
    lineNumber

def noLinesInUpdateHunk (lineNumber : Nat) : ParseError :=
  .invalidHunkError "Update hunk does not contain any lines".toList lineNumber

def firstLineError : ParseError := .invalidPatchError "The first line of the patch must be '*** Begin Patch'".toList

def lastLineError : ParseError := .invalidPatchError "The last line of the patch must be '*** End Patch'".toList

/-! ## The lines of an update hunk -/

def UpdateFileChunk.isBare (chunk : UpdateFileChunk) : Bool := chunk.oldLines.isEmpty && chunk.newLines.isEmpty

def emptyChunk (changeContext : Option Str) : UpdateFileChunk := ⟨changeContext, [], [], false⟩

/-- The last chunk with `f` applied; a first chunk without context is opened where there is none. -/
def growLast (chunks : List UpdateFileChunk) (f : UpdateFileChunk → UpdateFileChunk) : List UpdateFileChunk :=
  match chunks.getLast? with
  | none => [f (emptyChunk none)]
  | some chunk => chunks.dropLast ++ [f chunk]

def UpdateFileChunk.context (line : Str) (c : UpdateFileChunk) : UpdateFileChunk :=
  { c with oldLines := c.oldLines ++ [line], newLines := c.newLines ++ [line] }

def UpdateFileChunk.add (line : Str) (c : UpdateFileChunk) : UpdateFileChunk := { c with newLines := c.newLines ++ [line] }

def UpdateFileChunk.remove (line : Str) (c : UpdateFileChunk) : UpdateFileChunk :=
  { c with oldLines := c.oldLines ++ [line] }

def isContextLine (updateLine : Str) : Bool :=
  updateLine == emptyChangeContextMarker || updateLine.startsWith changeContextMarker

/-- A line of an update hunk that is neither a hunk header nor the end of the patch: the hunk's new `move_path` and
`chunks`. -/
def processUpdateLine (lineNumber : Nat) (movePath : Option Str) (chunks : List UpdateFileChunk) (line : Str) :
    Except ParseError (Option Str × List UpdateFileChunk) :=
  let updateLine := line.trimEnd
  let lastIsEof := chunks.getLast?.any (·.isEndOfFile)
  let lastIsBare := chunks.getLast?.any (·.isBare)
  if lastIsEof && updateLine.isEmpty then .ok (movePath, chunks)
  else if lastIsEof && !isContextLine updateLine then .error (expectedContextMarker line lineNumber)
  else
    match if chunks.isEmpty && movePath.isNone then updateLine.stripPrefix moveToMarker else none with
    | some moveToPath => .ok (some moveToPath, chunks)
    | none =>
      if isContextLine updateLine && lastIsBare then .error (unexpectedLine line lineNumber)
      else if updateLine = emptyChangeContextMarker then .ok (movePath, chunks ++ [emptyChunk none])
      else match updateLine.stripPrefix changeContextMarker with
        | some changeContext => .ok (movePath, chunks ++ [emptyChunk (some changeContext)])
        | none =>
          if updateLine = eofMarker then
            if lastIsBare then .error (noLinesInUpdateHunk lineNumber)
            -- before the first chunk the marker is accepted and means nothing
            else if chunks.isEmpty then .ok (movePath, chunks)
            else .ok (movePath, growLast chunks (fun c => { c with isEndOfFile := true }))
          else match line with
            | [] => .ok (movePath, growLast chunks (·.context []))
            | ' ' :: lineToAdd => .ok (movePath, growLast chunks (·.context lineToAdd))
            | '+' :: lineToAdd => .ok (movePath, growLast chunks (·.add lineToAdd))
            | '-' :: lineToRemove => .ok (movePath, growLast chunks (·.remove lineToRemove))
            | _ => .error (if chunks.getLast?.any (!·.isBare) then expectedContextMarker line lineNumber
                else unexpectedLine line lineNumber)

/-! ## Headers -/

def ensureUpdateHunkIsNotEmpty (st : StreamingParserState) (lineNumber : Nat) (line : Str) : Except ParseError Unit :=
  match st.hunks.getLast? with
  | some (.updateFile path _ chunks) =>
    match st.mode, chunks with
    | .updateFile hunkLineNumber, [] =>
      .error (.invalidHunkError ("Update file hunk for path '".toList ++ path ++ "' is empty".toList) hunkLineNumber)
    | _, _ =>
      if chunks.getLast?.any (·.isBare) then
        .error (if line = endPatchMarker then noLinesInUpdateHunk lineNumber else unexpectedLine line lineNumber)
      else .ok ()
  | _ => .ok ()

def startHunk (st : StreamingParserState) (lineNumber : Nat) (line : Str) (next : StreamingParserState) :
    Except ParseError (Option StreamingParserState) :=
  match ensureUpdateHunkIsNotEmpty st lineNumber line with
  | .error e => .error e
  | .ok _ => .ok (some next)

/-- `some` next state when the line was a header or the end of the patch. -/
def handleHunkHeadersAndEndPatch (st : StreamingParserState) (lineNumber : Nat) (trimmed : Str) :
    Except ParseError (Option StreamingParserState) :=
  match if st.mode = .startedPatch then trimmed.stripPrefix environmentIdMarker else none with
  | some environmentId =>
    if st.environmentId.isSome then
      .error (.invalidPatchError "apply_patch environment_id cannot be specified more than once".toList)
    else if environmentId.trim.isEmpty then
      .error (.invalidPatchError "apply_patch environment_id cannot be empty".toList)
    else .ok (some { st with environmentId := some environmentId.trim })
  | none =>
    if trimmed = endPatchMarker then startHunk st lineNumber trimmed { st with mode := .endedPatch }
    else match trimmed.stripPrefix addFileMarker with
    | some path => startHunk st lineNumber trimmed { st with mode := .addFile, hunks := st.hunks ++ [.addFile path []] }
    | none =>
      match trimmed.stripPrefix deleteFileMarker with
      | some path => startHunk st lineNumber trimmed { st with mode := .deleteFile, hunks := st.hunks ++ [.deleteFile path] }
      | none =>
        match trimmed.stripPrefix updateFileMarker with
        | some path => startHunk st lineNumber trimmed
            { st with mode := .updateFile lineNumber, hunks := st.hunks ++ [.updateFile path none []] }
        | none => .ok none

/-! ## The machine -/

def processBodyLine (st : StreamingParserState) (lineNumber : Nat) (line : Str) : Except ParseError StreamingParserState :=
  match st.mode, st.hunks.getLast? with
  | .addFile, some (.addFile path contents) =>
    match line with
    | '+' :: lineToAdd =>
      .ok { st with hunks := st.hunks.dropLast ++ [.addFile path (contents ++ lineToAdd ++ ['\n'])] }
    | _ => .error (notAHunkHeader line.trim lineNumber)
  | .updateFile _, some (.updateFile path movePath chunks) =>
    match processUpdateLine lineNumber movePath chunks line with
    | .error e => .error e
    | .ok (movePath, chunks) => .ok { st with hunks := st.hunks.dropLast ++ [.updateFile path movePath chunks] }
  | .updateFile _, _ => .error (unexpectedLine line lineNumber)
  | _, _ => .error (notAHunkHeader line.trim lineNumber)

def processLine (st : StreamingParserState) (lineNumber : Nat) (line : Str) : Except ParseError StreamingParserState :=
  match st.mode with
  | .notStarted => if line.trim = beginPatchMarker then .ok { st with mode := .startedPatch } else .error firstLineError
  | .endedPatch => if line.trim.isEmpty then .ok st else .error lastLineError
  | mode =>
    -- in an update hunk leading blanks belong to the line
    let trimmed := match mode with
      | .updateFile _ => line.trimEnd
      | _ => line.trim
    match handleHunkHeadersAndEndPatch st lineNumber trimmed with
    | .error e => .error e
    | .ok (some st) => .ok st
    | .ok none => processBodyLine st lineNumber line

def pushDelta : StreamingPatchParser → Str → StreamingPatchParser × Except ParseError (List Hunk)
  | p, [] => (p, .ok p.state.hunks)
  | p, ch :: delta =>
    if ch = '\n' then
      match processLine p.state (p.lineNumber + 1) p.lineBuffer.dropCr with
      | .error e => ({ p with lineBuffer := [], lineNumber := p.lineNumber + 1 }, .error e)
      | .ok st => pushDelta ⟨[], st, p.lineNumber + 1⟩ delta
    else pushDelta { p with lineBuffer := p.lineBuffer ++ [ch] } delta

def finishLine (p : StreamingPatchParser) : Except ParseError StreamingParserState :=
  if p.lineBuffer.isEmpty then .ok p.state
  else if p.lineBuffer.trim = endPatchMarker then
    match ensureUpdateHunkIsNotEmpty p.state (p.lineNumber + 1) p.lineBuffer.trim with
    | .error e => .error e
    | .ok _ => .ok { p.state with mode := .endedPatch }
  else processLine p.state (p.lineNumber + 1) p.lineBuffer

def finish (p : StreamingPatchParser) : StreamingPatchParser × Except ParseError (List Hunk) :=
  let lineNumber := if p.lineBuffer.isEmpty then p.lineNumber else p.lineNumber + 1
  match finishLine p with
  | .error e => (⟨[], p.state, lineNumber⟩, .error e)
  | .ok st => (⟨[], st, lineNumber⟩, if st.mode = .endedPatch then .ok st.hunks else .error lastLineError)

/-! ## `parse_patch` -/

structure ApplyPatchArgs where
  patch : Str
  hunks : List Hunk
  workdir : Option Str
  environmentId : Option Str

def checkStartAndEndLinesStrict (firstLine lastLine : Option Str) : Except ParseError Unit :=
  match firstLine.map Str.trim, lastLine.map Str.trim with
  | some first, some last =>
    if first = beginPatchMarker ∧ last = endPatchMarker then .ok ()
    else if first ≠ beginPatchMarker then .error firstLineError
    else .error lastLineError
  | some first, none => if first ≠ beginPatchMarker then .error firstLineError else .error lastLineError
  | none, _ => .error lastLineError

def checkPatchBoundariesStrict (lines : List Str) : Except ParseError (List Str) :=
  match checkStartAndEndLinesStrict lines.head? lines.getLast? with
  | .error e => .error e
  | .ok _ => .ok lines

def isHeredocStart (first : Str) : Bool :=
  first == "<<EOF".toList || first == "<<'EOF'".toList || first == "<<\"EOF\"".toList

def checkPatchBoundariesLenient (originalLines : List Str) : Except ParseError (List Str) :=
  match checkPatchBoundariesStrict originalLines with
  | .ok lines => .ok lines
  | .error originalParseError =>
    if originalLines.head?.any isHeredocStart && originalLines.getLast?.any (Str.endsWith · "EOF".toList) &&
        4 ≤ originalLines.length then
      checkPatchBoundariesStrict originalLines.tail.dropLast
    else .error originalParseError

inductive ParseMode
  | strict
  | lenient

def parsePatchText (patch : Str) (mode : ParseMode) : Except ParseError ApplyPatchArgs :=
  let lines := patch.trim.lines
  match (match mode with
    | .strict => checkPatchBoundariesStrict lines
    | .lenient => checkPatchBoundariesLenient lines) with
  | .error e => .error e
  | .ok patchLines =>
    let patch := Str.joinNl patchLines
    match pushDelta .default patch with
    | (_, .error e) => .error e
    | (parser, .ok _) =>
      match finish parser with
      | (_, .error e) => .error e
      | (parser, .ok hunks) => .ok ⟨patch, hunks, none, parser.state.environmentId⟩

-- `PARSE_IN_STRICT_MODE` is false
def parsePatch (patch : Str) : Except ParseError ApplyPatchArgs := parsePatchText patch .lenient

end Owc.Patch
