import OpenWebCodex.ProjectCard
/-!
# InlineScan — the inline visualizations of a Markdown text, read twice

`inline_artifact_refs` of `event_projection.rs`, by which the server resolves the artifacts a reply embeds, and
`segmentInlineVisualizations` of `inlineVisualizations.ts`, by which the browser places them.  A text is the same list of
characters on both sides; the browser's offsets into it are kept as the text between them.
-/
namespace Owc.Inline

open Projection (validCardIdentifier)

structure Fence where
  character : Char
  length : Nat

def backtick : Char := '\x60'

def leadingSpaces (line : Str) : Nat := (line.takeWhile (· == ' ')).length

def isReferenceChar (c : Char) : Bool := c.isAlphanum || c == '-' || c == '_' || c == '.'

/-! ## The server -/

def artifactPrefix : Str := "::codex-inline-vis\x7bartifact=\"".toList

def artifactSuffix : Str := "\"\x7d".toList

structure Scan where
  refs : List Str
  fence : Option Fence

/-- What a line of at least three markers does to the fence; none for another line. -/
def scanFence (fence : Option Fence) (line : Str) : Option (Option Fence) :=
  let trimmedStart := line.drop (leadingSpaces line)
  match trimmedStart.head? with
  | none => none
  | some marker =>
    if leadingSpaces line ≤ 3 && (marker == backtick || marker == '~') then
      let markerLen := (trimmedStart.takeWhile (· == marker)).length
      if 3 ≤ markerLen then
        some (match fence with
          | some active => if active.character == marker && active.length ≤ markerLen then none else some active
          | none => some ⟨marker, markerLen⟩)
      else none
    else none

def directiveRef (line : Str) : Option Str :=
  (((Str.trim line).stripPrefix artifactPrefix).bind (Str.stripSuffix · artifactSuffix)).filter validCardIdentifier

def scanLine (s : Scan) (sourceLine : Str) : Scan :=
  let line := sourceLine.rdropWhile (· == '\r')
  match scanFence s.fence line with
  | some fence => { s with fence := fence }
  | none =>
    if s.fence.isSome || 4 ≤ leadingSpaces line || Str.startsWith line ['\t'] then s
    else
      match directiveRef line with
      | some value => if s.refs.contains value then s else { s with refs := s.refs ++ [value] }
      | none => s

def inlineArtifactRefs (markdown : Str) : List Str := (markdown.lines.foldl scanLine ⟨[], none⟩).refs

/-! ## The browser -/

/-- The white space and line ends of ECMAScript, which `trim` removes. -/
def isJsSpace (c : Char) : Bool :=
  (9 ≤ c.toNat && c.toNat ≤ 13) || c.toNat == 0x20 || c.toNat == 0xA0 || c.toNat == 0x1680 ||
  (0x2000 ≤ c.toNat && c.toNat ≤ 0x200A) || c.toNat == 0x2028 || c.toNat == 0x2029 || c.toNat == 0x202F ||
  c.toNat == 0x205F || c.toNat == 0x3000 || c.toNat == 0xFEFF

def jsTrim (s : Str) : Str := (s.dropWhile isJsSpace).rdropWhile isJsSpace

def directivePrefix : Str := "::codex-inline-vis\x7b".toList

def filePrefix : Str := "::codex-inline-vis\x7bfile=\"".toList

def safeReference (value : Str) : Bool := 1 ≤ value.length && value.length ≤ 128 && value.all isReferenceChar

def safeHtmlFile (value : Str) : Bool :=
  (value.stripSuffix ".html".toList).any (fun stem => 1 ≤ stem.length && stem.length ≤ 123 && stem.all isReferenceChar)

inductive Segment
  | markdown (text : Str)
  | artifact (ref : Str)
  | file (file : Str)
  | unavailable (label : String)

/-- `slice(prefix.length, -2)` of a directive that starts and ends right, which is empty where the two overlap. -/
def directiveValue (directive start : Str) (pattern : Str → Bool) : Option Str :=
  let value :=
    if Str.startsWith directive start && Str.endsWith directive artifactSuffix then
      (directive.take (directive.length - 2)).drop start.length
    else []
  if !value.isEmpty && pattern value then some value else none

def fenceMarker (line : Str) : Option Fence :=
  if 3 < leadingSpaces line then none
  else
    let trimmed := line.drop (leadingSpaces line)
    match trimmed.head? with
    | none => none
    | some character =>
      if character != backtick && character != '~' then none
      else
        let markerLength := (trimmed.findIdx? (· != character)).getD trimmed.length
        if 3 ≤ markerLength then some ⟨character, markerLength⟩ else none

/-- The lines up to each line feed, and whether one follows; nothing comes after the last. -/
def jsLines (markdown : Str) : List (Str × Bool) :=
  let parts := Str.split '\n' markdown
  parts.dropLast.map (·, true) ++ (parts.getLast?.toList.filter (fun part => !part.isEmpty)).map (·, false)

structure Walk where
  /-- The text from `markdownStart` to `lineStart`. -/
  pending : Str
  fence : Option Fence
  segments : List Segment

def closeFence (fence : Option Fence) (marker : Fence) : Option Fence :=
  match fence with
  | none => some marker
  | some active => if active.character == marker.character && active.length ≤ marker.length then none else some active

def walkLine (streaming : Bool) (s : Walk) (source : Str × Bool) : Walk :=
  let whole := source.1 ++ (if source.2 then ['\n'] else [])
  let line := Str.dropCr source.1
  match fenceMarker line with
  | some marker => { s with pending := s.pending ++ whole, fence := closeFence s.fence marker }
  | none =>
    let inIndentedCode := 4 ≤ leadingSpaces line || Str.startsWith line ['\t']
    let directive := jsTrim line
    if s.fence.isNone && !inIndentedCode && Str.startsWith directive directivePrefix then
      let artifact := directiveValue directive artifactPrefix safeReference
      let file := directiveValue directive filePrefix safeHtmlFile
      let incomplete := streaming && !source.2 && !Str.endsWith directive ['}']
      if artifact.isSome || file.isSome || Str.endsWith directive ['}'] || incomplete then
        let before := if s.pending.isEmpty then [] else [Segment.markdown s.pending]
        let shown := match artifact, file with
          | some ref, _ => [Segment.artifact ref]
          | none, some file => [Segment.file file]
          | none, none => if incomplete then [] else [Segment.unavailable "Visualization unavailable"]
        { s with pending := [], segments := s.segments ++ before ++ shown }
      else { s with pending := s.pending ++ whole }
    else { s with pending := s.pending ++ whole }

def Segment.isShown : Segment → Bool
  | .markdown text => !text.isEmpty
  | _ => true

def segmentInlineVisualizations (markdown : Str) (streaming : Bool) : List Segment :=
  if !markdown.containsStr directivePrefix then
    if markdown.isEmpty then [] else [.markdown markdown]
  else
    let s := (jsLines markdown).foldl (walkLine streaming) ⟨[], none, []⟩
    let segments := if s.pending.isEmpty then s.segments else s.segments ++ [.markdown s.pending]
    segments.filter Segment.isShown

def Segment.ref : Segment → Option Str
  | .artifact ref => some ref
  | _ => none

def browserRefs (markdown : Str) : List Str := (segmentInlineVisualizations markdown false).filterMap Segment.ref

end Owc.Inline
