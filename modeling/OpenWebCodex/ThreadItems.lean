import OpenWebCodex.Js
/-!
# ThreadItems — the items of a conversation

`threadItems.*.ts` and `providerText.ts` of the browser: what an item holds, how a list of items is prepared for display
after every change (`prepareThreadItems`), and how an item is inserted (`upsertItem`).  How a shell command is read as
exploration (`summarizeCommandExecution` past its status) is a parameter, `Explore`, of the title and the status.
-/
namespace Owc.Threads

open Js (Text lit)

inductive Role
  | user
  | assistant
deriving DecidableEq

inductive ReviewState
  | started
  | completed
deriving DecidableEq

inductive ExploreStatus
  | exploring
  | explored
deriving DecidableEq

inductive EntryKind
  | read
  | search
  | list
  | run
deriving DecidableEq

structure ExploreEntry where
  kind : EntryKind
  label : Text
  detail : Option Text
deriving DecidableEq

structure Change where
  path : Text
  kind : Option Text
  diff : Option Text
deriving DecidableEq

structure Question where
  id : Text
  header : Text
  question : Text
  answers : List Text
deriving DecidableEq

structure Tool where
  toolType : Text
  title : Text
  detail : Text
  status : Option Text
  output : Option Text
  durationMs : Option Int
  changes : Option (List Change)
deriving DecidableEq

inductive Body
  | message (role : Role) (text : Text) (images : Option (List Text))
  | userInput (questions : List Question)
  | reasoning (summary content : Text)
  | diff (title diff : Text) (status : Option Text)
  | review (state : ReviewState) (text : Text)
  | explore (status : ExploreStatus) (entries : List ExploreEntry)
  | tool (tool : Tool)
deriving DecidableEq

structure Item where
  id : Text
  body : Body
deriving DecidableEq

/-- The exploration that a command with this title and status is read as. -/
abbrev Explore := Text → Option Text → Option (ExploreStatus × List ExploreEntry)

/-! ## Texts -/

def leadingProviderSentinels : List Text :=
  [lit "<｜begin▁of▁sentence｜>", lit "<|begin_of_sentence|>", lit "<｜begin_of_sentence｜>"]

/-- One round of the loop: the text without the sentinel behind its leading white space, if there is one. -/
def stripSentinel (text : Text) : Option Text :=
  (leadingProviderSentinels.find? (Js.startsWith (text.dropWhile Js.isSpace))).map (fun sentinel =>
    text.takeWhile Js.isSpace ++ (text.dropWhile Js.isSpace).drop sentinel.length)

def stripRounds : Nat → Text → Text
  | 0, text => text
  | n + 1, text =>
    match stripSentinel text with
    | some next => stripRounds n next
    | none => text

/-- Every round shortens the text, so its length bounds the rounds. -/
def stripLeadingProviderSentinel (text : Text) : Text := stripRounds text.length text

def maxItemText : Nat := 20000

def maxLargeToolText : Nat := 200000

def truncateText (text : Text) (maxLength : Nat) : Text :=
  if text.length ≤ maxLength then text else text.take (maxLength - 3) ++ lit "..."

def isLargeTool (toolType : Text) : Bool := toolType == lit "fileChange" || toolType == lit "commandExecution"

def truncateToolText (toolType text : Text) : Text :=
  truncateText text (if isLargeTool toolType then maxLargeToolText else maxItemText)

/-! ## Preparing a list -/

def normalizeItem (item : Item) : Item :=
  { item with body := match item.body with
    | .message role text images => .message role (truncateText (stripLeadingProviderSentinel text) maxItemText) images
    | .userInput questions => .userInput (questions.map (fun q => { q with
        header := truncateText q.header 300
        question := truncateText q.question 2000
        answers := q.answers.map (truncateText · 2000) }))
    | .reasoning summary content => .reasoning (truncateText summary maxItemText) (truncateText content maxItemText)
    | .diff title diff status => .diff title (truncateText diff maxItemText) status
    | .tool t => .tool { t with
        title := truncateText t.title 200
        detail := truncateText t.detail 2000
        output := t.output.map (truncateToolText t.toolType)
        changes := t.changes.map (·.map (fun c => { c with diff := c.diff.map (truncateToolText t.toolType) })) }
    | .review state text => .review state text
    | .explore status entries => .explore status entries }

def echoesReview (last : Option Item) (item : Item) : Bool :=
  match item.body, last with
  | .message .assistant text _, some ⟨_, .review .completed reviewed⟩ => Js.trim text == Js.trim reviewed
  | _, _ => false

def pushUnlessEcho (filtered : List Item) (item : Item) : List Item :=
  if echoesReview filtered.getLast? item then filtered else filtered ++ [item]

def defaultMaxItemsPerThread : Nat := 200

/-- A limit of zero counts as the default one. -/
def itemLimit (n : Nat) : Nat := if 0 < n then n else defaultMaxItemsPerThread

def limitItems (maxItemsPerThread : Option Nat) (items : List Item) : List Item :=
  match maxItemsPerThread with
  | none => items
  | some n => items.drop (items.length - itemLimit n)

def entryKey (e : ExploreEntry) : Text :=
  (match e.kind with
    | .read => lit "read"
    | .search => lit "search"
    | .list => lit "list"
    | .run => lit "run") ++ lit "|" ++ e.label ++ lit "|" ++ e.detail.getD []

def mergeExploreEntries (base next : List ExploreEntry) : List ExploreEntry :=
  (base ++ next).foldl (fun kept e => if kept.any (fun k => entryKey k == entryKey e) then kept else kept ++ [e]) []

/-- An exploration joins the one before it with the same status. -/
def pushExplore (result : List Item) (id : Text) (status : ExploreStatus) (entries : List ExploreEntry) : List Item :=
  match result.getLast? with
  | some ⟨lastId, .explore lastStatus lastEntries⟩ =>
    if lastStatus = status then result.dropLast ++ [⟨lastId, .explore lastStatus (mergeExploreEntries lastEntries entries)⟩]
    else result ++ [⟨id, .explore status entries⟩]
  | _ => result ++ [⟨id, .explore status entries⟩]

def explorationOf (explore : Explore) (item : Item) : Option (ExploreStatus × List ExploreEntry) :=
  match item.body with
  | .explore status entries => some (status, entries)
  | .tool t => if t.toolType == lit "commandExecution" then explore t.title t.status else none
  | _ => none

def summarizeItem (explore : Explore) (result : List Item) (item : Item) : List Item :=
  match explorationOf explore item with
  | some (status, entries) => pushExplore result item.id status entries
  | none => result ++ [item]

def toolOutputRecentItems : Nat := 40

def truncateOptional (text : Option Text) (maxLength : Nat) : Option Text := text.map (truncateText · maxLength)

def truncateOld (item : Item) : Item :=
  match item.body with
  | .tool t => { item with body := .tool { t with
      output := truncateOptional t.output maxItemText
      changes := t.changes.map (·.map (fun c => { c with diff := truncateOptional c.diff maxItemText })) } }
  | _ => item

def truncateOlder (items : List Item) : List Item :=
  let cutoff := items.length - toolOutputRecentItems
  (items.take cutoff).map truncateOld ++ items.drop cutoff

def prepareThreadItems (explore : Explore) (maxItemsPerThread : Option Nat) (items : List Item) : List Item :=
  truncateOlder ((limitItems maxItemsPerThread ((items.foldl pushUnlessEcho []).map normalizeItem)).foldl
    (summarizeItem explore) [])

/-! ## Inserting an item -/

def unlessBlank (text other : Text) : Text := if (Js.trim text).isEmpty then other else text

def unlessBlankStatus (status other : Option Text) : Option Text :=
  match status with
  | some text => if (Js.trim text).isEmpty then other else some text
  | none => other

def longer (existing incoming : Text) : Text := if existing.length ≤ incoming.length then incoming else existing

def mergeUserInputQuestions (existing incoming : List Question) : List Question :=
  -- a map built from the list keeps the last question of an id
  incoming.map (fun q =>
    match existing.reverse.find? (·.id == q.id) with
    | none => q
    | some prior => { q with
        header := unlessBlank q.header prior.header
        question := unlessBlank q.question prior.question
        answers := if q.answers.isEmpty then prior.answers else q.answers }) ++
    existing.filter (fun q => !incoming.any (·.id == q.id))

def mergeBody (existing incoming : Body) : Body :=
  match existing, incoming with
  | .message _ existingText existingImages, .message role text images =>
    .message role (longer existingText text) (if (images.getD []).isEmpty then existingImages else images)
  | .userInput existingQuestions, .userInput questions => .userInput (mergeUserInputQuestions existingQuestions questions)
  | .reasoning existingSummary existingContent, .reasoning summary content =>
    .reasoning (longer existingSummary summary) (longer existingContent content)
  | .tool existing, .tool t => .tool { t with
      title := unlessBlank t.title existing.title
      detail := unlessBlank t.detail existing.detail
      status := unlessBlankStatus t.status existing.status
      output := some (if (Js.trim (t.output.getD [])).isEmpty then existing.output.getD [] else t.output.getD [])
      changes := if (t.changes.getD []).isEmpty then existing.changes else t.changes
      durationMs := t.durationMs.or existing.durationMs }
  | .diff existingTitle existingDiff existingStatus, .diff title diff status =>
    .diff (unlessBlank title existingTitle) (longer existingDiff diff) (unlessBlankStatus status existingStatus)
  | .review _ existingText, .review state text => .review state (longer existingText text)
  | _, incoming => incoming

/-- The item in the place of the first one with its id, merged with it, or at the end. -/
def upsertItem (list : List Item) (item : Item) : List Item :=
  match list.findIdx? (·.id == item.id) with
  | none => list ++ [item]
  | some index => list.modify index (fun existing => { item with body := mergeBody existing.body item.body })

/-! ## Streaming -/

/-- The longest start of `delta`, of at most `length` units, that ends `existing`. -/
def overlap (existing delta : Text) : Nat → Nat
  | 0 => 0
  | length + 1 => if Js.endsWith existing (delta.take (length + 1)) then length + 1 else overlap existing delta length

def mergeStreamingText (existing delta : Text) : Text :=
  let cleanDelta := stripLeadingProviderSentinel delta
  if cleanDelta.isEmpty then existing
  else if existing.isEmpty then cleanDelta
  else if cleanDelta == existing then existing
  else if Js.startsWith cleanDelta existing then cleanDelta
  else if Js.startsWith existing cleanDelta then existing
  else existing ++ cleanDelta.drop (overlap existing cleanDelta (min existing.length cleanDelta.length))

def addSummaryBoundary (existing : Text) : Text :=
  if existing.isEmpty then existing
  else if Js.endsWith existing (lit "\n\n") then existing
  else if Js.endsWith existing (lit "\n") then existing ++ lit "\n"
  else existing ++ lit "\n\n"

end Owc.Threads
