import OpenWebCodex.RolloutItem
import OpenWebCodex.Table
/-!
# ThreadHistory — the turns that clients are shown

`ThreadHistoryBuilder` reads a rollout item by item and keeps finished turns, the turn that is open, and the changes of the
item it is reading.  Turns open by their start event, or implicitly with the first item that needs one; an incomplete tool
call of a legacy rollout is failed when its turn is closed.
-/
namespace Owc.ThreadHistory

open History (ResponseItem ContentItem FunctionCallOutputPayload FunctionCallOutputContentItem)
open Rollout (RolloutItem EventMsg ThreadItem DynamicToolCall DynamicToolCallStatus DynamicToolCallOutputContentItem
  CallKind CurrentTurnEvent TurnEvent GuardianAssessmentStatus TurnError)

/-! ## Turns and changes -/

inductive TurnStatus
  | completed
  | interrupted
  | failed
  | inProgress
deriving DecidableEq

/-- A turn's metadata, as `ThreadHistoryTurnChange` reports them. -/
structure TurnChange where
  turnId : Str
  status : TurnStatus
  error : Option TurnError
  startedAt : Option Int
  completedAt : Option Int
  durationMs : Option Int

structure Turn where
  id : Str
  items : List ThreadItem
  error : Option TurnError
  status : TurnStatus
  startedAt : Option Int
  completedAt : Option Int
  durationMs : Option Int

structure PendingTurn extends Turn where
  openedExplicitly : Bool
  sawCompaction : Bool

def PendingTurn.map (turn : PendingTurn) (f : Turn → Turn) : PendingTurn := { turn with toTurn := f turn.toTurn }

def Turn.change (t : Turn) : TurnChange := ⟨t.id, t.status, t.error, t.startedAt, t.completedAt, t.durationMs⟩

structure ItemChange where
  turnId : Str
  item : ThreadItem

structure ChangeSet where
  changedItems : List ItemChange
  changedTurns : List TurnChange
  removedTurnIds : List Str

def ChangeSet.empty : ChangeSet := ⟨[], [], []⟩

/-! ## Tool calls of legacy rollouts -/

structure ResponseToolCallSnapshot where
  turnId : Option Str
  nspace : Option Str
  tool : Str
  arguments : Json

inductive LegacyUpdate
  | started (turnId : Option Str) (item : DynamicToolCall)
  | completed (turnId : Option Str) (callId : Str) (item : DynamicToolCall)

abbrev Calls := Table Str ResponseToolCallSnapshot

def outputContentItems (output : FunctionCallOutputPayload) : List DynamicToolCallOutputContentItem :=
  match output.body with
  | .text text => [.inputText text]
  | .contentItems items => items.filterMap (fun
    | .inputText text => some (.inputText text)
    | .inputImage imageUrl => some (.inputImage imageUrl)
    | .inputAudio audioUrl => some (.inputAudio audioUrl)
    | .encryptedContent _ => none)

def Calls.start (calls : Calls) (callId : Str) (turnId nspace : Option Str) (tool : Str) (arguments : Json) :
    Calls × DynamicToolCall :=
  (calls.put callId ⟨turnId, nspace, tool, arguments⟩,
    { id := callId, nspace, tool, arguments, status := .inProgress, contentItems := none, success := none,
      durationMs := none })

def Calls.complete (calls : Calls) (callId : Str) (outputTurnId : Option Str) (output : FunctionCallOutputPayload) :
    Option (Option Str × DynamicToolCall) :=
  (calls.get callId).map (fun snapshot =>
    let success := output.success.getD true
    (outputTurnId.or snapshot.turnId,
      { id := callId, nspace := snapshot.nspace, tool := snapshot.tool, arguments := snapshot.arguments,
        status := if success then .completed else .failed, contentItems := some (outputContentItems output),
        success := some success, durationMs := none }))

def isIncomplete (calls : Calls) : ThreadItem → Bool
  | .dynamicToolCall c => (calls.get c.id).isSome && c.status == .inProgress
  | _ => false

def failItem (calls : Calls) : ThreadItem → ThreadItem
  | .dynamicToolCall c =>
    if isIncomplete calls (.dynamicToolCall c) then .dynamicToolCall { c with status := .failed, success := some false }
    else .dynamicToolCall c
  | item => item

def failIncomplete (calls : Calls) (items : List ThreadItem) : List ThreadItem := items.map (failItem calls)

/-! ## The builder -/

/-- What the builder asks of code outside it: the JSON value a text denotes, and the hook prompt in a user message, with
the id it is shown under. -/
structure Env where
  parseJson : Str → Option Json
  parseHookPromptMessage : Option Str → List ContentItem → Option (Str × List Str)

/-- The changes of the item being read are always collected; a caller that does not track them drops them. -/
structure Builder where
  turns : List Turn
  currentTurn : Option PendingTurn
  nextItemIndex : Nat
  currentRolloutIndex : Nat
  nextRolloutIndex : Nat
  activeChangeSet : ChangeSet
  calls : Calls

def Builder.new : Builder := ⟨[], none, 1, 0, 0, .empty, []⟩

def numbered (label : Str) (n : Nat) : Str := label ++ (toString n).toList

def updateTurn (turnId : Str) (f : Turn → Turn) : List Turn → List Turn
  | [] => []
  | t :: turns => if t.id == turnId then f t :: turns else t :: updateTurn turnId f turns

def upsertTurnItem (items : List ThreadItem) (item : ThreadItem) : List ThreadItem :=
  match items with
  | [] => [item]
  | existing :: rest => if existing.id == item.id then item :: rest else existing :: upsertTurnItem rest item

namespace Builder

def recordChangedItem (b : Builder) (turnId : Str) (item : ThreadItem) : Builder :=
  { b with activeChangeSet :=
      { b.activeChangeSet with changedItems := b.activeChangeSet.changedItems ++ [⟨turnId, item⟩] } }

def recordChangedTurn (b : Builder) (turn : TurnChange) : Builder :=
  { b with activeChangeSet := { b.activeChangeSet with changedTurns := b.activeChangeSet.changedTurns ++ [turn] } }

def recordRemovedTurnIds (b : Builder) (ids : List Str) : Builder :=
  { b with activeChangeSet := { b.activeChangeSet with removedTurnIds := b.activeChangeSet.removedTurnIds ++ ids } }

def nextItemId (b : Builder) : Str × Builder :=
  (numbered "item-".toList b.nextItemIndex, { b with nextItemIndex := b.nextItemIndex + 1 })

def newTurn (b : Builder) (id : Option Str) : PendingTurn :=
  { id := id.getD (numbered "rollout-".toList b.currentRolloutIndex), items := [], error := none, status := .completed,
    startedAt := none, completedAt := none, durationMs := none, openedExplicitly := false, sawCompaction := false }

def openTurn (b : Builder) (turn : PendingTurn) : Builder :=
  { b.recordChangedTurn turn.change with currentTurn := some turn }

def finishCurrentTurn (b : Builder) : Builder :=
  match b.currentTurn with
  | none => b
  | some turn =>
    let items := failIncomplete b.calls turn.items
    if items.isEmpty && !turn.openedExplicitly && !turn.sawCompaction then { b with currentTurn := none }
    else { b with currentTurn := none, turns := b.turns ++ [{ turn.toTurn with items }] }

def ensureTurn (b : Builder) : PendingTurn × Builder :=
  match b.currentTurn with
  | some turn => (turn, b)
  | none => (b.newTurn none, b.openTurn (b.newTurn none))

def withItems (b : Builder) (turn : PendingTurn) (items : List ThreadItem) : Builder :=
  { b with currentTurn := some { turn with items } }

def pushItemInCurrentTurn (b : Builder) (item : ThreadItem) : Builder :=
  let (turn, b) := b.ensureTurn
  (b.withItems turn (turn.items ++ [item])).recordChangedItem turn.id item

def upsertItemInCurrentTurn (b : Builder) (item : ThreadItem) : Builder :=
  let (turn, b) := b.ensureTurn
  (b.withItems turn (upsertTurnItem turn.items item)).recordChangedItem turn.id item

def isCurrent (b : Builder) (turnId : Str) : Bool := b.currentTurn.any (·.id == turnId)

def isFinished (b : Builder) (turnId : Str) : Bool := b.turns.any (·.id == turnId)

/-- An item for a turn that is not known is dropped. -/
def upsertFinished (b : Builder) (turnId : Str) (item : ThreadItem) : Builder :=
  if b.isFinished turnId then
    { b with turns :=
        updateTurn turnId (fun t => { t with items := upsertTurnItem t.items item }) b.turns }.recordChangedItem turnId item
  else b

def upsertItemInTurnId (b : Builder) (turnId : Str) (item : ThreadItem) : Builder :=
  match b.currentTurn with
  | some turn =>
    if turn.id == turnId then (b.withItems turn (upsertTurnItem turn.items item)).recordChangedItem turnId item
    else b.upsertFinished turnId item
  | none => b.upsertFinished turnId item

def upsertItemInTurnOrCurrent (b : Builder) (turnId : Str) (item : ThreadItem) : Builder :=
  if turnId.isEmpty then b.upsertItemInCurrentTurn item else b.upsertItemInTurnId turnId item

/-- `upsert_review_mode_item`: a review may open the turn it names. -/
def upsertReviewModeItem (b : Builder) (turnId : Option Str) (item : ThreadItem) : Builder :=
  match turnId with
  | none => b.upsertItemInCurrentTurn item
  | some turnId =>
    let b :=
      if !b.isCurrent turnId && !b.isFinished turnId then
        let b := b.finishCurrentTurn
        b.openTurn (b.newTurn (some turnId))
      else b
    b.upsertItemInTurnId turnId item

/-! ## Handlers -/

/-- A user message does not continue an implicit turn, unless that holds a compaction only. -/
def closesForInput (b : Builder) : Bool :=
  b.currentTurn.any (fun turn => !turn.openedExplicitly && !(turn.sawCompaction && turn.items.isEmpty))

def handleUserMessage (b : Builder) (clientId : Option Str) (content : List Str) : Builder :=
  let b := if b.closesForInput then b.finishCurrentTurn else b
  let (id, b) := b.nextItemId
  b.pushItemInCurrentTurn (.userMessage id clientId content)

def handleAgentMessage (b : Builder) (text : Str) (phase : Option Str) : Builder :=
  if text.isEmpty then b
  else
    let (id, b) := b.nextItemId
    b.pushItemInCurrentTurn (.agentMessage id text phase)

/-- The reasoning item that ends the turn is extended by `extend`; otherwise a new one starts. -/
def extendReasoning (b : Builder) (text : Str) (extend : List Str × List Str → List Str × List Str) : Builder :=
  if text.isEmpty then b
  else
    let (turn, b) := b.ensureTurn
    match turn.items.getLast? with
    | some (.reasoning id summary content) =>
      let item := ThreadItem.reasoning id (extend (summary, content)).1 (extend (summary, content)).2
      (b.withItems turn (turn.items.dropLast ++ [item])).recordChangedItem turn.id item
    | _ =>
      let (id, b) := b.nextItemId
      b.pushItemInCurrentTurn (.reasoning id (extend ([], [])).1 (extend ([], [])).2)

def handleAgentReasoning (b : Builder) (text : Str) : Builder :=
  b.extendReasoning text (fun (summary, content) => (summary ++ [text], content))

def handleAgentReasoningRawContent (b : Builder) (text : Str) : Builder :=
  b.extendReasoning text (fun (summary, content) => (summary, content ++ [text]))

def shouldUpsert : ThreadItem → Bool
  | .plan _ text => !text.isEmpty
  | .hookPrompt _ _ => true
  | .dynamicToolCall _ => true
  | .call kind _ _ =>
    kind == .commandExecution || kind == .collabAgentToolCall || kind == .subAgentActivity || kind == .extension
  | .enteredReviewMode _ _ => true
  | .exitedReviewMode _ _ => true
  | _ => false

def handleMaterializedItemLifecycle (b : Builder) (turnId : Str) (item : ThreadItem) : Builder :=
  if shouldUpsert item then
    if item.isReviewMode then b.upsertReviewModeItem (some turnId) item else b.upsertItemInTurnId turnId item
  else b

def kindOf : CurrentTurnEvent → CallKind
  | .webSearchBegin => .webSearch
  | .webSearchEnd => .webSearch
  | .mcpToolCallBegin => .mcpToolCall
  | .mcpToolCallEnd => .mcpToolCall
  | .viewImageToolCall => .imageView
  | .imageGenerationBegin => .imageGeneration
  | .imageGenerationEnd => .imageGeneration
  | .subAgentActivity => .subAgentActivity
  | .collabAgentSpawnBegin => .collabAgentToolCall
  | .collabAgentSpawnEnd => .collabAgentToolCall
  | .collabAgentInteractionBegin => .collabAgentToolCall
  | .collabAgentInteractionEnd => .collabAgentToolCall
  | .collabWaitingBegin => .collabAgentToolCall
  | .collabWaitingEnd => .collabAgentToolCall
  | .collabCloseBegin => .collabAgentToolCall
  | .collabCloseEnd => .collabAgentToolCall
  | .collabResumeBegin => .collabAgentToolCall
  | .collabResumeEnd => .collabAgentToolCall

/-- Commands go to the turn they name whatever it is; file changes to the current turn where they name none. -/
def handleTurnEvent (b : Builder) (event : TurnEvent) (turnId callId contents : Str) : Builder :=
  match event with
  | .execCommandBegin => b.upsertItemInTurnId turnId (.call .commandExecution callId contents)
  | .execCommandEnd => b.upsertItemInTurnId turnId (.call .commandExecution callId contents)
  | .applyPatchApprovalRequest => b.upsertItemInTurnOrCurrent turnId (.call .fileChange callId contents)
  | .patchApplyBegin => b.upsertItemInTurnOrCurrent turnId (.call .fileChange callId contents)
  | .patchApplyEnd => b.upsertItemInTurnOrCurrent turnId (.call .fileChange callId contents)

/-- An approved call is shown by its own events; an assessment without a target shows nothing. -/
def handleGuardianAssessment (b : Builder) (status : GuardianAssessmentStatus) (turnId : Str) (targetItemId : Option Str)
    (contents : Str) : Builder :=
  match status, targetItemId with
  | .approved, _ => b
  | _, none => b
  | _, some id => b.upsertItemInTurnOrCurrent turnId (.call .commandExecution id contents)

def handleContextCompacted (b : Builder) : Builder :=
  let (id, b) := b.nextItemId
  b.pushItemInCurrentTurn (.contextCompaction id)

def itemIdOr (b : Builder) (itemId : Option Str) : Str × Builder :=
  match itemId with
  | some id => (id, b)
  | none => b.nextItemId

def handleEnteredReviewMode (b : Builder) (turnId itemId userFacingHint : Option Str) : Builder :=
  let (id, b) := b.itemIdOr itemId
  b.upsertReviewModeItem turnId (.enteredReviewMode id (userFacingHint.getD "Review requested.".toList))

def handleExitedReviewMode (b : Builder) (turnId itemId : Option Str) (reviewOutputText : Str) : Builder :=
  let (id, b) := b.itemIdOr itemId
  b.upsertReviewModeItem turnId (.exitedReviewMode id reviewOutputText)

def changeCurrent (b : Builder) (turn : PendingTurn) : Builder :=
  { b with currentTurn := some turn }.recordChangedTurn turn.change

def changeFinished (b : Builder) (turnId : Str) (f : Turn → Turn) : Builder :=
  match b.turns.find? (·.id == turnId) with
  | some turn => { b with turns := updateTurn turnId f b.turns }.recordChangedTurn (f turn).change
  | none => b

def handleError (b : Builder) (affectsTurnStatus : Bool) (error : TurnError) : Builder :=
  if !affectsTurnStatus then b
  else match b.currentTurn with
    | some turn => b.changeCurrent { turn with status := .failed, error := some error }
    | none => b

def applyAbort (completedAt durationMs : Option Int) (t : Turn) : Turn :=
  { t with status := .interrupted, completedAt, durationMs }

def handleTurnAborted (b : Builder) (turnId : Option Str) (completedAt durationMs : Option Int) : Builder :=
  -- a turn that is named and finished is aborted where it is; any other abort is for the open turn
  match turnId.filter (fun id => !b.isCurrent id && b.isFinished id) with
  | some id => b.changeFinished id (applyAbort completedAt durationMs)
  | none => match b.currentTurn with
    | some turn => b.changeCurrent (turn.map (applyAbort completedAt durationMs))
    | none => b

def handleTurnStarted (b : Builder) (turnId : Str) (startedAt : Option Int) : Builder :=
  let b := b.finishCurrentTurn
  b.openTurn { b.newTurn (some turnId) with status := .inProgress, startedAt, openedExplicitly := true }

def markCompleted (completedAt durationMs : Option Int) (t : Turn) : Turn :=
  { t with
    status := if t.status == .completed || t.status == .inProgress then .completed else t.status
    completedAt, durationMs }

def handleTurnComplete (b : Builder) (turnId : Str) (completedAt durationMs : Option Int) : Builder :=
  if !b.isCurrent turnId && b.isFinished turnId then b.changeFinished turnId (markCompleted completedAt durationMs)
  else match b.currentTurn with
    | some turn =>
      (b.changeCurrent (turn.map (markCompleted completedAt durationMs))).finishCurrentTurn
    | none => b

def handleCompacted (b : Builder) : Builder :=
  let (turn, b) := b.ensureTurn
  { b with currentTurn := some { turn with sawCompaction := true } }

def handleThreadRollback (b : Builder) (n : Nat) : Builder :=
  let b := b.finishCurrentTurn
  let kept := b.turns.length - n
  let b := b.recordRemovedTurnIds ((b.turns.drop kept).map (·.id))
  let turns := b.turns.take kept
  { b with turns, nextItemIndex := (turns.map (·.items.length)).sum + 1 }

section Env

variable (env : Env)

/-- `LegacyResponseToolHistory::handle_response_item`. -/
def legacyUpdate (calls : Calls) : ResponseItem → Calls × Option LegacyUpdate
  | .functionCall _ name nspace arguments callId metadata =>
    let (calls, item) := calls.start callId metadata nspace name ((env.parseJson arguments).getD (.string arguments))
    (calls, some (.started metadata item))
  | .customToolCall _ callId name input metadata =>
    let (calls, item) := calls.start callId metadata none name (.string input)
    (calls, some (.started metadata item))
  | .functionCallOutput _ callId output metadata =>
    (calls, (calls.complete callId metadata output).map (fun (turnId, item) => .completed turnId callId item))
  | .customToolCallOutput _ callId _ output metadata =>
    (calls, (calls.complete callId metadata output).map (fun (turnId, item) => .completed turnId callId item))
  | _ => (calls, none)

def responseToolItem (b : Builder) (turnId : Option Str) (itemId : Str) : Option ThreadItem :=
  let turn : Option Turn := match turnId with
    | some turnId =>
      if b.isCurrent turnId then b.currentTurn.map (·.toTurn) else b.turns.find? (·.id == turnId)
    | none => b.currentTurn.map (·.toTurn)
  turn.bind (fun turn => turn.items.find? (·.id == itemId))

def isDynamicToolCall : ThreadItem → Bool
  | .dynamicToolCall _ => true
  | _ => false

def upsertLegacy (b : Builder) (turnId : Option Str) (item : ThreadItem) : Builder :=
  match turnId with
  | some turnId => b.upsertItemInTurnId turnId item
  | none => b.upsertItemInCurrentTurn item

/-- An output does not replace the item that a semantic event has shown for its call. -/
def applyLegacyUpdate (b : Builder) : LegacyUpdate → Builder
  | .started turnId item => b.upsertLegacy turnId (.dynamicToolCall item)
  | .completed turnId callId item =>
    if (b.responseToolItem turnId callId).any (!isDynamicToolCall ·) then b
    else b.upsertLegacy turnId (.dynamicToolCall item)

def handleResponseItem (b : Builder) (item : ResponseItem) : Builder :=
  match legacyUpdate env b.calls item with
  | (calls, some update) => { b with calls }.applyLegacyUpdate update
  | (_, none) => match item with
    | .message id role content _ =>
      if role == History.user then
        match env.parseHookPromptMessage id content with
        | some (id, fragments) => b.pushItemInCurrentTurn (.hookPrompt id fragments)
        | none => b
      else b
    | _ => b

def handleEvent (b : Builder) : EventMsg → Builder
  | .userMessage clientId content => b.handleUserMessage clientId content
  | .agentMessage text phase => b.handleAgentMessage text phase
  | .agentReasoning text => b.handleAgentReasoning text
  | .agentReasoningRawContent text => b.handleAgentReasoningRawContent text
  | .inCurrentTurn event callId contents => b.upsertItemInCurrentTurn (.call (kindOf event) callId contents)
  | .inTurn event turnId callId contents => b.handleTurnEvent event turnId callId contents
  | .guardianAssessment status turnId targetItemId contents =>
    b.handleGuardianAssessment status turnId targetItemId contents
  | .dynamicToolCallRequest turnId callId nspace tool arguments =>
    b.upsertItemInTurnOrCurrent turnId (.dynamicToolCall
      { id := callId, nspace, tool, arguments, status := .inProgress, contentItems := none, success := none,
        durationMs := none })
  | .dynamicToolCallResponse turnId callId nspace tool arguments success contentItems durationMs =>
    b.upsertItemInTurnOrCurrent turnId (.dynamicToolCall
      { id := callId, nspace, tool, arguments, status := if success then .completed else .failed,
        contentItems := some contentItems, success := some success, durationMs })
  | .contextCompacted => b.handleContextCompacted
  | .enteredReviewMode turnId itemId userFacingHint => b.handleEnteredReviewMode turnId itemId userFacingHint
  | .exitedReviewMode turnId itemId reviewOutputText => b.handleExitedReviewMode turnId itemId reviewOutputText
  | .itemStarted turnId item => b.handleMaterializedItemLifecycle turnId item
  | .itemCompleted turnId item => b.handleMaterializedItemLifecycle turnId item
  | .error affectsTurnStatus error => b.handleError affectsTurnStatus error
  | .threadRolledBack numTurns => b.handleThreadRollback numTurns
  | .turnAborted turnId completedAt durationMs => b.handleTurnAborted turnId completedAt durationMs
  | .turnStarted turnId startedAt => b.handleTurnStarted turnId startedAt
  | .turnComplete turnId completedAt durationMs => b.handleTurnComplete turnId completedAt durationMs
  | .other => b

def handleRolloutItem (b : Builder) (item : RolloutItem) : Builder :=
  let b := { b with currentRolloutIndex := b.nextRolloutIndex, nextRolloutIndex := b.nextRolloutIndex + 1 }
  match item with
  | .eventMsg event => b.handleEvent event
  | .compacted _ => b.handleCompacted
  | .responseItem item => b.handleResponseItem env item
  | _ => b

/-- `collect_changes` around one item. -/
def handleRolloutItemWithChanges (b : Builder) (item : RolloutItem) : Builder × ChangeSet :=
  let b := { b with activeChangeSet := .empty }.handleRolloutItem env item
  ({ b with activeChangeSet := .empty }, b.activeChangeSet)

def finish (b : Builder) : List Turn := b.finishCurrentTurn.turns

end Env

end Builder

def buildTurnsFromRolloutItems (env : Env) (items : List RolloutItem) : List Turn :=
  (items.foldl (fun b item => (Builder.handleRolloutItemWithChanges env b item).1) Builder.new).finish

end Owc.ThreadHistory
