import OpenWebCodex.HistoryItem
/-!
# RolloutItem — what a rollout records

One line of a rollout: response items, compactions, turn contexts, world states and events.  The session reads the turn
boundaries and rollbacks of the events; the thread history shown to clients is built from all of them.  What an event only
copies into the item it shows is kept as that item's contents.
-/
namespace Owc.Rollout

open History (ResponseItem)

structure InterAgentCommunication where
  id : Option Str
  author : Str
  recipient : Str
  content : Str
  encryptedContent : Option Str
  triggerTurn : Bool

def InterAgentCommunication.toModelInputItem (c : InterAgentCommunication) : ResponseItem :=
  .agentMessage c.id c.author c.recipient (match c.encryptedContent with
    | some encrypted =>
      ["Message Type: ".toList ++ (if c.triggerTurn then "NEW_TASK".toList else "MESSAGE".toList) ++
        "\nTask name: ".toList ++ c.recipient ++ "\nSender: ".toList ++ c.author ++ "\nPayload:\n".toList, encrypted]
    | none => [c.content])

structure CompactedItem where
  message : Str
  replacementHistory : Option (List ResponseItem)
  windowNumber : Option Nat
  firstWindowId : Option Str
  previousWindowId : Option Str
  windowId : Option Str

structure TurnContextItem where
  turnId : Option Str
  model : Str
  compHash : Option Str
  realtimeActive : Option Bool
deriving DecidableEq

structure WorldStateItem where
  full : Bool
  state : Json

inductive DynamicToolCallStatus
  | inProgress
  | completed
  | failed
deriving DecidableEq

inductive DynamicToolCallOutputContentItem
  | inputText (text : Str)
  | inputImage (imageUrl : Str)
  | inputAudio (audioUrl : Str)
deriving DecidableEq

structure DynamicToolCall where
  id : Str
  nspace : Option Str
  tool : Str
  arguments : Json
  status : DynamicToolCallStatus
  contentItems : Option (List DynamicToolCallOutputContentItem)
  success : Option Bool
  durationMs : Option Nat
deriving DecidableEq

/-- The kinds of items that nothing but their own events reads. -/
inductive CallKind
  | commandExecution
  | fileChange
  | mcpToolCall
  | collabAgentToolCall
  | subAgentActivity
  | webSearch
  | imageView
  | imageGeneration
  | extension
deriving DecidableEq

inductive ThreadItem
  | userMessage (id : Str) (clientId : Option Str) (content : List Str)
  | hookPrompt (id : Str) (fragments : List Str)
  | agentMessage (id text : Str) (phase : Option Str)
  | plan (id text : Str)
  | reasoning (id : Str) (summary content : List Str)
  | dynamicToolCall (call : DynamicToolCall)
  | call (kind : CallKind) (id contents : Str)
  | enteredReviewMode (id review : Str)
  | exitedReviewMode (id review : Str)
  | contextCompaction (id : Str)
deriving DecidableEq

def ThreadItem.id : ThreadItem → Str
  | .userMessage id _ _ => id
  | .hookPrompt id _ => id
  | .agentMessage id _ _ => id
  | .plan id _ => id
  | .reasoning id _ _ => id
  | .dynamicToolCall c => c.id
  | .call _ id _ => id
  | .enteredReviewMode id _ => id
  | .exitedReviewMode id _ => id
  | .contextCompaction id => id

def ThreadItem.isReviewMode : ThreadItem → Bool
  | .enteredReviewMode _ _ => true
  | .exitedReviewMode _ _ => true
  | _ => false

/-- The events that show a call in the turn they are recorded in. -/
inductive CurrentTurnEvent
  | webSearchBegin
  | webSearchEnd
  | mcpToolCallBegin
  | mcpToolCallEnd
  | viewImageToolCall
  | imageGenerationBegin
  | imageGenerationEnd
  | collabAgentSpawnBegin
  | collabAgentSpawnEnd
  | collabAgentInteractionBegin
  | collabAgentInteractionEnd
  | subAgentActivity
  | collabWaitingBegin
  | collabWaitingEnd
  | collabCloseBegin
  | collabCloseEnd
  | collabResumeBegin
  | collabResumeEnd

/-- The events that show a call in the turn they name, or in the current one where the name is empty. -/
inductive TurnEvent
  | execCommandBegin
  | execCommandEnd
  | applyPatchApprovalRequest
  | patchApplyBegin
  | patchApplyEnd

inductive GuardianAssessmentStatus
  | inProgress
  | approved
  | denied
  | timedOut
  | aborted

structure TurnError where
  message : Str
  codexErrorInfo : Option Str

/-- `other` stands for the events that neither the session nor the thread history reads. -/
inductive EventMsg
  | turnStarted (turnId : Str) (startedAt : Option Int)
  | turnComplete (turnId : Str) (completedAt durationMs : Option Int)
  | turnAborted (turnId : Option Str) (completedAt durationMs : Option Int)
  | threadRolledBack (numTurns : Nat)
  | userMessage (clientId : Option Str) (content : List Str)
  | agentMessage (text : Str) (phase : Option Str)
  | agentReasoning (text : Str)
  | agentReasoningRawContent (text : Str)
  | inCurrentTurn (event : CurrentTurnEvent) (callId contents : Str)
  | inTurn (event : TurnEvent) (turnId callId contents : Str)
  | guardianAssessment (status : GuardianAssessmentStatus) (turnId : Str) (targetItemId : Option Str) (contents : Str)
  | dynamicToolCallRequest (turnId callId : Str) (nspace : Option Str) (tool : Str) (arguments : Json)
  | dynamicToolCallResponse (turnId callId : Str) (nspace : Option Str) (tool : Str) (arguments : Json) (success : Bool)
      (contentItems : List DynamicToolCallOutputContentItem) (durationMs : Option Nat)
  | contextCompacted
  | enteredReviewMode (turnId itemId userFacingHint : Option Str)
  | exitedReviewMode (turnId itemId : Option Str) (reviewOutputText : Str)
  | itemStarted (turnId : Str) (item : ThreadItem)
  | itemCompleted (turnId : Str) (item : ThreadItem)
  | error (affectsTurnStatus : Bool) (error : TurnError)
  | other

/-- A session's metadata carry the id of its first context window. -/
inductive RolloutItem
  | sessionMeta (contextWindow : Option Str)
  | responseItem (item : ResponseItem)
  | interAgentCommunication (communication : InterAgentCommunication)
  | interAgentCommunicationMetadata (triggerTurn : Bool)
  | compacted (item : CompactedItem)
  | turnContext (item : TurnContextItem)
  | worldState (item : WorldStateItem)
  | eventMsg (event : EventMsg)

end Owc.Rollout
