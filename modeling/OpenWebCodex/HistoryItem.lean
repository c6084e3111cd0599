import OpenWebCodex.Json
import OpenWebCodex.Text
/-!
# HistoryItem — the items of a conversation with the model

`ResponseItem` of the protocol, with the fields the context manager reads, and the questions it asks of an item: whether
it belongs in a request, whether it starts an instruction turn, whether it only restates context.
-/
namespace Owc.History

inductive ContentItem
  | inputText (text : Str)
  | inputImage (imageUrl : Str)
  | inputAudio (audioUrl : Str)
  | outputText (text : Str)
deriving DecidableEq

inductive FunctionCallOutputContentItem
  | inputText (text : Str)
  | inputImage (imageUrl : Str)
  | inputAudio (audioUrl : Str)
  | encryptedContent (encryptedContent : Str)
deriving DecidableEq

inductive FunctionCallOutputBody
  | text (text : Str)
  | contentItems (items : List FunctionCallOutputContentItem)
deriving DecidableEq

structure FunctionCallOutputPayload where
  body : FunctionCallOutputBody
  success : Option Bool
deriving DecidableEq

def FunctionCallOutputPayload.fromText (text : Str) : FunctionCallOutputPayload := ⟨.text text, none⟩

/-- `metadata` is the turn id of `internal_chat_message_metadata_passthrough`. -/
inductive ResponseItem
  | additionalTools (id : Option Str) (role : Str)
  | message (id : Option Str) (role : Str) (content : List ContentItem) (metadata : Option Str)
  | agentMessage (id : Option Str) (author recipient : Str) (content : List Str)
  | reasoning (id : Option Str) (encryptedContent : Option Str)
  | localShellCall (id callId : Option Str)
  | functionCall (id : Option Str) (name : Str) (nspace : Option Str) (arguments callId : Str) (metadata : Option Str)
  | toolSearchCall (id callId : Option Str) (execution : Str)
  | functionCallOutput (id : Option Str) (callId : Str) (output : FunctionCallOutputPayload) (metadata : Option Str)
  | customToolCall (id : Option Str) (callId name input : Str) (metadata : Option Str)
  | customToolCallOutput (id : Option Str) (callId : Str) (name : Option Str) (output : FunctionCallOutputPayload)
      (metadata : Option Str)
  | toolSearchOutput (id callId : Option Str) (status execution : Str) (tools : List Str)
  | webSearchCall (id : Option Str)
  | imageGenerationCall (id : Option Str) (status : Str) (revisedPrompt : Option Str) (result : Str)
  | compaction (id : Option Str) (encryptedContent : Str)
  | compactionTrigger
  | contextCompaction (id : Option Str) (encryptedContent : Option Str)
  | other
deriving DecidableEq

/-- What the context manager asks of code outside it: whether a text is one of the registered contextual fragments of a
user message, whether it reads as an inter-agent instruction, and how tool output is cut. -/
structure Env where
  contextualUserText : Str → Bool
  interAgentText : Str → Bool
  truncate : FunctionCallOutputPayload → FunctionCallOutputPayload

def contextualDeveloperPrefixes : List Str :=
  ["<permissions instructions>".toList, "<model_switch>".toList, "<apps_instructions>".toList,
    "<collaboration_mode>".toList, "<multi_agent_mode>".toList, "<environments_instructions>".toList,
    "<plugins_instructions>".toList, "<realtime_conversation>".toList, "<skills_instructions>".toList,
    "<personality_spec>".toList, "<token_budget>".toList, "<context_window>".toList, "<context_window_guidance>".toList,
    "<rollout_budget>".toList]

def toAsciiLower (c : Char) : Char := if 'A' ≤ c ∧ c ≤ 'Z' then Char.ofNat (c.toNat + 32) else c

/-- The prefixes are of ASCII characters, so that as many bytes of a text match as characters. -/
def isContextualDevFragment : ContentItem → Bool
  | .inputText text =>
    let trimmed := Str.trimStart text
    contextualDeveloperPrefixes.any (fun tag => (trimmed.take tag.length).map toAsciiLower == tag.map toAsciiLower)
  | _ => false

section Env

variable (env : Env)

def isContextualUserFragment : ContentItem → Bool
  | .inputText text => env.contextualUserText text
  | _ => false

def isContextualUserMessageContent (content : List ContentItem) : Bool := content.any (isContextualUserFragment env)

def isContextualDevMessageContent (content : List ContentItem) : Bool := content.any isContextualDevFragment

def hasNonContextualDevMessageContent (content : List ContentItem) : Bool := content.any (!isContextualDevFragment ·)

def isInterAgentInstructionContent : List ContentItem → Bool
  | [.inputText text] => env.interAgentText text
  | [.outputText text] => env.interAgentText text
  | _ => false

def user : Str := "user".toList

def assistant : Str := "assistant".toList

def developer : Str := "developer".toList

def isUserTurnBoundary : ResponseItem → Bool
  | .agentMessage _ _ _ _ => true
  | .message _ role content _ =>
    (role == user && !isContextualUserMessageContent env content) ||
      (role == assistant && isInterAgentInstructionContent env content)
  | _ => false

/-- An item that only restates context, which a rollback trims above its cut. -/
def isContextual : ResponseItem → Bool
  | .message _ role content _ =>
    (role == developer && isContextualDevMessageContent content) ||
      (role == user && isContextualUserMessageContent env content)
  | _ => false

def isApiMessage : ResponseItem → Bool
  | .message _ role _ _ => role != "system".toList
  | .compactionTrigger => false
  | .other => false
  | _ => true

def processItem : ResponseItem → ResponseItem
  | .functionCallOutput id callId output metadata => .functionCallOutput id callId (env.truncate output) metadata
  | .customToolCallOutput id callId name output metadata =>
    .customToolCallOutput id callId name (env.truncate output) metadata
  | item => item

theorem isContextual_of_boundary (h : isUserTurnBoundary env item) : isContextual env item = false := by
  cases item with
  | message =>
    have hud : (user == developer) = false := by decide
    have had : (assistant == developer) = false := by decide
    have hau : (assistant == user) = false := by decide
    simp only [isUserTurnBoundary, Bool.or_eq_true, Bool.and_eq_true, beq_iff_eq, Bool.not_eq_true'] at h
    rcases h with ⟨rfl, hc⟩ | ⟨rfl, _⟩
    · simp [isContextual, hud, hc]
    · simp [isContextual, had, hau]
  | _ => rfl

theorem isApiMessage_of_boundary (h : isUserTurnBoundary env item) : isApiMessage item := by
  cases item with
  | message =>
    have hus : (user != "system".toList) := by decide
    have has : (assistant != "system".toList) := by decide
    simp only [isUserTurnBoundary, Bool.or_eq_true, Bool.and_eq_true, beq_iff_eq, Bool.not_eq_true'] at h
    rcases h with ⟨rfl, _⟩ | ⟨rfl, _⟩
    · exact hus
    · exact has
  | agentMessage => rfl
  | _ => cases h

@[simp] theorem isUserTurnBoundary_processItem (item : ResponseItem) :
    isUserTurnBoundary env (processItem env item) = isUserTurnBoundary env item := by
  cases item <;> rfl

@[simp] theorem isContextual_processItem (item : ResponseItem) :
    isContextual env (processItem env item) = isContextual env item := by
  cases item <;> rfl

end Env

end Owc.History
