import OpenWebCodex.ProjectCard
/-!
# ProjectFrame — the public event of a Runtime frame

`project_frame` of `event_projection.rs`: the message of a frame, the projection of its item or of its other parameters,
and the artifacts it registers.  `serde_json::from_str` and `Uuid::parse_str` are not part of the repository and come as
`Crates`; all that is asked of them is that a parsed object has no key twice.
-/
namespace Owc.Projection

structure Crates where
  fromStr : Str → Option Json
  isUuid : Str → Bool
  unique : ∀ text value, fromStr text = some value → value.unique = true

/-! ## Text of a frame -/

def isContinuation (b : UInt8) : Bool := 0x80 ≤ b && b ≤ 0xBF

/-- The character of the low bits of a lead byte and its continuation bytes. -/
def decodeChar (lead : Nat) (continuation : List UInt8) : Char :=
  Char.ofNat (continuation.foldl (fun n b => n * 64 + (b.toNat - 0x80)) lead)

/-- `std::str::from_utf8`: shortest forms only, and no surrogates. -/
def fromUtf8 : List UInt8 → Option Str
  | [] => some []
  | [b₀] => if b₀ < 0x80 then some [Char.ofNat b₀.toNat] else none
  | b₀ :: b₁ :: bs =>
    if b₀ < 0x80 then (fromUtf8 (b₁ :: bs)).map (Char.ofNat b₀.toNat :: ·)
    else if 0xC2 ≤ b₀ && b₀ ≤ 0xDF && isContinuation b₁ then
      (fromUtf8 bs).map (decodeChar (b₀.toNat - 0xC0) [b₁] :: ·)
    else
      match bs with
      | [] => none
      | b₂ :: bs =>
        if 0xE0 ≤ b₀ && b₀ ≤ 0xEF && isContinuation b₁ && isContinuation b₂ && (b₀ != 0xE0 || 0xA0 ≤ b₁) &&
            (b₀ != 0xED || b₁ ≤ 0x9F) then
          (fromUtf8 bs).map (decodeChar (b₀.toNat - 0xE0) [b₁, b₂] :: ·)
        else
          match bs with
          | [] => none
          | b₃ :: bs =>
            if 0xF0 ≤ b₀ && b₀ ≤ 0xF4 && isContinuation b₁ && isContinuation b₂ && isContinuation b₃ &&
                (b₀ != 0xF0 || 0x90 ≤ b₁) && (b₀ != 0xF4 || b₁ ≤ 0x8F) then
              (fromUtf8 bs).map (decodeChar (b₀.toNat - 0xF0) [b₁, b₂, b₃] :: ·)
            else none

inductive FrameError
  | invalidUtf8
  | invalidJson
deriving DecidableEq

def frameText (text : Str) : Option Str :=
  let joined := Str.joinNl ((Str.lines text).filterMap (fun line => (Str.stripPrefix line "data:".toList).map Str.trimStart))
  let chosen :=
    if joined.isEmpty then
      let raw := Str.trim text
      if Str.startsWith raw ['{'] || Str.startsWith raw ['['] then some raw else none
    else some (Str.trim joined)
  chosen.filter (fun text => !text.isEmpty)

def envelopeMessage (value : Json) : Option Json.Map := do
  require (isStr (value.get "method".toList) "app-server-event")
  let params ← value.get "params".toList
  (params.get "message".toList).bind Json.asObject

def internalMessage (crates : Crates) (data : List UInt8) : Except FrameError (Option Json.Map) :=
  match fromUtf8 data with
  | none => .error .invalidUtf8
  | some text =>
    match frameText text with
    | none => .ok none
    | some text =>
      match crates.fromStr text with
      | none => .error .invalidJson
      | some value => .ok (envelopeMessage value)

/-! ## Events -/

def classifyMethod (method : Str) : String × String :=
  if method = "platform/approvalRequested".toList then ("platform.approval.requested", "requested")
  else if method = "serverRequest/resolved".toList then ("platform.approval.resolved", "resolved")
  else if method = "item/started".toList then ("codex.item.started", "started")
  else if method = "item/completed".toList then ("codex.item.completed", "completed")
  else if method = "turn/started".toList then ("codex.turn.started", "started")
  else if method = "turn/completed".toList then ("codex.turn.completed", "completed")
  else if method = "thread/started".toList then ("codex.thread.started", "started")
  else if method = "thread/archived".toList then ("codex.thread.archived", "archived")
  else if method = "thread/unarchived".toList then ("codex.thread.unarchived", "unarchived")
  else if method = "thread/name/updated".toList then ("codex.thread.name.updated", "updated")
  else if method = "thread/tokenUsage/updated".toList then ("codex.thread.token_usage.updated", "updated")
  else if method = "thread/completed".toList then ("codex.thread.completed", "completed")
  else if method = "thread/failed".toList then ("codex.thread.failed", "failed")
  else if Str.startsWith method "item/".toList &&
      (Str.endsWith method "/delta".toList || Str.endsWith method "Delta".toList) then ("codex.item.delta", "delta")
  else ("codex.unknown", "unknown")

def stringField (values : Json.Map) (key : String) : Option Str := (values.get key.toList).bind Json.asStr

def nestedStringField (values : Json.Map) (objectKey fieldKey : String) : Option Str :=
  ((values.get objectKey.toList).bind Json.asObject).bind (stringField · fieldKey)

def copySanitized (source : Json.Map) (data : Json.Map) (key : String) : Json.Map :=
  match (source.get key.toList).map (sanitizeValue · key.toList) with
  | some value => data.insert key.toList value
  | none => data

def eventFields : List String :=
  ["approvalId", "approvalStatus", "requestMethod", "requestParams", "error", "message", "additionalDetails",
    "codexErrorInfo", "failureReason", "name", "status", "thread", "turn", "delta", "summaryIndex", "contentIndex",
    "startedAtMs", "completedAtMs", "startedAt", "started_at", "explanation", "plan", "steps", "diff", "threadName",
    "tokenUsage", "model", "reasoningEffort", "sandbox", "approvalPolicy", "goal", "rateLimits", "command", "stdin"]

def projectEventData (crates : Crates) (method : Str) (params : Json.Map) : Json :=
  let data := Json.Map.insert [] "sourceType".toList (.string method)
  let requestId := if method = "serverRequest/resolved".toList then
    (stringField params "requestId").filter crates.isUuid else none
  let data := match requestId with
    | some requestId => data.insert "requestId".toList (.string requestId)
    | none => data
  .object (eventFields.foldl (copySanitized params) data)

/-- The fields of an item that are projected, by its type; none for a type the projection does not know. -/
def itemFields (itemType : Str) : Option (List String) :=
  ([("userMessage", ["content"]), ("hookPrompt", ["fragments"]), ("agentMessage", ["text"]), ("plan", ["text"]),
    ("reasoning", ["summary", "content"]),
    ("commandExecution", ["command", "aggregatedOutput", "exitCode", "durationMs", "commandActions"]),
    ("fileChange", ["changes"]), ("mcpToolCall", ["server", "tool", "arguments", "result", "error"]),
    ("dynamicToolCall", ["namespace", "tool", "arguments", "contentItems", "success"]),
    ("collabAgentToolCall", ["tool", "prompt", "senderThreadId", "receiverThreadIds", "agentsStates"]),
    ("collabToolCall", ["tool", "prompt", "senderThreadId", "receiverThreadIds", "agentsStates"]),
    ("subAgentActivity", ["kind", "agentThreadId", "agentPath"]), ("webSearch", ["query", "action"]),
    ("imageView", ["path"]), ("imageGeneration", ["revisedPrompt", "result", "savedPath"]), ("sleep", ["durationMs"]),
    ("enteredReviewMode", ["review"]), ("exitedReviewMode", ["review"]), ("contextCompaction", [])].find?
      (fun e => e.1.toList == itemType)).map (·.2)

/-- The public form of a structured artifact: its reference, its renderer's kind and its directive. -/
def redactArtifact (structured : Json.Map) : Json.Map :=
  let artifact := (structured.get "artifact".toList).bind Json.asObject
  let artifactRef := artifact.bind (stringField · "ref")
  let rendererKind := artifact.bind (nestedStringField · "renderer" "kind")
  Json.Map.ofList [("type".toList, .string "open-web-artifact".toList),
    ("kind".toList, .string "inline-visualization.v1".toList),
    ("artifact".toList, .object (Json.Map.ofList [("ref".toList, (artifactRef.map Json.string).getD .null),
      ("renderer".toList, .object [("kind".toList, (rendererKind.map Json.string).getD .null)])])),
    ("embed".toList, (structured.get "embed".toList).getD .null)]

def redactStructured (structured : Json.Map) : Json.Map :=
  let structured :=
    if isStr (structured.get "type".toList) "open-web-artifact" &&
        isStr (structured.get "kind".toList) "inline-visualization.v1" then redactArtifact structured else structured
  if isStr (((structured.get "data_ref".toList).bind Json.asObject).bind (·.get "type".toList)) "mcp_resource" then
    structured.erase "data_ref".toList else structured

def redactLink (item : Json) : Json :=
  match item.asObject with
  | none => item
  | some members =>
    if isStr (members.get "type".toList) "resource_link" then
      .object (Table.erase (Table.erase members "uri".toList) "_meta".toList) else item

def redactMcpResourceMetadata (result : Json) : Json :=
  match result.asObject with
  | none => result
  | some members =>
    let members := match (members.get "structuredContent".toList).bind Json.asObject with
      | some structured => members.insert "structuredContent".toList (.object (redactStructured structured))
      | none => members
    match (members.get "content".toList).bind Json.asArray with
    | some content => .object (members.insert "content".toList (.array (content.map redactLink)))
    | none => .object members

def projectItem (item : Json.Map) : Json :=
  let itemType := (stringField item "type").getD "unknown".toList
  let projected := Json.Map.insert [] "type".toList (.string itemType)
  let projected := copySanitized item projected "status"
  let projected := match itemFields itemType with
    | some fields => fields.foldl (copySanitized item) projected
    | none => projected.insert "summary".toList (.string "Unsupported runtime item".toList)
  let phase := if itemType = "agentMessage".toList then
    (stringField item "phase").filter (fun phase => ["commentary", "final_answer"].any (·.toList == phase)) else none
  let projected := match phase with
    | some phase => projected.insert "phase".toList (.string phase)
    | none => projected
  let result := if itemType = "mcpToolCall".toList then projected.get "result".toList else none
  .object (match result with
    | some result => projected.insert "result".toList (redactMcpResourceMetadata result)
    | none => projected)

/-! ## The frame -/

structure ReplyArtifactCandidate where
  uri : Str
  mimeType : Option Str
  expectedSize : Option Nat

def asSize : Json → Option Nat
  | .number (.posInt n) => if n < 2 ^ 63 then some n else none
  | _ => none

def replyArtifactLink (content : Json) : Option ReplyArtifactCandidate := do
  let content ← content.asObject
  require (isStr (content.get "type".toList) "resource_link")
  let uri ← ((content.get "uri".toList).bind Json.asStr).map Str.trim
  require (validGeojsonResourceUri uri)
  let mimeType := (((content.get "mimeType".toList).bind Json.asStr).map Str.trim).filter (fun value => !value.isEmpty)
  require (["application/geo+json", "application/json"].any (fun name => mimeType == some name.toList))
  some ⟨uri, mimeType, (content.get "size".toList).bind asSize⟩

def replyArtifactCandidates (item : Json.Map) : List ReplyArtifactCandidate :=
  ((((item.get "result".toList).bind Json.asObject).bind (fun result =>
    (result.get "content".toList).bind Json.asArray)).getD []).filterMap replyArtifactLink

structure ProjectedEvent where
  eventType : String
  threadId : Str
  turnId : Option Str
  itemId : Option Str
  payload : Json
  replyArtifacts : List ReplyArtifactCandidate
  inlineArtifact : Option InlineVisualizationArtifactCandidate

def optionalText (value : Option Str) : Json := (value.map Json.string).getD .null

def messageMethod (message : Json.Map) : Str := (stringField message "method").getD "unknown".toList

def messageParams (message : Json.Map) : Json.Map := ((message.get "params".toList).bind Json.asObject).getD []

def messageItem (message : Json.Map) : Option Json.Map := ((messageParams message).get "item".toList).bind Json.asObject

def projectMessage (crates : Crates) (message : Json.Map) : Option ProjectedEvent :=
  let method := messageMethod message
  let params := messageParams message
  let item := messageItem message
  match (stringField params "threadId").or (stringField params "thread_id") with
  | none => none
  | some threadId =>
    let turnId := ((stringField params "turnId").or (stringField params "turn_id")).or (nestedStringField params "turn" "id")
    let itemId := ((stringField params "itemId").or (stringField params "item_id")).or (item.bind (stringField · "id"))
    let (eventType, lifecycle) := classifyMethod method
    let itemType := item.bind (stringField · "type")
    let data := match item with
      | some item => projectItem item
      | none => projectEventData crates method params
    some {
      eventType := eventType
      threadId := threadId
      turnId := turnId
      itemId := itemId
      payload := .object (Json.Map.ofList [("schemaVersion".toList, .number (.posInt 1)),
        ("threadId".toList, .string threadId), ("turnId".toList, optionalText turnId),
        ("itemId".toList, optionalText itemId), ("lifecycle".toList, .string lifecycle.toList),
        ("itemType".toList, optionalText itemType), ("data".toList, data)])
      replyArtifacts := (item.map replyArtifactCandidates).getD []
      inlineArtifact := item.bind projectInlineVisualizationArtifact }

def projectFrame (crates : Crates) (data : List UInt8) : Except FrameError (Option ProjectedEvent) :=
  match internalMessage crates data with
  | .error error => .error error
  | .ok none => .ok none
  | .ok (some message) => .ok (projectMessage crates message)

end Owc.Projection
