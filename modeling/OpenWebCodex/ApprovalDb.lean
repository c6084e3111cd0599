import OpenWebCodex.Json
/-!
# ApprovalDb — approvals and their transactions

The rows of `approvals` and the transactions of `apps/web/crates/approval-service`, each a function of the database.  A
profile is named by its `runtime_key`, which is unique; a Runtime request id is the number or the string that its stored
text denotes.  What a handler does between two transactions is in `ApprovalStep`.
-/
namespace Owc.Approvals

abbrev Uuid := Nat

inductive RequestType
  | commandApproval
  | fileApproval
  | mcpElicitationRequest
  | permissionsApproval
  | userInputRequest
deriving DecidableEq

def RequestType.method : RequestType → Str
  | .commandApproval => "item/commandExecution/requestApproval".toList
  | .fileApproval => "item/fileChange/requestApproval".toList
  | .mcpElicitationRequest => "mcpServer/elicitation/request".toList
  | .permissionsApproval => "item/permissions/requestApproval".toList
  | .userInputRequest => "item/tool/requestUserInput".toList

def RequestType.ofMethod (method : Str) : Option RequestType :=
  [.commandApproval, .fileApproval, .mcpElicitationRequest, .permissionsApproval, .userInputRequest].find?
    (fun requestType => requestType.method = method)

inductive ApprovalState
  | pending
  | dispatching
  | deliveryUnknown
  | approved
  | rejected
  | answered
  | expired
  | cancelled
deriving DecidableEq

/-- `state IN ('pending', 'dispatching', 'delivery_unknown')`. -/
def ApprovalState.isActive : ApprovalState → Bool
  | .pending | .dispatching | .deliveryUnknown => true
  | .approved | .rejected | .answered | .expired | .cancelled => false

inductive StoredDecision
  | approved
  | rejected
  | answered
deriving DecidableEq

inductive ApprovalDecision
  | accept
  | acceptForSession
  | decline
  | cancel
deriving DecidableEq

inductive ApprovalOutcome
  | accepted
  | declined
  | answered
  | cancelled

inductive ApprovalServiceError
  | notFound
  | conflict
  | invalid
deriving DecidableEq

inductive RequestId
  | number (n : Int)
  | string (s : Str)
deriving DecidableEq

/-- `is_u64() || is_i64() || is_string()`. -/
def RequestId.ofJson : Json → Option RequestId
  | .number (.posInt n) => some (.number n)
  | .number (.negInt n) => some (.number n)
  | .string s => some (.string s)
  | _ => none

structure Approval where
  requestType : RequestType
  requestPayload : Json
  organizationId : Uuid
  profile : Str
  threadId : Option Str
  runtimeInstanceId : Option Uuid
  runtimeRequestId : RequestId
  state : ApprovalState
  version : Int
  decision : Option StoredDecision
  decidedBy : Option Uuid
  decidedAt : Option Nat

structure Profile where
  organizationId : Uuid
  ownerUserId : Uuid
  active : Bool

/-- A row of `audit_log` with action `approval.decide`. -/
structure Audit where
  organizationId : Uuid
  actorId : Uuid
  targetId : Uuid
  decision : StoredDecision
  outcome : Str

structure Db where
  approvals : Table Uuid Approval
  profiles : Table Str Profile
  /-- the organization and the thread of each run -/
  runs : List (Uuid × Str)
  auditLog : List Audit

structure ApprovalService where
  runtimeKey : Str

structure ApprovalActor where
  userId : Uuid
  organizationId : Uuid

structure DecideApprovalRequest where
  decision : ApprovalDecision
  version : Int

abbrev Answers := Table Str (List Str)

structure RespondUserInputRequest where
  answers : Answers
  version : Int
  ordered : (answers.map (·.1)).Pairwise (· < ·)

structure ApprovalDispatch where
  approvalId : Uuid
  runtimeInstanceId : Uuid
  runtimeRequestId : RequestId
  response : Json
  dispatchVersion : Int
  terminalState : ApprovalState
  decision : StoredDecision

structure ResolvedApproval where
  approvalId : Uuid
  threadId : Str
  turnId : Option Str
  itemId : Option Str
  outcome : ApprovalOutcome

/-! ## Payloads and responses -/

def str (s : String) : Json := .string s.toList

/-- The members of `params` under `keys`, as `payload.insert` collects them. -/
def copyFields (params : Json) (keys : List String) (payload : Json.Map) : Json.Map :=
  keys.foldl (fun payload key =>
    match params.get key.toList with
    | some value => payload.insert key.toList value
    | none => payload) payload

def approvalPayload (requestType : RequestType) (params : Json) : Json :=
  let payload := copyFields params ["threadId", "turnId", "itemId", "reason", "startedAtMs"] []
  .object (match requestType with
    | .commandApproval => copyFields params ["command"] payload
    | .permissionsApproval => copyFields params ["permissions"] payload
    | .mcpElicitationRequest => copyFields params ["serverName", "mode", "message", "requestedSchema", "url"] payload
    | .userInputRequest => copyFields params ["questions", "autoResolutionMs"] payload
    | .fileApproval => payload)

def questionIds (questions : List Json) : List Str :=
  ((questions.filterMap (fun question => (question.get "id".toList).bind Json.asStr)).filter (fun id => !id.isEmpty)).dedup

def validAnswer (values : List Str) : Bool :=
  !values.isEmpty && values.length ≤ 20 && values.all (fun value => !value.contains '\x00' && value.utf8Len ≤ 4096)

def validateUserInputAnswers (payload : Json) (request : RespondUserInputRequest) : Except ApprovalServiceError Unit :=
  match (payload.get "questions".toList).bind Json.asArray with
  | none => .error .invalid
  | some questions =>
    let ids := questionIds questions
    if ids.isEmpty || request.answers.length != ids.length || !request.answers.all (fun e => ids.contains e.1) then
      .error .invalid
    else if !request.answers.all (fun e => validAnswer e.2) then .error .invalid
    else if 64 * 1024 < ((request.answers.flatMap (·.2)).map Str.utf8Len).sum then .error .invalid
    else .ok ()

/-- The value `mcp_elicitation_accept_content` supplies for a required property. -/
def acceptValue (property : Json.Map) : Except ApprovalServiceError Json :=
  match property.get "const".toList with
  | some value => .ok value
  | none =>
    match property.get "default".toList with
    | some value => .ok value
    | none =>
      if (property.get "type".toList).bind Json.asStr = some "boolean".toList then .ok (.bool true)
      else
        match (property.get "enum".toList).bind Json.asArray with
        | some [value] => .ok value
        | _ => .error .invalid

def acceptField (properties : Json.Map) (content : Json.Map) (field : Json) : Except ApprovalServiceError Json.Map :=
  match field.asStr with
  | none => .error .invalid
  | some field =>
    match (properties.get field).bind Json.asObject with
    | none => .error .invalid
    | some property => (acceptValue property).map (content.insert field ·)

def mcpElicitationAcceptContent (payload : Json) : Except ApprovalServiceError Json :=
  match (payload.get "mode".toList).bind Json.asStr with
  | none => .error .invalid
  | some mode =>
    if mode = "url".toList then .ok .null
    else if mode ≠ "form".toList then .error .invalid
    else
      match (payload.get "requestedSchema".toList).bind Json.asObject with
      | none => .error .invalid
      | some schema =>
        match (schema.get "properties".toList).bind Json.asObject with
        | none => .error .invalid
        | some properties =>
          let required := ((schema.get "required".toList).bind Json.asArray).getD []
          (required.foldlM (acceptField properties) []).map Json.object

def ApprovalDecision.terminal : ApprovalDecision → ApprovalState × StoredDecision
  | .accept | .acceptForSession => (.approved, .approved)
  | .decline => (.rejected, .rejected)
  | .cancel => (.cancelled, .rejected)

def ApprovalDecision.name : ApprovalDecision → String
  | .accept => "accept"
  | .acceptForSession => "acceptForSession"
  | .decline => "decline"
  | .cancel => "cancel"

def permissionsResponse (permissions : Json) (scope : String) : Json :=
  .object [("permissions".toList, permissions), ("scope".toList, str scope)]

def elicitationResponse (action : String) (content : Json) : Json :=
  .object [("_meta".toList, .null), ("action".toList, str action), ("content".toList, content)]

/-- The response of `approval_response`, before the terminal state and the stored decision are added. -/
def decisionResponse (requestType : RequestType) (payload : Json) (decision : ApprovalDecision) :
    Except ApprovalServiceError Json :=
  match requestType with
  | .commandApproval | .fileApproval => .ok (.object [("decision".toList, str decision.name)])
  | .permissionsApproval =>
    let permissions := (payload.get "permissions".toList).getD (.object [])
    match decision with
    | .accept => .ok (permissionsResponse permissions "turn")
    | .acceptForSession => .ok (permissionsResponse permissions "session")
    | .decline | .cancel => .ok (permissionsResponse (.object []) "turn")
  | .mcpElicitationRequest =>
    match decision with
    | .accept | .acceptForSession => (mcpElicitationAcceptContent payload).map (elicitationResponse "accept")
    | .decline => .ok (elicitationResponse "decline" .null)
    | .cancel => .ok (elicitationResponse "cancel" .null)
  | .userInputRequest => .error .invalid

def approvalResponse (requestType : RequestType) (payload : Json) (decision : ApprovalDecision) :
    Except ApprovalServiceError (Json × ApprovalState × StoredDecision) :=
  (decisionResponse requestType payload decision).map (fun response => (response, decision.terminal))

def answersResponse (answers : Answers) : Json :=
  .object [("answers".toList, .object (answers.map (fun e =>
    (e.1, .object [("answers".toList, .array (e.2.map Json.string))]))))]

/-! ## Capturing a request -/

/-- What `capture_message` reads off a message before it touches the database. -/
structure Captured where
  requestType : RequestType
  requestId : RequestId
  threadId : Str
  payload : Json

def captureRequest (message : Json) : Except ApprovalServiceError (Option Captured) :=
  match ((message.get "method".toList).bind Json.asStr).bind RequestType.ofMethod with
  | none => .ok none
  | some requestType =>
    match (message.get "id".toList).bind RequestId.ofJson, message.get "params".toList with
    | some requestId, some params =>
      match ((params.get "threadId".toList).bind Json.asStr).filter (fun value => !value.isEmpty) with
      | some threadId => .ok (some ⟨requestType, requestId, threadId, approvalPayload requestType params⟩)
      | none => .error .invalid
    | _, _ => .error .invalid

/-- The key of the unique index `idx_approvals_runtime_request`. -/
def Approval.isRequest (profile : Str) (runtimeInstanceId : Uuid) (requestId : RequestId) (row : Approval) : Bool :=
  row.profile == profile && row.runtimeInstanceId == some runtimeInstanceId && row.runtimeRequestId == requestId

def Captured.row (captured : Captured) (self : ApprovalService) (profile : Profile) (runtimeInstanceId : Uuid) :
    Approval :=
  { requestType := captured.requestType, requestPayload := captured.payload,
    organizationId := profile.organizationId, profile := self.runtimeKey, threadId := some captured.threadId,
    runtimeInstanceId := some runtimeInstanceId, runtimeRequestId := captured.requestId, state := .pending,
    version := 0, decision := none, decidedBy := none, decidedAt := none }

/-- `capture_message`, with the id that a row it inserts is given. -/
def captureMessage (self : ApprovalService) (runtimeInstanceId : Uuid) (message : Json) (id : Uuid) (db : Db) :
    Except ApprovalServiceError (Db × Option Uuid) :=
  match captureRequest message with
  | .error error => .error error
  | .ok none => .ok (db, none)
  | .ok (some captured) =>
    match (db.approvals.select (·.isRequest self.runtimeKey runtimeInstanceId captured.requestId)).head? with
    | some existing => .ok (db, some existing.1)
    | none =>
      match db.profiles.get self.runtimeKey with
      | none => .error .notFound
      | some profile =>
        if profile.active && db.runs.contains (profile.organizationId, captured.threadId) then
          .ok ({ db with approvals := db.approvals.put id (captured.row self profile runtimeInstanceId) }, some id)
        else .error .notFound

/-! ## Deciding a request -/

/-- The row that `begin_decision` and `begin_user_input_response` lock. -/
def actorRow (self : ApprovalService) (actor : ApprovalActor) (id : Uuid) (db : Db) : Option Approval :=
  (db.approvals.get id).filter (fun row => row.organizationId == actor.organizationId && row.profile == self.runtimeKey &&
    db.profiles.holds self.runtimeKey (fun profile => profile.ownerUserId == actor.userId))

/-- Whether a row may be dispatched with `decision`: it is pending, or a retry of the same stored decision. -/
def Approval.dispatchable (decision : StoredDecision) (row : Approval) : Bool :=
  row.state == .pending || (row.state == .deliveryUnknown && row.decision == some decision)

def Approval.dispatch (decision : StoredDecision) (userId : Uuid) (now : Nat) (row : Approval) : Approval :=
  { row with
    state := .dispatching, decision := some decision, decidedBy := some userId, decidedAt := some now,
    version := row.version + 1 }

def Db.updateApproval (db : Db) (id : Uuid) (p : Approval → Bool) (f : Approval → Approval) : Db :=
  { db with approvals := db.approvals.updateWhere id p f }

def beginDecision (self : ApprovalService) (actor : ApprovalActor) (id runtimeInstanceId : Uuid)
    (request : DecideApprovalRequest) (now : Nat) (db : Db) : Except ApprovalServiceError (Db × ApprovalDispatch) :=
  match actorRow self actor id db with
  | none => .error .notFound
  | some row =>
    if row.runtimeInstanceId ≠ some runtimeInstanceId ∨ row.version ≠ request.version then .error .conflict
    else
      match approvalResponse row.requestType row.requestPayload request.decision with
      | .error error => .error error
      | .ok (response, terminalState, decision) =>
        if !row.dispatchable decision then .error .conflict
        else .ok (db.updateApproval id (fun _ => true) (·.dispatch decision actor.userId now),
          ⟨id, runtimeInstanceId, row.runtimeRequestId, response, row.version + 1, terminalState, decision⟩)

def beginUserInputResponse (self : ApprovalService) (actor : ApprovalActor) (id runtimeInstanceId : Uuid)
    (request : RespondUserInputRequest) (now : Nat) (db : Db) : Except ApprovalServiceError (Db × ApprovalDispatch) :=
  match actorRow self actor id db with
  | none => .error .notFound
  | some row =>
    if row.runtimeInstanceId ≠ some runtimeInstanceId ∨ row.version ≠ request.version ∨ !row.dispatchable .answered then
      .error .conflict
    else if row.requestType ≠ .userInputRequest then .error .invalid
    else
      match validateUserInputAnswers row.requestPayload request with
      | .error error => .error error
      | .ok () => .ok (db.updateApproval id (fun _ => true) (·.dispatch .answered actor.userId now),
          ⟨id, runtimeInstanceId, row.runtimeRequestId, answersResponse request.answers, row.version + 1, .answered,
            .answered⟩)

/-- The guard of `complete_decision` and `mark_delivery_unknown`. -/
def Approval.awaits (actor : ApprovalActor) (dispatch : ApprovalDispatch) (row : Approval) : Bool :=
  row.organizationId == actor.organizationId && row.state == .dispatching && row.version == dispatch.dispatchVersion

def Approval.settle (state : ApprovalState) (row : Approval) : Approval :=
  { row with state := state, version := row.version + 1 }

def Db.audit (db : Db) (actor : ApprovalActor) (dispatch : ApprovalDispatch) (outcome : String) : Db :=
  { db with auditLog :=
      ⟨actor.organizationId, actor.userId, dispatch.approvalId, dispatch.decision, outcome.toList⟩ :: db.auditLog }

def completeDecision (actor : ApprovalActor) (dispatch : ApprovalDispatch) (db : Db) : Except ApprovalServiceError Db :=
  if db.approvals.holds dispatch.approvalId (·.awaits actor dispatch) then
    .ok ((db.updateApproval dispatch.approvalId (·.awaits actor dispatch) (·.settle dispatch.terminalState)).audit
      actor dispatch "success")
  else if db.approvals.holds dispatch.approvalId (fun row => row.organizationId == actor.organizationId &&
      row.state == dispatch.terminalState && row.decision == some dispatch.decision) then
    .ok (db.audit actor dispatch "success")
  else .error .conflict

def markDeliveryUnknown (actor : ApprovalActor) (dispatch : ApprovalDispatch) (db : Db) : Db :=
  (db.updateApproval dispatch.approvalId (·.awaits actor dispatch) (·.settle .deliveryUnknown)).audit actor dispatch
    "delivery_unknown"

/-! ## The Runtime's side -/

def resolvedTerminalState (state : ApprovalState) (decision : Option StoredDecision) : Option ApprovalState :=
  if !state.isActive then none
  else
    match decision with
    | some .rejected => some .rejected
    | some .answered => some .answered
    | some .approved => some .approved
    | none => some .cancelled

def approvalOutcome : ApprovalState → Option ApprovalOutcome
  | .approved => some .accepted
  | .rejected => some .declined
  | .answered => some .answered
  | .cancelled => some .cancelled
  | .pending | .dispatching | .deliveryUnknown | .expired => none

/-- `state`, with `decided_at = COALESCE(decided_at, now())`. -/
def Approval.resolve (state : ApprovalState) (now : Nat) (row : Approval) : Approval :=
  { row.settle state with decidedAt := row.decidedAt.or (some now) }

/-- The row that `resolve_runtime_request` locks. -/
def resolvedRow (self : ApprovalService) (runtimeInstanceId : Uuid) (threadId : Str) (requestId : RequestId) (db : Db) :
    Option (Uuid × Approval) :=
  (db.approvals.select (fun row => row.isRequest self.runtimeKey runtimeInstanceId requestId &&
    row.threadId == some threadId)).head?

def payloadField (payload : Json) (key : String) : Option Str :=
  ((payload.get key.toList).bind Json.asStr).filter (fun value => !value.isEmpty)

def resolveRuntimeRequest (self : ApprovalService) (runtimeInstanceId : Uuid) (threadId : Str) (runtimeRequestId : Json)
    (now : Nat) (db : Db) : Except ApprovalServiceError (Db × Option ResolvedApproval) :=
  if threadId.trim.isEmpty then .error .invalid
  else
    match RequestId.ofJson runtimeRequestId with
    | none => .error .invalid
    | some requestId =>
      match resolvedRow self runtimeInstanceId threadId requestId db with
      | none => .ok (db, none)
      | some (id, row) =>
        match row.threadId.filter (fun value => !value.isEmpty) with
        | none => .error .invalid
        | some thread =>
          let settled := resolvedTerminalState row.state row.decision
          match approvalOutcome (settled.getD row.state) with
          | none => .error .invalid
          | some outcome =>
            let resolved : ResolvedApproval :=
              ⟨id, thread, payloadField row.requestPayload "turnId", payloadField row.requestPayload "itemId", outcome⟩
            match settled with
            | some state => .ok (db.updateApproval id (fun _ => true) (·.resolve state now), some resolved)
            | none => .ok (db, some resolved)

def cancelStaleRuntimeRequests (self : ApprovalService) (runtimeInstanceId : Uuid) (now : Nat) (db : Db) : Db :=
  { db with approvals := db.approvals.updateAll (fun row => row.profile == self.runtimeKey && row.state.isActive &&
      row.runtimeInstanceId != some runtimeInstanceId) (·.resolve .cancelled now) }

end Owc.Approvals
