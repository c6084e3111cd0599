import OpenWebCodex.ApprovalDb
import OpenWebCodex.Transition
/-!
# ApprovalStep — the handlers of approvals, one action at a time

An action is one transaction or one answer of the Runtime, of any number of clients, services and Runtime instances.  A
handler of `decide` or `respond_user_input` begins, gives the response to the Runtime, and completes the decision or
marks its delivery unknown; a handler that is dropped takes no further action.  `sent` is the history of what was given
to the Runtime, with what the client had submitted.
-/
namespace Owc.Approvals

inductive Submission
  | decision (decision : ApprovalDecision)
  | answers (answers : Answers)
deriving DecidableEq

inductive Delivery
  | waiting
  | delivered
  | undelivered
deriving DecidableEq

structure Handler where
  actor : ApprovalActor
  submission : Submission
  dispatch : ApprovalDispatch
  delivery : Delivery

inductive Reply
  | noContent
  | badGateway
  | failed (error : ApprovalServiceError)
deriving DecidableEq

inductive Call
  | handling (handler : Handler)
  | replied (reply : Reply)
  | resolved (result : Except ApprovalServiceError (Option ResolvedApproval))

structure Sent where
  approvalId : Uuid
  submission : Submission
  response : Json

structure State where
  db : Db
  now : Nat
  calls : Table Uuid Call
  sent : List Sent

inductive Action
  | tick (seconds : Nat)
  | captureMessage (self : ApprovalService) (runtimeInstanceId : Uuid) (message : Json) (id : Uuid)
  | beginDecision (self : ApprovalService) (actor : ApprovalActor) (id runtimeInstanceId : Uuid)
      (request : DecideApprovalRequest) (call : Uuid)
  | beginUserInputResponse (self : ApprovalService) (actor : ApprovalActor) (id runtimeInstanceId : Uuid)
      (request : RespondUserInputRequest) (call : Uuid)
  | respondToServerRequest (call : Uuid) (delivered : Bool)
  | completeDecision (call : Uuid)
  | markDeliveryUnknown (call : Uuid)
  | resolveRuntimeRequest (self : ApprovalService) (runtimeInstanceId : Uuid) (threadId : Str) (runtimeRequestId : Json)
      (call : Uuid)
  | cancelStaleRuntimeRequests (self : ApprovalService) (runtimeInstanceId : Uuid)

namespace State

def setDb (s : State) (db : Db) : State := { s with db := db }

def addCall (s : State) (call : Uuid) (c : Call) : State := { s with calls := s.calls.put call c }

def approval (s : State) (id : Uuid) : Option Approval := s.db.approvals.get id

end State

def opening (s : State) (call : Uuid) (t : State) : Option State := if (s.calls.get call).isSome then none else some t

def stepCapture (s : State) (self : ApprovalService) (runtimeInstanceId : Uuid) (message : Json) (id : Uuid) : State :=
  match captureMessage self runtimeInstanceId message id s.db with
  | .ok (db, _) => s.setDb db
  | .error _ => s

def stepBegin (s : State) (call : Uuid) (actor : ApprovalActor) (submission : Submission) :
    Except ApprovalServiceError (Db × ApprovalDispatch) → State
  | .ok (db, dispatch) => (s.setDb db).addCall call (.handling ⟨actor, submission, dispatch, .waiting⟩)
  | .error error => s.addCall call (.replied (.failed error))

/-- The response is given to the Runtime, whatever the adapter then reports. -/
def stepRespond (s : State) (call : Uuid) (delivered : Bool) (h : Handler) : Option State :=
  if h.delivery = .waiting then
    some { s.addCall call (.handling { h with delivery := if delivered then .delivered else .undelivered }) with
      sent := ⟨h.dispatch.approvalId, h.submission, h.dispatch.response⟩ :: s.sent }
  else none

def stepComplete (s : State) (call : Uuid) (h : Handler) : Option State :=
  if h.delivery = .delivered then
    match completeDecision h.actor h.dispatch s.db with
    | .ok db => some ((s.setDb db).addCall call (.replied .noContent))
    | .error error => some (s.addCall call (.replied (.failed error)))
  else none

def stepUnknown (s : State) (call : Uuid) (h : Handler) : Option State :=
  if h.delivery = .undelivered then
    some ((s.setDb (markDeliveryUnknown h.actor h.dispatch s.db)).addCall call (.replied .badGateway))
  else none

def stepResolve (s : State) (self : ApprovalService) (runtimeInstanceId : Uuid) (threadId : Str)
    (runtimeRequestId : Json) (call : Uuid) : State :=
  match resolveRuntimeRequest self runtimeInstanceId threadId runtimeRequestId s.now s.db with
  | .ok (db, resolved) => (s.setDb db).addCall call (.resolved (.ok resolved))
  | .error error => s.addCall call (.resolved (.error error))

def stepHandler (s : State) (call : Uuid) (f : Handler → Option State) : Option State :=
  match s.calls.get call with
  | some (.handling h) => f h
  | _ => none

def step (s : State) : Action → Option State
  | .tick seconds => some { s with now := s.now + seconds }
  | .captureMessage self runtimeInstanceId message id =>
    if (s.db.approvals.get id).isSome then none else some (stepCapture s self runtimeInstanceId message id)
  | .beginDecision self actor id runtimeInstanceId request call =>
    opening s call (stepBegin s call actor (.decision request.decision)
      (beginDecision self actor id runtimeInstanceId request s.now s.db))
  | .beginUserInputResponse self actor id runtimeInstanceId request call =>
    opening s call (stepBegin s call actor (.answers request.answers)
      (beginUserInputResponse self actor id runtimeInstanceId request s.now s.db))
  | .respondToServerRequest call delivered => stepHandler s call (stepRespond s call delivered)
  | .completeDecision call => stepHandler s call (stepComplete s call)
  | .markDeliveryUnknown call => stepHandler s call (stepUnknown s call)
  | .resolveRuntimeRequest self runtimeInstanceId threadId runtimeRequestId call =>
    opening s call (stepResolve s self runtimeInstanceId threadId runtimeRequestId call)
  | .cancelStaleRuntimeRequests self runtimeInstanceId =>
    some (s.setDb (cancelStaleRuntimeRequests self runtimeInstanceId s.now s.db))

structure Fresh (s : State) : Prop where
  approvals : s.db.approvals = []
  calls : s.calls = []
  sent : s.sent = []

/-! ## Sample deployment -/

def sampleSelf : ApprovalService := ⟨"profile".toList⟩

def sampleActor : ApprovalActor := ⟨1, 0⟩

def sampleState : State :=
  { db := { approvals := [], profiles := [("profile".toList, ⟨0, 1, true⟩)], runs := [(0, "thread".toList)], auditLog := [] }
    now := 0
    calls := []
    sent := [] }

theorem sampleState_fresh : Fresh sampleState := ⟨rfl, rfl, rfl⟩

def sampleMessage : Json :=
  .object [("id".toList, .number (.posInt 7)), ("method".toList, .string RequestType.commandApproval.method),
    ("params".toList, .object [("threadId".toList, str "thread")])]

def decidedRun (decision : ApprovalDecision) (delivered : Bool) : List Action :=
  [.captureMessage sampleSelf 5 sampleMessage 0, .beginDecision sampleSelf sampleActor 0 5 ⟨decision, 0⟩ 1,
    .respondToServerRequest 1 delivered]

end Owc.Approvals
