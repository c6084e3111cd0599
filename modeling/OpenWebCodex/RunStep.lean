import OpenWebCodex.RunDb
import OpenWebCodex.Transition
/-!
# RunStep — the run orchestrator as a transition system

Any number of workers and clients share one database and one disk.  A worker executing a lease stands at a `Phase` of
`execute_lease`; every other call that is between two of its transactions is a `Call`.  One `Action` is one database
transaction, one disk operation or the return of one runtime call, so every interleaving of the source's steps is a
list of actions.  Row locks are left out: a lock only forbids interleavings, and every write that runs under one
repeats its guard.
-/
namespace Owc.Orchestrator

inductive Phase
  | claimed
  | leased
  | provisioned (workspaceId : Uuid)
  | renewed (workspaceId : Uuid)
  /-- `record_workspace` found its lease. -/
  | owned (workspaceId : Uuid)
  | recorded (workspaceId : Uuid)
  | startFailed (workspaceId : Uuid)
  | started (workspaceId : Uuid) (thread : Str)
  /-- The running transition updated no row. -/
  | unsure (workspaceId : Uuid) (thread : Str)
  /-- About to remove a checkout no row names. -/
  | discarding (workspaceId : Uuid) (error : RunOrchestratorError)
  | failing (error : RunOrchestratorError)
  | finished

structure Exec where
  self : RunOrchestrator
  lease : RunLease
  phase : Phase

/-- A call between two of its transactions. -/
inductive Call
  /-- `enqueue_run` before its `INSERT`. -/
  | inserting (run : NewRun)
  /-- `cancel_run` waiting for its interrupt. -/
  | interrupting (runId : Uuid)
  | retiring (request : RetireWorkspaceRequest) (workspaceId : Uuid)
  /-- `recover_run` before its writes. -/
  | recovering (self : RunOrchestrator) (runId workspaceId : Uuid)
  /-- `run_cleanup_once` before it removes the checkout. -/
  | cleaning (workspaceId token : Uuid)
  /-- `run_cleanup_once` after it removed the checkout. -/
  | cleaned (workspaceId token : Uuid)
  /-- `run_cleanup_once` after the removal failed. -/
  | uncleaned (workspaceId token : Uuid)
  /-- `send_message` or `start_review` waiting for the runtime to name the turn. -/
  | starting (organizationId runId : Uuid) (review : Bool)
  /-- `send_message` or `start_review` before its `UPDATE`. -/
  | turnNamed (organizationId runId : Uuid) (turnId : Str)
  /-- `interrupt_run` before its `UPDATE`. -/
  | turnStopped (organizationId runId : Uuid) (turnId : Str)

structure State where
  db : Db
  disk : List Uuid
  now : Nat
  /-- `Uuid::now_v7` never returns a workspace id twice. -/
  nextWorkspace : Uuid
  /-- The workers, under the run each one claimed. -/
  execs : Table Uuid Exec
  calls : Table Uuid Call

/-- What becomes of `git.provision` and, for a worktree, of `switch_or_create_branch`. -/
inductive Provision
  | ready
  | failed
  | branchFailed

/-- What becomes of `git.remove_workspace`: a failed removal may have removed the checkout. -/
inductive Removal
  | removed
  | failed (gone : Bool)
deriving DecidableEq

inductive Action
  | tick (seconds : Nat)
  | enqueueRun (self : RunOrchestrator) (request : EnqueueRunRequest) (call : Uuid)
  | insertRun (call id : Uuid)
  | claimNext (self : RunOrchestrator) (id token : Uuid)
  | heartbeat (id : Uuid)
  | provision (id : Uuid) (outcome : Provision)
  | checkOwned (id : Uuid)
  | recordWorkspace (id : Uuid)
  | discard (id : Uuid) (outcome : Removal)
  /-- The runtime starts or forks the thread, or fails to. -/
  | startThread (id : Uuid) (thread : Option Str)
  | queueCleanup (id : Uuid)
  | markRunning (id : Uuid)
  | recordDeliveryUncertainty (id : Uuid)
  | failLease (id : Uuid)
  | heartbeatOwnedRuns (self : RunOrchestrator)
  | reapExpired
  | cancelRun (request : CancelRunRequest) (call : Uuid)
  | interruptReturned (call : Uuid) (delivered : Bool)
  | retireWorkspace (request : RetireWorkspaceRequest) (interrupted : Bool) (call : Uuid)
  | retireCommit (call : Uuid)
  | recoverRun (self : RunOrchestrator) (request : RecoverRunRequest) (call : Uuid)
  | recoverCommit (call token : Uuid)
  | claimCleanup (self : RunOrchestrator) (workspaceId token call : Uuid)
  | removeWorkspace (call : Uuid) (outcome : Removal)
  | finishCleanup (call : Uuid)
  | persistFrame (thread : Str) (id : Uuid) (event : RuntimeEvent)
  | sendMessage (organizationId userId id call : Uuid)
  | startReview (request : RunRequest) (call : Uuid)
  | turnReturned (call : Uuid) (turnId : Str)
  | setActiveTurn (call : Uuid)
  | interruptRun (request : RunRequest) (turnId : Str) (call : Uuid)
  | clearActiveTurn (call : Uuid)

namespace State

def setExec (s : State) (id : Uuid) (e : Exec) (phase : Phase) : State :=
  { s with execs := s.execs.put id { e with phase := phase } }

def setDb (s : State) (db : Db) : State := { s with db := db }

def endCall (s : State) (call : Uuid) : State := { s with calls := s.calls.erase call }

def addCall (s : State) (call : Uuid) (c : Call) : State := { s with calls := s.calls.put call c }

def remove (s : State) (workspaceId : Uuid) : State := { s with disk := s.disk.filter (· ≠ workspaceId) }

/-- A removal, which may fail with the checkout gone all the same. -/
def removal (s : State) (workspaceId : Uuid) : Removal → State
  | .removed => s.remove workspaceId
  | .failed true => s.remove workspaceId
  | .failed false => s

end State

/-! ## The steps of `run_once` -/

/-- A heartbeat of `execute_lease` on the way to the next phase. -/
def renewLease (s : State) (id : Uuid) (e : Exec) (next : Phase) : State :=
  match heartbeat e.self e.lease s.now s.db with
  | .ok db => (s.setDb db).setExec id e next
  | .error error => s.setExec id e (.failing error)

def stepHeartbeat (s : State) (id : Uuid) (e : Exec) : Option State :=
  match e.phase with
  | .claimed => some (renewLease s id e .leased)
  | .provisioned workspaceId => some (renewLease s id e (.renewed workspaceId))
  | _ => none

def stepProvision (s : State) (id : Uuid) (e : Exec) (outcome : Provision) : Option State :=
  match e.phase with
  | .leased =>
    if e.self.validateSource e.lease.gitUrl && e.self.validateRef e.lease.sourceRef then
      let minted : State := { s with nextWorkspace := s.nextWorkspace + 1 }
      let placed : State := { minted with disk := s.nextWorkspace :: s.disk }
      match outcome with
      | .ready => some (placed.setExec id e (.provisioned s.nextWorkspace))
      | .failed => some (minted.setExec id e (.failing .git))
      | .branchFailed =>
        if e.lease.workspaceKind = .worktree then some (placed.setExec id e (.discarding s.nextWorkspace .git)) else none
    else some (s.setExec id e (.failing .git))
  | _ => none

def stepCheckOwned (s : State) (id : Uuid) (e : Exec) : Option State :=
  match e.phase with
  | .renewed workspaceId =>
    some (s.setExec id e (if ownsRun e.self e.lease s.db then .owned workspaceId else .discarding workspaceId .leaseLost))
  | _ => none

def stepRecordWorkspace (s : State) (id : Uuid) (e : Exec) : Option State :=
  match e.phase with
  | .owned workspaceId =>
    match recordWorkspace e.lease workspaceId s.db with
    | .ok db => some ((s.setDb db).setExec id e (.recorded workspaceId))
    | .error error => some (s.setExec id e (.discarding workspaceId error))
  | _ => none

def stepDiscard (s : State) (id : Uuid) (e : Exec) (outcome : Removal) : Option State :=
  match e.phase with
  | .discarding workspaceId error =>
    some ((s.removal workspaceId outcome).setExec id e (.failing (if outcome = .removed then error else .git)))
  | _ => none

def stepStartThread (s : State) (id : Uuid) (e : Exec) (thread : Option Str) : Option State :=
  match e.phase with
  | .recorded workspaceId =>
    if e.lease.forkThreadId.all (fun source => forkSource e.lease source s.db) then
      match thread with
      | none => some (s.setExec id e (.startFailed workspaceId))
      | some thread => some (s.setExec id e (.started workspaceId thread))
    -- the error leaves the recorded workspace without a cleanup job
    else some (s.setExec id e (.failing .notFound))
  | _ => none

def stepQueueCleanup (s : State) (id : Uuid) (e : Exec) : Option State :=
  match e.phase with
  | .startFailed workspaceId =>
    some ((s.setDb (queueCleanup workspaceId "thread_start_failed".toList s.now s.db)).setExec id e (.failing .adapter))
  | _ => none

def stepMarkRunning (s : State) (id : Uuid) (e : Exec) : Option State :=
  match e.phase with
  | .started workspaceId thread =>
    match markRunning e.self e.lease thread s.now s.db with
    | some db => some ((s.setDb db).setExec id e .finished)
    | none => some (s.setExec id e (.unsure workspaceId thread))
  | _ => none

def stepUncertainty (s : State) (id : Uuid) (e : Exec) : Option State :=
  match e.phase with
  | .unsure workspaceId thread =>
    match recordDeliveryUncertainty e.lease workspaceId thread s.db with
    | .ok db => some ((s.setDb db).setExec id e (.failing .leaseLost))
    | .error error => some (s.setExec id e (.failing error))
  | _ => none

def stepFailLease (s : State) (id : Uuid) (e : Exec) : Option State :=
  match e.phase with
  | .failing error => some ((s.setDb (failLease e.self e.lease (failureCode error) s.db)).setExec id e .finished)
  | _ => none

/-! ## The steps of the other calls -/

def stepCall (s : State) (call : Uuid) (f : Call → Option State) : Option State := (s.calls.get call).bind f

/-- The transaction that ends a call; a failed one changes nothing. -/
def commit (s : State) (call : Uuid) : Except RunOrchestratorError Db → State
  | .ok db => (s.setDb db).endCall call
  | .error _ => s.endCall call

def stepInsert (s : State) (call id : Uuid) : Call → Option State
  | .inserting run =>
    if (s.db.runs.get id).isSome then none else some (commit s call ((insertRun s.db run id s.now).map Prod.fst))
  | _ => none

def stepCancel (s : State) (request : CancelRunRequest) (call : Uuid) : State :=
  match cancelRun request s.db with
  | .error _ => s
  | .ok (db, true) => (s.setDb db).addCall call (.interrupting request.runId)
  | .ok (db, false) => s.setDb db

def stepInterruptReturned (s : State) (call : Uuid) (delivered : Bool) : Call → Option State
  | .interrupting runId => some (if delivered then s.endCall call else commit s call (interruptFailed runId s.db))
  | _ => none

def stepRetire (s : State) (request : RetireWorkspaceRequest) (interrupted : Bool) (call : Uuid) : State :=
  match retirable request none s.db with
  | .error _ => s
  | .ok (row, workspaceId, workspace) =>
    if workspace.state = .retired then s
    else if row.codexThreadId.isSome && row.activeTurnId.isSome && !interrupted then s
    else s.addCall call (.retiring request workspaceId)

def stepRetireCommit (s : State) (call : Uuid) : Call → Option State
  | .retiring request workspaceId => some (commit s call (retireWorkspace request workspaceId s.now s.db))
  | _ => none

def stepRecover (s : State) (self : RunOrchestrator) (request : RecoverRunRequest) (call : Uuid) : State :=
  match recoverable self request s.db with
  | .ok (some workspaceId) => s.addCall call (.recovering self request.runId workspaceId)
  | _ => s

def stepRecoverCommit (s : State) (call token : Uuid) : Call → Option State
  | .recovering self runId workspaceId => some (commit s call (recoverRun self runId workspaceId token s.now s.db))
  | _ => none

def stepClaimCleanup (s : State) (self : RunOrchestrator) (workspaceId token call : Uuid) : Option State :=
  (claimCleanup self workspaceId token s.now s.db).map
    (fun db => (s.setDb db).addCall call (.cleaning workspaceId token))

def stepRemoveWorkspace (s : State) (call : Uuid) (outcome : Removal) : Call → Option State
  | .cleaning workspaceId token =>
    some ((s.removal workspaceId outcome).addCall call
      (if outcome = .removed then .cleaned workspaceId token else .uncleaned workspaceId token))
  | _ => none

def stepFinishCleanup (s : State) (call : Uuid) : Call → Option State
  | .cleaned workspaceId token => some (commit s call (.ok (cleanupDone workspaceId token s.db)))
  | .uncleaned workspaceId token => some (commit s call (.ok (cleanupFailed workspaceId token s.now s.db)))
  | _ => none

/-! ## The turn handlers -/

def messageRun (db : Db) (organizationId userId id : Uuid) : Bool :=
  (db.runs.get id).any (fun row => row.organizationId == organizationId && row.requestedBy == some userId &&
    (row.status == .running || row.status == .recoveryPending) && row.codexThreadId.isSome &&
    (row.workspaceId.bind db.workspaces.get).isSome)

def threadContext (request : RunRequest) (db : Db) : Option Run :=
  match requestedRun request db with
  | .error _ => none
  | .ok row =>
    if isRunning row && row.codexThreadId.isSome && (row.workspaceId.bind db.workspaces.get).any (fun workspace =>
        workspace.organizationId == request.organizationId && workspace.state != .retired) then some row else none

/-- The runtime named the turn; `send_message` refuses a blank name. -/
def stepTurnReturned (s : State) (call : Uuid) (turnId : Str) : Call → Option State
  | .starting organizationId runId review =>
    if review || !(Str.trim turnId).isEmpty then some (s.addCall call (.turnNamed organizationId runId turnId))
    else some (s.endCall call)
  | _ => none

def stepSetActiveTurn (s : State) (call : Uuid) : Call → Option State
  | .turnNamed organizationId runId turnId => some (commit s call (.ok (setActiveTurn organizationId runId turnId s.db)))
  | _ => none

def stepClearActiveTurn (s : State) (call : Uuid) : Call → Option State
  | .turnStopped organizationId runId turnId =>
    some (commit s call (.ok (clearActiveTurn organizationId runId turnId s.db)))
  | _ => none

def opening (s : State) (call : Uuid) (t : State) : Option State := if (s.calls.get call).isSome then none else some t

def step (s : State) : Action → Option State
  | .tick seconds => some { s with now := s.now + seconds }
  | .enqueueRun self request call =>
    match enqueueRun self s.db request with
    | .error _ => some s
    | .ok run => opening s call (s.addCall call (.inserting run))
  | .insertRun call id => stepCall s call (stepInsert s call id)
  | .claimNext self id token => (claimNext self s.db s.now id token).map (fun (db, lease) =>
      { s.setDb db with execs := s.execs.put id ⟨self, lease, .claimed⟩ })
  | .heartbeat id => (s.execs.get id).bind (stepHeartbeat s id)
  | .provision id outcome => (s.execs.get id).bind (stepProvision s id · outcome)
  | .checkOwned id => (s.execs.get id).bind (stepCheckOwned s id)
  | .recordWorkspace id => (s.execs.get id).bind (stepRecordWorkspace s id)
  | .discard id outcome => (s.execs.get id).bind (stepDiscard s id · outcome)
  | .startThread id thread => (s.execs.get id).bind (stepStartThread s id · thread)
  | .queueCleanup id => (s.execs.get id).bind (stepQueueCleanup s id)
  | .markRunning id => (s.execs.get id).bind (stepMarkRunning s id)
  | .recordDeliveryUncertainty id => (s.execs.get id).bind (stepUncertainty s id)
  | .failLease id => (s.execs.get id).bind (stepFailLease s id)
  | .heartbeatOwnedRuns self => some (s.setDb (heartbeatOwnedRuns self s.now s.db))
  | .reapExpired => some (s.setDb (reapExpired s.now s.db))
  | .cancelRun request call => opening s call (stepCancel s request call)
  | .interruptReturned call delivered => stepCall s call (stepInterruptReturned s call delivered)
  | .retireWorkspace request interrupted call => opening s call (stepRetire s request interrupted call)
  | .retireCommit call => stepCall s call (stepRetireCommit s call)
  | .recoverRun self request call => opening s call (stepRecover s self request call)
  | .recoverCommit call token => stepCall s call (stepRecoverCommit s call token)
  | .claimCleanup self workspaceId token call =>
    (stepClaimCleanup s self workspaceId token call).bind (opening s call)
  | .removeWorkspace call outcome => stepCall s call (stepRemoveWorkspace s call outcome)
  | .finishCleanup call => stepCall s call (stepFinishCleanup s call)
  | .persistFrame thread id event =>
    if latestRunOf s.db thread id then some (s.setDb (persistEvent id event s.db)) else none
  | .sendMessage organizationId userId id call =>
    if messageRun s.db organizationId userId id then opening s call (s.addCall call (.starting organizationId id false))
    else some s
  | .startReview request call =>
    if (threadContext request s.db).any (·.activeTurnId.isNone) then
      opening s call (s.addCall call (.starting request.organizationId request.runId true))
    else some s
  | .turnReturned call turnId => stepCall s call (stepTurnReturned s call turnId)
  | .setActiveTurn call => stepCall s call (stepSetActiveTurn s call)
  | .interruptRun request turnId call =>
    if (threadContext request s.db).any (·.activeTurnId == some turnId) then
      opening s call (s.addCall call (.turnStopped request.organizationId request.runId turnId))
    else some s
  | .clearActiveTurn call => stepCall s call (stepClearActiveTurn s call)

structure Fresh (s : State) : Prop where
  runs : s.db.runs = []
  workspaces : s.db.workspaces = []
  jobs : s.db.jobs = []
  disk : s.disk = []
  execs : s.execs = []
  calls : s.calls = []

/-! ## A small deployment -/

def sampleSelf : RunOrchestrator where
  runtimeKey := "local".toList
  workerId := "worker".toList
  leaseTtl := 30
  validateSource _ := true
  validateRef _ := true
  leaseTtl_ge := by decide
  workerId_ne := by decide
  workerId_le := by decide

def sampleState : State where
  db := ⟨[(0, ⟨0, "ssh://git".toList, "main".toList⟩)], [(0, ⟨0, 0, .pending⟩)], [(0, ⟨0, 1, "local".toList, true⟩)], [], [], []⟩
  disk := []
  now := 0
  nextWorkspace := 0
  execs := []
  calls := []

theorem sampleState_fresh : Fresh sampleState := ⟨rfl, rfl, rfl, rfl, rfl, rfl⟩

def sampleRequest : RunRequest := ⟨0, 1, false, 0⟩

def ownedRun : List Action :=
  [.enqueueRun sampleSelf ⟨0, 1, 0, "key-0001".toList, none, "clone".toList, none, none, none, none, none⟩ 0, .insertRun 0 0,
    .claimNext sampleSelf 0 7, .heartbeat 0, .provision 0 .ready, .heartbeat 0, .checkOwned 0]

def recordedRun : List Action := ownedRun ++ [.recordWorkspace 0]

end Owc.Orchestrator
