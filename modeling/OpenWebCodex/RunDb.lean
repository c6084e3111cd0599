import OpenWebCodex.Table
import OpenWebCodex.Text
/-!
# RunDb — the run orchestrator's tables and transactions

The rows that `apps/web/crates/run-orchestrator` and `event_projection.rs` read and write, and each of their database
transactions as a function of the database.  A `TIMESTAMPTZ` is a number of seconds; a UUID is a number.  What runs
between two transactions of one call is in `RunStep`.
-/
namespace Owc.Orchestrator

abbrev Uuid := Nat

inductive RunStatus
  | pending
  | provisioning
  | running
  | cancelling
  | recoveryPending
  | completed
  | cancelled
  | failed
deriving DecidableEq

inductive TaskStatus
  | pending
  | running
  | completed
  | cancelled
  | archived
  | failed
deriving DecidableEq

inductive WorkspaceState
  | provisioning
  | ready
  | busy
  | cleanupPending
  | failed
  | retired
deriving DecidableEq

inductive JobState
  | pending
  | running
  | completed
  | failed
deriving DecidableEq

inductive WorkspaceKind
  | main
  | worktree
  | clone
deriving DecidableEq

def RunStatus.text : RunStatus → Str
  | .pending => "pending".toList
  | .provisioning => "provisioning".toList
  | .running => "running".toList
  | .cancelling => "cancelling".toList
  | .recoveryPending => "recovery_pending".toList
  | .completed => "completed".toList
  | .cancelled => "cancelled".toList
  | .failed => "failed".toList

def RunStatus.isActive : RunStatus → Bool
  | .pending | .provisioning | .running | .cancelling | .recoveryPending => true
  | .completed | .cancelled | .failed => false

/-- `status IN ('provisioning', 'running', 'cancelling')`: the statuses a lease is kept alive in. -/
def RunStatus.isLeased : RunStatus → Bool
  | .provisioning | .running | .cancelling => true
  | .pending | .recoveryPending | .completed | .cancelled | .failed => false

def WorkspaceKind.parse (s : Str) : Option WorkspaceKind :=
  if s = "main".toList then some .main
  else if s = "worktree".toList then some .worktree
  else if s = "clone".toList then some .clone
  else none

structure Run where
  organizationId : Uuid
  taskId : Uuid
  requestedBy : Option Uuid
  requestedProfileId : Uuid
  sourceRef : Str
  idempotencyKey : Str
  workspaceKind : WorkspaceKind
  workspaceName : Option Str
  workspaceParentRunId : Option Uuid
  workspaceGroupRunId : Option Uuid
  forkThreadId : Option Str
  forkSourceRunId : Option Uuid
  createdAt : Nat
  status : RunStatus
  codexThreadId : Option Str
  activeTurnId : Option Str
  workspaceId : Option Uuid
  leaseOwner : Option Str
  leaseToken : Option Uuid
  leaseExpiresAt : Option Nat
  failureCode : Option Str
  attempt : Nat

structure Workspace where
  organizationId : Uuid
  runId : Uuid
  state : WorkspaceState

structure Job where
  state : JobState
  attempt : Nat
  runAfter : Nat
  leaseOwner : Option Str
  leaseToken : Option Uuid
  leaseExpiresAt : Option Nat
  lastErrorCode : Option Str

structure Task where
  organizationId : Uuid
  projectId : Uuid
  status : TaskStatus

structure Project where
  organizationId : Uuid
  gitUrl : Str
  defaultBranch : Str

structure Profile where
  organizationId : Uuid
  ownerUserId : Uuid
  runtimeKey : Str
  active : Bool

/-- The tables.  `UNIQUE (workspace_id, kind)` makes the workspace the key of a cleanup job. -/
structure Db where
  projects : Table Uuid Project
  tasks : Table Uuid Task
  profiles : Table Uuid Profile
  runs : Table Uuid Run
  workspaces : Table Uuid Workspace
  jobs : Table Uuid Job

inductive RunOrchestratorError
  | invalid (message : Str)
  | notFound
  | conflict (message : Str)
  | leaseLost
  | database
  | git
  | adapter

def failureCode : RunOrchestratorError → Str
  | .invalid _ => "invalid_run".toList
  | .notFound => "resource_not_found".toList
  | .conflict _ => "run_conflict".toList
  | .leaseLost => "lease_lost".toList
  | .database => "database_error".toList
  | .git => "git_workspace_error".toList
  | .adapter => "codex_unavailable".toList

/-- A worker's `RunOrchestrator`, as `RunOrchestrator::new` accepts it. -/
structure RunOrchestrator where
  runtimeKey : Str
  workerId : Str
  leaseTtl : Nat
  validateSource : Str → Bool
  validateRef : Str → Bool
  leaseTtl_ge : 5 ≤ leaseTtl
  workerId_ne : Str.trim workerId ≠ []
  workerId_le : Str.utf8Len workerId ≤ 128

/-- `CancelRunRequest`, `RecoverRunRequest` and `RetireWorkspaceRequest` have the same four fields. -/
structure RunRequest where
  organizationId : Uuid
  actorId : Uuid
  allowOrganizationAdmin : Bool
  runId : Uuid

abbrev CancelRunRequest := RunRequest
abbrev RecoverRunRequest := RunRequest
abbrev RetireWorkspaceRequest := RunRequest

/-- Who asked for a run, and an administrator where the request allows it, may act on it. -/
def RunRequest.mayAct (request : RunRequest) (row : Run) : Bool :=
  row.requestedBy == some request.actorId || request.allowOrganizationAdmin

structure RunLease where
  runId : Uuid
  organizationId : Uuid
  gitUrl : Str
  sourceRef : Str
  workspaceKind : WorkspaceKind
  forkThreadId : Option Str
  forkSourceRunId : Option Uuid
  token : Uuid

namespace Db

def setTask (db : Db) (id : Uuid) (status : TaskStatus) : Db :=
  { db with tasks := db.tasks.updateWhere id (fun _ => true) (fun task => { task with status := status }) }

def setWorkspace (db : Db) (id : Uuid) (guard : Workspace → Bool) (state : WorkspaceState) : Db :=
  { db with workspaces := db.workspaces.updateWhere id guard (fun workspace => { workspace with state := state }) }

def setRunWorkspace (db : Db) (row : Run) (guard : Workspace → Bool) (state : WorkspaceState) : Db :=
  match row.workspaceId with
  | none => db
  | some id => db.setWorkspace id guard state

def updateRun (db : Db) (id : Uuid) (guard : Run → Bool) (f : Run → Run) : Db :=
  { db with runs := db.runs.updateWhere id guard f }

/-- `INSERT INTO runner_jobs … ON CONFLICT (workspace_id, kind) DO UPDATE`. -/
def upsertJob (db : Db) (workspaceId : Uuid) (now : Nat) (code : Option Str) (again : Job → Job) : Db :=
  { db with jobs := db.jobs.put workspaceId (match db.jobs.get workspaceId with
      | none => ⟨.pending, 0, now, none, none, none, code⟩
      | some job => again job) }

/-- Whether `idx_runs_one_active_per_task` refuses to make run `id` active. -/
def activeElsewhere (db : Db) (id taskId : Uuid) : Bool :=
  db.runs.anyRow (fun j row => j != id && row.taskId == taskId && row.status.isActive)

end Db

/-! ## `enqueue_run` -/

structure EnqueueRunRequest where
  organizationId : Uuid
  actorId : Uuid
  taskId : Uuid
  idempotencyKey : Str
  gitRef : Option Str
  workspaceKind : Str
  workspaceName : Option Str
  workspaceParentRunId : Option Uuid
  workspaceGroupRunId : Option Uuid
  forkThreadId : Option Str
  forkSourceRunId : Option Uuid

structure NewRun where
  organizationId : Uuid
  taskId : Uuid
  requestedBy : Uuid
  requestedProfileId : Uuid
  sourceRef : Str
  idempotencyKey : Str
  workspaceKind : WorkspaceKind
  workspaceName : Option Str
  workspaceParentRunId : Option Uuid
  workspaceGroupRunId : Option Uuid
  forkThreadId : Option Str
  forkSourceRunId : Option Uuid

def NewRun.row (run : NewRun) (now : Nat) : Run where
  organizationId := run.organizationId
  taskId := run.taskId
  requestedBy := some run.requestedBy
  requestedProfileId := run.requestedProfileId
  sourceRef := run.sourceRef
  idempotencyKey := run.idempotencyKey
  workspaceKind := run.workspaceKind
  workspaceName := run.workspaceName
  workspaceParentRunId := run.workspaceParentRunId
  workspaceGroupRunId := run.workspaceGroupRunId
  forkThreadId := run.forkThreadId
  forkSourceRunId := run.forkSourceRunId
  createdAt := now
  status := .pending
  codexThreadId := none
  activeTurnId := none
  workspaceId := none
  leaseOwner := none
  leaseToken := none
  leaseExpiresAt := none
  failureCode := none
  attempt := 0

def require (check : Bool) (error : RunOrchestratorError) : Except RunOrchestratorError Unit :=
  if check then .ok () else .error error

def validateIdempotencyKey (key : Str) : Except RunOrchestratorError Unit :=
  require (decide (8 ≤ Str.utf8Len key) && decide (Str.utf8Len key ≤ 128) &&
      key.all (fun c => c.isAlphanum || "-._:".toList.contains c))
    (.invalid "idempotency key must contain 8 to 128 safe ASCII characters".toList)

/-- The task with its project and the caller's active profile of this runtime. -/
def enqueueTarget (self : RunOrchestrator) (db : Db) (request : EnqueueRunRequest) :
    Option (Uuid × Project × Uuid) := do
  let task ← db.tasks.get request.taskId
  let project ← db.projects.get task.projectId
  let profile ← db.profiles.find? (fun e => e.2.organizationId == task.organizationId &&
    e.2.ownerUserId == request.actorId && e.2.runtimeKey == self.runtimeKey && e.2.active)
  if task.organizationId == request.organizationId && project.organizationId == task.organizationId
  then some (task.projectId, project, profile.1) else none

/-- A run of the caller's in the same project whose workspace is not retired. -/
def derivable (db : Db) (request : EnqueueRunRequest) (projectId id : Uuid) (also : Run → Bool) : Bool :=
  (db.runs.get id).any (fun run =>
    run.organizationId == request.organizationId && run.requestedBy == some request.actorId && also run &&
    (db.tasks.get run.taskId).any (fun task => task.projectId == projectId) &&
    (run.workspaceId.bind db.workspaces.get).any (fun workspace => workspace.state != .retired))

def checkFork (db : Db) (request : EnqueueRunRequest) : Except RunOrchestratorError Unit :=
  match request.forkThreadId with
  | none => require request.forkSourceRunId.isNone (.invalid "fork source Run requires a source Thread id".toList)
  | some thread => do
    require (!(Str.trim thread).isEmpty && decide (Str.utf8Len thread ≤ 256))
      (.invalid "fork source Thread id is invalid".toList)
    match request.forkSourceRunId with
    | none => .error (.invalid "forked Runs require their source parent Run".toList)
    | some source => require ((db.runs.get source).any (fun run => run.organizationId == request.organizationId &&
        run.requestedBy == some request.actorId && run.codexThreadId == some thread)) .notFound

/-- `enqueue_run` up to its `INSERT`: every check, in the source's order. -/
def enqueueRun (self : RunOrchestrator) (db : Db) (request : EnqueueRunRequest) :
    Except RunOrchestratorError NewRun := do
  validateIdempotencyKey request.idempotencyKey
  match WorkspaceKind.parse request.workspaceKind with
  | none => .error (.invalid "workspace kind is invalid".toList)
  | some kind =>
    let name := (request.workspaceName.map Str.trim).filter (fun value => !value.isEmpty)
    require (name.all (fun value => decide (Str.utf8Len value ≤ 128))) (.invalid "workspace name is too long".toList)
    match enqueueTarget self db request with
    | none => .error .notFound
    | some (projectId, project, profileId) =>
      require (self.validateSource project.gitUrl) .git
      let sourceRef := request.gitRef.getD project.defaultBranch
      require (self.validateRef sourceRef) .git
      require (!(kind == .main && request.workspaceParentRunId.isSome))
        (.invalid "main workspaces cannot have a parent Run".toList)
      require (!(kind == .main && request.workspaceGroupRunId.isSome))
        (.invalid "main workspaces cannot have a derived workspace group".toList)
      require (!(kind == .worktree && request.workspaceParentRunId.isNone))
        (.invalid "worktree workspaces require a parent Run".toList)
      require (request.workspaceParentRunId.all (fun id => derivable db request projectId id (fun _ => true))) .notFound
      require (request.workspaceGroupRunId.all (fun id => derivable db request projectId id (fun run =>
        run.workspaceKind == kind && run.workspaceKind != .main && run.workspaceGroupRunId.isNone))) .notFound
      checkFork db request
      .ok ⟨request.organizationId, request.taskId, request.actorId, profileId, sourceRef, request.idempotencyKey, kind,
        name, request.workspaceParentRunId, request.workspaceGroupRunId, request.forkThreadId, request.forkSourceRunId⟩

/-- The `INSERT` of `enqueue_run` under a new id: the existing run where the idempotency key was used for this task. -/
def insertRun (db : Db) (run : NewRun) (id : Uuid) (now : Nat) : Except RunOrchestratorError (Db × Uuid) :=
  match db.runs.find? (fun e => e.2.organizationId == run.organizationId && e.2.requestedBy == some run.requestedBy &&
      e.2.idempotencyKey == run.idempotencyKey) with
  | some existing =>
    if existing.2.taskId = run.taskId then .ok (db, existing.1)
    else .error (.conflict "idempotency key was already used for another Task".toList)
  | none =>
    if db.activeElsewhere id run.taskId then .error (.conflict "Task already has an active Run".toList)
    else .ok ({ db with runs := db.runs.put id (run.row now) }, id)

/-! ## Leases: `claim_next`, `heartbeat`, `heartbeat_owned_runs`, `fail_lease` -/

/-- `lease_owner = $… AND lease_token = $…`. -/
def Run.heldBy (row : Run) (owner : Str) (token : Uuid) : Bool := row.leaseOwner == some owner && row.leaseToken == some token

def Run.setLease (row : Run) (owner : Str) (token : Uuid) (expiresAt : Nat) : Run :=
  { row with leaseOwner := some owner, leaseToken := some token, leaseExpiresAt := some expiresAt }

def Run.clearLease (row : Run) : Run := { row with leaseOwner := none, leaseToken := none, leaseExpiresAt := none }

def Run.claim (row : Run) (owner : Str) (token : Uuid) (expiresAt : Nat) : Run :=
  { row.setLease owner token expiresAt with status := .provisioning, attempt := row.attempt + 1, failureCode := none }

def Run.renew (row : Run) (expiresAt : Nat) : Run := { row with leaseExpiresAt := some expiresAt }

def Run.fail (row : Run) (code : Str) : Run := { row.clearLease with status := .failed, failureCode := some code }

/-- The task and project of a row that `claim_next` may take. -/
def claimable (self : RunOrchestrator) (db : Db) (now : Nat) (row : Run) : Option Project := do
  let task ← db.tasks.get row.taskId
  let project ← db.projects.get task.projectId
  let profile ← db.profiles.get row.requestedProfileId
  if row.status == .pending && row.leaseExpiresAt.all (· < now) && task.organizationId == row.organizationId &&
      project.organizationId == row.organizationId && profile.runtimeKey == self.runtimeKey && profile.active
  then some project else none

/-- `claim_next` taking run `id`: `SKIP LOCKED` lets a worker pass over older candidates another one has locked. -/
def claimNext (self : RunOrchestrator) (db : Db) (now : Nat) (id token : Uuid) : Option (Db × RunLease) :=
  match db.runs.get id with
  | none => none
  | some row =>
    match claimable self db now row with
    | none => none
    | some project =>
      some (db.updateRun id (fun _ => true) (·.claim self.workerId token (now + self.leaseTtl)),
        ⟨id, row.organizationId, project.gitUrl, row.sourceRef, row.workspaceKind, row.forkThreadId,
          row.forkSourceRunId, token⟩)

def heartbeatGuard (self : RunOrchestrator) (lease : RunLease) (row : Run) : Bool :=
  row.heldBy self.workerId lease.token && row.status.isLeased

def heartbeat (self : RunOrchestrator) (lease : RunLease) (now : Nat) (db : Db) : Except RunOrchestratorError Db :=
  if db.runs.holds lease.runId (heartbeatGuard self lease) then
    .ok (db.updateRun lease.runId (heartbeatGuard self lease) (·.renew (now + self.leaseTtl)))
  else .error .leaseLost

def heartbeatOwnedRuns (self : RunOrchestrator) (now : Nat) (db : Db) : Db :=
  { db with
    runs := db.runs.updateAll
      (fun row => row.leaseOwner == some self.workerId && row.leaseToken.isSome && row.status.isLeased)
      (·.renew (now + self.leaseTtl)) }

def failLease (self : RunOrchestrator) (lease : RunLease) (code : Str) (db : Db) : Db :=
  db.updateRun lease.runId
    (fun row => row.heldBy self.workerId lease.token && (row.status == .provisioning || row.status == .cancelling))
    (·.fail code)

/-! ## The transactions of `execute_lease` -/

/-- `lease_owner = $… AND lease_token = $… AND status = 'provisioning'`. -/
def provisionedBy (self : RunOrchestrator) (lease : RunLease) (row : Run) : Bool :=
  row.heldBy self.workerId lease.token && row.status == .provisioning

/-- The `SELECT EXISTS` of `record_workspace`, which locks nothing. -/
def ownsRun (self : RunOrchestrator) (lease : RunLease) (db : Db) : Bool :=
  db.runs.holds lease.runId (provisionedBy self lease)

def Run.record (row : Run) (workspaceId : Uuid) : Run := { row with workspaceId := some workspaceId }

/-- The writes of `record_workspace`.  The `INSERT` fails on a workspace id or, by `idx_workspaces_one_per_run`, a run
that is already there; the `UPDATE` names the run by its id alone. -/
def recordWorkspace (lease : RunLease) (workspaceId : Uuid) (db : Db) : Except RunOrchestratorError Db :=
  if (db.workspaces.get workspaceId).isSome || db.workspaces.anyRow (fun _ row => row.runId == lease.runId) then
    .error .database
  else .ok { db with
    workspaces := db.workspaces.put workspaceId ⟨lease.organizationId, lease.runId, .ready⟩
    runs := db.runs.updateWhere lease.runId (fun _ => true) (·.record workspaceId) }

def forkSource (lease : RunLease) (thread : Str) (db : Db) : Bool :=
  match lease.forkSourceRunId.bind db.runs.get with
  | none => false
  | some parent => parent.organizationId == lease.organizationId && parent.codexThreadId == some thread &&
      (parent.workspaceId.bind db.workspaces.get).any (fun workspace => workspace.state != .retired)

def queueCleanup (workspaceId : Uuid) (code : Str) (now : Nat) (db : Db) : Db :=
  (db.setWorkspace workspaceId (fun _ => true) .cleanupPending).upsertJob workspaceId now (some code)
    (fun job => { job with state := .pending, runAfter := now, lastErrorCode := some code })

def Run.start (row : Run) (thread : Str) (expiresAt : Nat) : Run :=
  { row with status := .running, codexThreadId := some thread, leaseExpiresAt := some expiresAt }

def markRunning (self : RunOrchestrator) (lease : RunLease) (thread : Str) (now : Nat) (db : Db) : Option Db :=
  match db.runs.get lease.runId with
  | none => none
  | some row =>
    if provisionedBy self lease row then
      let running := db.updateRun lease.runId (provisionedBy self lease) (·.start thread (now + self.leaseTtl))
      some ((running.setRunWorkspace row (fun _ => true) .busy).setTask row.taskId .running)
    else none

def Run.unsure (row : Run) (thread : Str) : Run :=
  { row.clearLease with
    codexThreadId := row.codexThreadId <|> some thread
    status := if row.status = .cancelled then .cancelled else .recoveryPending
    failureCode := if row.status = .cancelled then row.failureCode else some "thread_delivery_unknown".toList }

def recordDeliveryUncertainty (lease : RunLease) (workspaceId : Uuid) (thread : Str) (db : Db) :
    Except RunOrchestratorError Db :=
  if db.runs.holds lease.runId (fun row => row.workspaceId == some workspaceId && row.status != .cancelled &&
      !row.status.isActive && db.activeElsewhere lease.runId row.taskId) then .error .database
  else .ok ((db.updateRun lease.runId (fun row => row.workspaceId == some workspaceId) (·.unsure thread)).setWorkspace
    workspaceId (fun _ => true) .ready)

/-! ## `cancel_run`, `retire_workspace`, `recover_run`, `reap_expired` -/

def RunStatus.isTerminal : RunStatus → Bool
  | .completed | .cancelled | .failed => true
  | .pending | .provisioning | .running | .cancelling | .recoveryPending => false

def Run.cancel (row : Run) : Run :=
  { row.clearLease with status := .cancelled, activeTurnId := none, failureCode := none }

def Run.reopen (row : Run) : Run := { row with status := .recoveryPending, failureCode := some "interrupt_failed".toList }

def Run.recover (row : Run) (owner : Str) (token : Uuid) (expiresAt : Nat) : Run :=
  { row.setLease owner token expiresAt with status := .running, activeTurnId := none, failureCode := none }

def Run.reap (row : Run) : Run :=
  { row.clearLease with status := .recoveryPending, failureCode := some "lease_expired".toList }

def requestedRun (request : RunRequest) (db : Db) : Except RunOrchestratorError Run :=
  match db.runs.get request.runId with
  | none => .error .notFound
  | some row =>
    if row.organizationId = request.organizationId ∧ request.mayAct row = true then .ok row else .error .notFound

/-- The transaction of `cancel_run`, and whether it goes on to interrupt the turn it found. -/
def cancelRun (request : CancelRunRequest) (db : Db) : Except RunOrchestratorError (Db × Bool) :=
  match requestedRun request db with
  | .error error => .error error
  | .ok row =>
    if row.status.isTerminal then .error (.conflict "Run is already in a terminal state".toList)
    else
      let cancelled := db.updateRun request.runId (fun _ => true) (·.cancel)
      let released := cancelled.setRunWorkspace row (fun workspace => workspace.state != .retired) .ready
      .ok (released.setTask row.taskId .cancelled,
        row.codexThreadId.isSome && row.activeTurnId.isSome && (row.workspaceId.bind db.workspaces.get).isSome)

def interruptFailed (id : Uuid) (db : Db) : Except RunOrchestratorError Db :=
  if db.runs.holds id (fun row => row.status == .cancelled && db.activeElsewhere id row.taskId) then .error .database
  else .ok (db.updateRun id (fun row => row.status == .cancelled) (·.reopen))

/-- The run and workspace of a `retire_workspace` request: any workspace when it starts, the one it read then under its
locks. -/
def retirable (request : RetireWorkspaceRequest) (expected : Option Uuid) (db : Db) :
    Except RunOrchestratorError (Run × Uuid × Workspace) :=
  match requestedRun request db with
  | .error error => .error error
  | .ok row =>
    match row.workspaceId with
    | none => .error .notFound
    | some workspaceId =>
      match db.workspaces.get workspaceId with
      | none => .error .notFound
      | some workspace =>
        if expected.any (· ≠ workspaceId) then .error .notFound
        else if row.workspaceKind = .main then .error (.conflict "the main Run workspace cannot be removed".toList)
        else .ok (row, workspaceId, workspace)

def retireWorkspace (request : RetireWorkspaceRequest) (expected : Uuid) (now : Nat) (db : Db) :
    Except RunOrchestratorError Db :=
  match retirable request (some expected) db with
  | .error error => .error error
  | .ok (row, workspaceId, workspace) =>
    if workspace.state = .retired then .ok db
    else
      let cancelled := (db.updateRun request.runId (fun _ => true) (·.cancel)).setTask row.taskId .archived
      .ok ((cancelled.setWorkspace workspaceId (fun _ => true) .cleanupPending).upsertJob workspaceId now none
        (fun job => { job with
          state := .pending, runAfter := now, leaseOwner := none, leaseToken := none, leaseExpiresAt := none }))

/-- `recover_run` up to its `UPDATE`: none where the run is running already. -/
def recoverable (self : RunOrchestrator) (request : RecoverRunRequest) (db : Db) :
    Except RunOrchestratorError (Option Uuid) :=
  match requestedRun request db with
  | .error error => .error error
  | .ok row =>
    match row.workspaceId with
    | none => .error .notFound
    | some workspaceId =>
      match db.workspaces.get workspaceId, db.profiles.get row.requestedProfileId with
      | some workspace, some profile =>
        if workspace.organizationId ≠ request.organizationId ∨ profile.runtimeKey ≠ self.runtimeKey ∨
            workspace.state = .retired ∨ row.codexThreadId = none then .error .notFound
        else if row.status = .running then .ok none
        else if row.status = .recoveryPending then .ok (some workspaceId)
        else .error (.conflict ("Run cannot recover from status '".toList ++ row.status.text ++ "'".toList))
      | _, _ => .error .notFound

def recoverRun (self : RunOrchestrator) (id workspaceId token : Uuid) (now : Nat) (db : Db) :
    Except RunOrchestratorError Db :=
  match db.runs.get id with
  | none => .error .database
  | some row =>
    if row.status = .recoveryPending then
      let running := db.updateRun id (fun row => row.status == .recoveryPending)
        (·.recover self.workerId token (now + self.leaseTtl))
      .ok ((running.setWorkspace workspaceId (fun workspace => workspace.state != .retired) .busy).setTask
        row.taskId .running)
    else .error .database

def expired (now : Nat) (row : Run) : Bool := row.status.isLeased && row.leaseExpiresAt.any (· < now)

/-- One row of the loop of `reap_expired`: a workspace without a thread is queued for cleanup. -/
def reapWorkspace (now : Nat) (db : Db) (reaped : Uuid × Run) : Db :=
  match reaped.2.workspaceId, reaped.2.codexThreadId with
  | some workspaceId, none =>
    (db.setWorkspace workspaceId (fun _ => true) .cleanupPending).upsertJob workspaceId now none
      (fun job => { job with state := .pending, runAfter := now })
  | _, _ => db

def reapExpired (now : Nat) (db : Db) : Db :=
  (db.runs.select (expired now)).foldl (reapWorkspace now)
    { db with runs := db.runs.updateAll (expired now) (·.reap) }

/-! ## The transactions of `run_cleanup_once` -/

def cleanupDue (now : Nat) (job : Job) : Bool :=
  (job.state == .pending || (job.state == .running && job.leaseExpiresAt.any (· < now))) && decide (job.runAfter ≤ now)

def claimCleanup (self : RunOrchestrator) (workspaceId token : Uuid) (now : Nat) (db : Db) : Option Db :=
  match db.jobs.get workspaceId with
  | none => none
  | some job =>
    if cleanupDue now job then
      some { db with jobs := db.jobs.put workspaceId { job with
        state := .running, attempt := job.attempt + 1, leaseOwner := some self.workerId, leaseToken := some token
        leaseExpiresAt := some (now + 60) } }
    else none

def cleanupFailed (workspaceId token : Uuid) (now : Nat) (db : Db) : Db :=
  { db with jobs := db.jobs.updateWhere workspaceId (fun job => job.leaseToken == some token) (fun job => { job with
      state := if 5 ≤ job.attempt then .failed else .pending
      runAfter := now + 30, leaseOwner := none, leaseToken := none, leaseExpiresAt := none
      lastErrorCode := some "workspace_cleanup_failed".toList }) }

def cleanupDone (workspaceId token : Uuid) (db : Db) : Db :=
  let retired := db.setWorkspace workspaceId (fun _ => true) .retired
  { retired with jobs := retired.jobs.updateWhere workspaceId (fun job => job.leaseToken == some token) (fun job =>
      { job with state := .completed, leaseOwner := none, leaseToken := none, leaseExpiresAt := none }) }

/-! ## What `persist_frame` and the turn handlers write -/

/-- The projected events that change a run or its task. -/
inductive RuntimeEvent
  | turnStarted (turnId : Option Str)
  | turnCompleted (turnId : Option Str)
  | threadArchived
  | threadUnarchived
  | threadCompleted
  | threadFailed

/-- `SELECT id FROM runs WHERE codex_thread_id = $1 ORDER BY created_at DESC LIMIT 1` may return run `id`. -/
def latestRunOf (db : Db) (thread : Str) (id : Uuid) : Bool :=
  (db.runs.get id).any (fun row => row.codexThreadId == some thread &&
    !db.runs.anyRow (fun _ other => other.codexThreadId == some thread && decide (row.createdAt < other.createdAt)))

def isRunning (row : Run) : Bool := row.status == .running

def Run.finish (row : Run) (status : RunStatus) : Run := { row.clearLease with status := status, activeTurnId := none }

/-- The terminal update of a run that is running, with its workspace and its task. -/
def endRun (id : Uuid) (status : RunStatus) (taskStatus : TaskStatus) (db : Db) : Db :=
  match db.runs.get id with
  | none => db
  | some row =>
    if isRunning row then
      let ended := db.updateRun id isRunning (·.finish status)
      let released := ended.setRunWorkspace row (fun _ => true) .ready
      { released with
        tasks := released.tasks.updateWhere row.taskId
          (fun task => !(task.status == .completed || task.status == .cancelled || task.status == .archived))
          (fun task => { task with status := taskStatus }) }
    else db

def persistEvent (id : Uuid) (event : RuntimeEvent) (db : Db) : Db :=
  match event with
  | .turnStarted turnId => db.updateRun id isRunning (fun row => { row with activeTurnId := turnId })
  | .turnCompleted none => db
  | .turnCompleted (some turnId) =>
    db.updateRun id (fun row => row.activeTurnId == some turnId) (fun row => { row with activeTurnId := none })
  | .threadArchived =>
    match db.runs.get id with
    | none => db
    | some row => db.setTask row.taskId .archived
  | .threadUnarchived =>
    match db.runs.get id with
    | none => db
    | some row => { db with
      tasks := db.tasks.updateWhere row.taskId (fun task => task.status == .archived)
        (fun task => { task with status := .pending }) }
  | .threadCompleted => endRun id .completed .completed db
  | .threadFailed => endRun id .failed .pending db

/-- What `send_message` and `start_review` write once the runtime has named the turn. -/
def setActiveTurn (organizationId id : Uuid) (turnId : Str) (db : Db) : Db :=
  db.updateRun id (fun row => row.organizationId == organizationId && isRunning row)
    (fun row => { row with activeTurnId := some turnId })

/-- What `interrupt_run` writes once the runtime has interrupted the turn. -/
def clearActiveTurn (organizationId id : Uuid) (turnId : Str) (db : Db) : Db :=
  db.updateRun id (fun row => row.organizationId == organizationId && row.activeTurnId == some turnId)
    (fun row => { row with activeTurnId := none })

end Owc.Orchestrator
