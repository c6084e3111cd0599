import OpenWebCodex.Table
import OpenWebCodex.ThreadItems
/-!
# ThreadLifecycle — the browser's thread state and the lists of threads

`ThreadState` of `useThreadsReducer.ts` and `threadLifecycleSlice.ts`.  A record of the source is a table.  Fields that no
slice reads back are left out, and the actions that write only those are one action, `elsewhere`.
-/
namespace Owc.Threads

open Js (Text lit)

structure ThreadSummary where
  id : Text
  name : Text
  updatedAt : Int
  createdAt : Option Int
  isSubagent : Option Bool
  subagentNickname : Option (Option Text)
  subagentRole : Option (Option Text)
deriving DecidableEq

/-- The fields that `mergeThreadSummary` may set; a field that is absent is left. -/
structure SummaryPatch where
  createdAt : Option Int
  isSubagent : Option Bool
  subagentNickname : Option (Option Text)
  subagentRole : Option (Option Text)

structure ThreadActivityStatus where
  isProcessing : Bool
  hasUnread : Bool
  isReviewing : Bool
  processingStartedAt : Option Int
  lastDurationMs : Option Int
deriving DecidableEq

inductive ThreadListSortKey
  | createdAt
  | updatedAt
deriving DecidableEq

structure ThreadState where
  activeThreadIdByWorkspace : Table Text (Option Text)
  itemsByThread : Table Text (List Item)
  maxItemsPerThread : Option Nat
  threadsByWorkspace : Table Text (List ThreadSummary)
  hiddenThreadIdsByWorkspace : Table Text (List Text)
  threadParentById : Table Text Text
  threadStatusById : Table Text ThreadActivityStatus
  threadSortKeyByWorkspace : Table Text ThreadListSortKey
  lastAgentMessageByThread : Table Text (Text × Int)

/-- A number of the language: a finite one, or none of these. -/
abbrev Number := Option Rat

inductive ThreadAction
  | setActiveThreadId (workspaceId : Text) (threadId : Option Text)
  | setMaxItemsPerThread (maxItemsPerThread : Option Number)
  | ensureThread (workspaceId threadId : Text)
  | hideThread (workspaceId threadId : Text)
  | removeThread (workspaceId threadId : Text)
  | setThreadParent (threadId parentId : Text)
  | markProcessing (threadId : Text) (isProcessing : Bool) (timestamp : Int)
  | markReviewing (threadId : Text) (isReviewing : Bool)
  | markUnread (threadId : Text) (hasUnread : Bool)
  | addAssistantMessage (threadId text : Text) (now : Nat)
  | setThreadName (workspaceId threadId name : Text)
  | mergeThreadSummary (workspaceId threadId : Text) (patch : SummaryPatch)
  | setThreadTimestamp (workspaceId threadId : Text) (timestamp : Int)
  | appendAgentDelta (workspaceId threadId itemId delta : Text) (hasCustomName : Bool)
  | completeAgentMessage (workspaceId threadId itemId text : Text) (hasCustomName : Bool)
  | upsertItem (workspaceId threadId : Text) (item : Item) (hasCustomName : Bool)
  | setThreadItems (threadId : Text) (items : List Item)
  | appendReasoningSummary (threadId itemId delta : Text)
  | appendReasoningSummaryBoundary (threadId itemId : Text)
  | appendReasoningContent (threadId itemId delta : Text)
  | appendPlanDelta (threadId itemId delta : Text)
  | appendToolOutput (threadId itemId delta : Text)
  | setThreads (workspaceId : Text) (threads : List ThreadSummary) (sortKey : ThreadListSortKey) (preserveAnchors : Bool)
  | setLastAgentMessage (threadId text : Text) (timestamp : Int)
  /-- The loading and paging flags, cursors, approvals, input requests, token usage, rate limits, accounts, turn ids,
  diffs and plans. -/
  | elsewhere

def initialState : ThreadState where
  activeThreadIdByWorkspace := []
  itemsByThread := []
  maxItemsPerThread := some defaultMaxItemsPerThread
  threadsByWorkspace := []
  hiddenThreadIdsByWorkspace := []
  threadParentById := []
  threadStatusById := []
  threadSortKeyByWorkspace := []
  lastAgentMessageByThread := []

namespace ThreadState

variable (s : ThreadState)

def threads (workspaceId : Text) : List ThreadSummary := (s.threadsByWorkspace.get workspaceId).getD []

def setList (workspaceId : Text) (list : List ThreadSummary) : ThreadState :=
  { s with threadsByWorkspace := s.threadsByWorkspace.put workspaceId list }

/-- `state.hiddenThreadIdsByWorkspace[workspaceId] ?? \x7b\x7d`. -/
def hidden (workspaceId : Text) : List Text := (s.hiddenThreadIdsByWorkspace.get workspaceId).getD []

/-- `state.activeThreadIdByWorkspace[workspaceId] ?? null`. -/
def active (workspaceId : Text) : Option Text := (s.activeThreadIdByWorkspace.get workspaceId).join

def setActive (workspaceId : Text) (threadId : Option Text) : ThreadState :=
  { s with activeThreadIdByWorkspace := s.activeThreadIdByWorkspace.put workspaceId threadId }

def items (threadId : Text) : List Item := (s.itemsByThread.get threadId).getD []

def isProcessing (threadId : Text) : Bool := (s.threadStatusById.get threadId).any (·.isProcessing)

def prefersUpdatedSort (workspaceId : Text) : Bool :=
  (s.threadSortKeyByWorkspace.get workspaceId).getD .updatedAt == .updatedAt

end ThreadState

/-! ## Lifecycle -/

def emptyStatus : ThreadActivityStatus := ⟨false, false, false, none, none⟩

def ThreadState.status (s : ThreadState) (threadId : Text) : ThreadActivityStatus :=
  (s.threadStatusById.get threadId).getD emptyStatus

/-- The status is written unless the thread already has it. -/
def ThreadState.setStatus (s : ThreadState) (threadId : Text) (status : ThreadActivityStatus) : ThreadState :=
  if s.threadStatusById.get threadId = some status then s
  else { s with threadStatusById := s.threadStatusById.put threadId status }

def setActiveThreadId (s : ThreadState) (workspaceId : Text) (threadId : Option Text) : ThreadState :=
  let s' := s.setActive workspaceId threadId
  match threadId with
  | some id => if id.isEmpty then s' else
      { s' with threadStatusById := s.threadStatusById.put id { s.status id with hasUnread := false } }
  | none => s'

def ensureThread (s : ThreadState) (workspaceId threadId : Text) : ThreadState :=
  if (s.hidden workspaceId).contains threadId then s
  else if (s.threads workspaceId).any (·.id == threadId) then s
  else
    let s' := s.setList workspaceId (⟨threadId, lit "Thread", 0, none, none, none, none⟩ :: s.threads workspaceId)
    { s' with
      threadStatusById := s.threadStatusById.put threadId emptyStatus
      activeThreadIdByWorkspace :=
        s.activeThreadIdByWorkspace.put workspaceId (some ((s.active workspaceId).getD threadId)) }

def nextActive (s : ThreadState) (workspaceId threadId : Text) (filtered : List ThreadSummary) : Option Text :=
  if s.active workspaceId = some threadId then filtered.head?.map (·.id) else s.active workspaceId

def hideThread (s : ThreadState) (workspaceId threadId : Text) : ThreadState :=
  if (s.hidden workspaceId).contains threadId then s
  else
    let filtered := (s.threads workspaceId).filter (fun thread => thread.id != threadId)
    { (s.setList workspaceId filtered).setActive workspaceId (nextActive s workspaceId threadId filtered) with
      hiddenThreadIdsByWorkspace := s.hiddenThreadIdsByWorkspace.put workspaceId (threadId :: s.hidden workspaceId) }

def removeThread (s : ThreadState) (workspaceId threadId : Text) : ThreadState :=
  let filtered := (s.threads workspaceId).filter (fun thread => thread.id != threadId)
  { (s.setList workspaceId filtered).setActive workspaceId (nextActive s workspaceId threadId filtered) with
    itemsByThread := s.itemsByThread.erase threadId
    threadStatusById := s.threadStatusById.erase threadId
    threadParentById := s.threadParentById.erase threadId }

def setThreadParent (s : ThreadState) (threadId parentId : Text) : ThreadState :=
  if parentId.isEmpty || parentId == threadId then s
  else { s with threadParentById := s.threadParentById.put threadId parentId }

def markProcessing (s : ThreadState) (threadId : Text) (isProcessing : Bool) (timestamp : Int) : ThreadState :=
  let previous := s.status threadId
  -- a start of zero counts as none
  let startedAt := if previous.isProcessing then previous.processingStartedAt.filter (· != 0) else none
  if isProcessing then
    s.setStatus threadId { previous with isProcessing := true, processingStartedAt := some (startedAt.getD timestamp) }
  else
    s.setStatus threadId { previous with
      isProcessing := false
      processingStartedAt := none
      lastDurationMs := match startedAt with
        | some start => some (max 0 (timestamp - start))
        | none => previous.lastDurationMs }

/-- `list.map` over the threads of a workspace; the state is left where no thread changes. -/
def mapThreads (s : ThreadState) (workspaceId : Text) (f : ThreadSummary → ThreadSummary) : ThreadState :=
  if (s.threads workspaceId).map f = s.threads workspaceId then s else s.setList workspaceId ((s.threads workspaceId).map f)

def setThreadName (s : ThreadState) (workspaceId threadId name : Text) : ThreadState :=
  mapThreads s workspaceId (fun thread => if thread.id == threadId then { thread with name := name } else thread)

def mergeThreadSummary (s : ThreadState) (workspaceId threadId : Text) (patch : SummaryPatch) : ThreadState :=
  mapThreads s workspaceId (fun thread => if thread.id == threadId then { thread with
    createdAt := patch.createdAt.or thread.createdAt
    isSubagent := patch.isSubagent.or thread.isSubagent
    subagentNickname := patch.subagentNickname.or thread.subagentNickname
    subagentRole := patch.subagentRole.or thread.subagentRole } else thread)

def bumpThread (list : List ThreadSummary) (threadId : Text) : List ThreadSummary :=
  list.filter (fun thread => thread.id == threadId) ++ list.filter (fun thread => thread.id != threadId)

def setThreadTimestamp (s : ThreadState) (workspaceId threadId : Text) (timestamp : Int) : ThreadState :=
  let next := (s.threads workspaceId).map (fun thread =>
    if thread.id == threadId && thread.updatedAt < timestamp then { thread with updatedAt := timestamp } else thread)
  if next = s.threads workspaceId then s
  else s.setList workspaceId (if s.prefersUpdatedSort workspaceId then bumpThread next threadId else next)

/-! ### The list of a workspace read again -/

/-- A summary that is kept is as recent as the last message and the running turn of its thread. -/
def freshenAnchorSummary (s : ThreadState) (summary : ThreadSummary) : ThreadSummary :=
  let lastMessageTimestamp := ((s.lastAgentMessageByThread.get summary.id).map (·.2)).getD 0
  let processingStartedAt := ((s.threadStatusById.get summary.id).bind (·.processingStartedAt)).getD 0
  { summary with updatedAt := max summary.updatedAt (max lastMessageTimestamp processingStartedAt) }

/-- The list that is being rebuilt, and the ids in it in the order of their insertion. -/
structure Reconciled where
  reconciled : List ThreadSummary
  includedIds : List Text

/-- `existingById.get(threadId)`; a map built from the list keeps the last thread of an id. -/
def existingById (existingThreads : List ThreadSummary) (threadId : Text) : Option ThreadSummary :=
  existingThreads.reverse.find? (·.id == threadId)

def appendExistingAnchor (s : ThreadState) (workspaceId : Text) (r : Reconciled) (threadId : Text) : Reconciled :=
  if threadId.isEmpty || (s.hidden workspaceId).contains threadId || r.includedIds.contains threadId then r
  else
    match existingById (s.threads workspaceId) threadId with
    | none => r
    | some summary => ⟨r.reconciled ++ [freshenAnchorSummary s summary], r.includedIds ++ [threadId]⟩

/-- The loop up the parents of a thread.  Every round visits another parent, so their number bounds the rounds. -/
def appendParents (s : ThreadState) (workspaceId : Text) : Nat → List Text → Option Text → Reconciled → Reconciled
  | 0, _, _, r => r
  | _ + 1, _, none, r => r
  | n + 1, visited, some parentId, r =>
    if parentId.isEmpty || visited.contains parentId then r
    else appendParents s workspaceId n (parentId :: visited) (s.threadParentById.get parentId)
      (appendExistingAnchor s workspaceId r parentId)

def reconcile (s : ThreadState) (workspaceId : Text) (visibleThreads : List ThreadSummary) : Reconciled :=
  let start : Reconciled := ⟨visibleThreads, visibleThreads.map (·.id)⟩
  let anchored := match s.active workspaceId with
    | some activeThreadId => appendExistingAnchor s workspaceId start activeThreadId
    | none => start
  let anchored := (s.threads workspaceId).foldl (fun r thread =>
    if s.isProcessing thread.id then appendExistingAnchor s workspaceId r thread.id else r) anchored
  anchored.includedIds.foldl (fun r threadId =>
    appendParents s workspaceId (s.threadParentById.length + 1) [threadId] (s.threadParentById.get threadId) r) anchored

def setThreads (s : ThreadState) (workspaceId : Text) (threads : List ThreadSummary) (sortKey : ThreadListSortKey)
    (preserveAnchors : Bool) : ThreadState :=
  let visibleThreads := threads.filter (fun thread => !(s.hidden workspaceId).contains thread.id)
  let sorted := { s with threadSortKeyByWorkspace := s.threadSortKeyByWorkspace.put workspaceId sortKey }
  if preserveAnchors then sorted.setList workspaceId (reconcile s workspaceId visibleThreads).reconciled
  else
    let stillVisible := (s.active workspaceId).filter (fun id => !id.isEmpty && visibleThreads.any (·.id == id))
    (sorted.setList workspaceId visibleThreads).setActive workspaceId
      (stillVisible.or (visibleThreads.head?.map (·.id)))

end Owc.Threads
