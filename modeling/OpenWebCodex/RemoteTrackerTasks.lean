import OpenWebCodex.RemoteTrackerMatch
/-!
# RemoteTrackerTasks — whose task closes a connection

A task that ends closes what is open under its key.  That is the connection it was spawned for unless a newer one was opened
before the task was joined.
-/
namespace Owc.Remote

open List ClientTracker

variable {Payload : Type}

/-! ## Every run -/

structure Sound (tracker : ClientTracker) (log : List (TransportEvent Payload)) : Prop where
  matched : Matched tracker log
  ordered : Ordered tracker log

theorem Sound.acts {tracker after} {log events : List (TransportEvent Payload)} (h : Sound tracker log)
    (hacts : Acts tracker events after) : Sound after (log ++ events) := by
  induction hacts generalizing log with
  | done => rwa [append_nil]
  | act hact _ ih =>
    rw [← append_assoc]
    exact ih ⟨h.matched.act hact, h.ordered.act h.matched hact⟩

theorem sound_runAll (order : ClientTracker.KeyOrder) (inputs : List (ReaderInput Payload)) :
    Sound (ReaderInput.runAll order {} inputs).tracker (ReaderInput.runAll order {} inputs).events := by
  have hempty : Sound ({} : ClientTracker) ([] : List (TransportEvent Payload)) := ⟨matched_nil, ordered_nil⟩
  have hsound := hempty.acts (ReaderInput.runAll_acts order {} inputs)
  rwa [nil_append] at hsound

theorem runAll_concat (order : ClientTracker.KeyOrder) (tracker : ClientTracker) (inputs : List (ReaderInput Payload))
    (input : ReaderInput Payload) :
    ReaderInput.runAll order tracker (inputs ++ [input]) =
      ⟨(input.step order (ReaderInput.runAll order tracker inputs).tracker).tracker,
        (ReaderInput.runAll order tracker inputs).events ++
          (input.step order (ReaderInput.runAll order tracker inputs).tracker).events, false⟩ := by
  induction inputs generalizing tracker with
  | nil => simp [ReaderInput.runAll]
  | cons first inputs ih => simp [ReaderInput.runAll, ih]

/-! ## After the end -/

theorem connectionAt_closeClients {keys tracker key}
    (h : key ∈ keys ∨ tracker.connectionAt key = none) :
    (closeClients (fun _ => true) keys tracker : Outcome Payload).tracker.connectionAt key = none := by
  induction keys generalizing tracker with
  | nil => exact h.resolve_left not_mem_nil
  | cons first keys ih =>
    have hgoes : (closeClient (fun _ => true) tracker first : Outcome Payload).stopped = false := by
      unfold closeClient
      split <;> rfl
    rw [closeClients, Outcome.andThen, hgoes, if_neg Bool.false_ne_true]
    apply ih
    rw [connectionAt, get_closeClient]
    by_cases heq : key = first
    · exact .inr (by rw [if_pos heq]; rfl)
    · rw [if_neg heq]
      exact h.imp_left fun hmem => (mem_cons.1 hmem).resolve_left heq

theorem connectionAt_shutdown (order : ClientTracker.KeyOrder) (tracker : ClientTracker) (key : ClientKey) :
    (tracker.shutdown order : Outcome Payload).tracker.connectionAt key = none := by
  apply connectionAt_closeClients
  rw [order.mem_arrange]
  cases hget : tracker.clients.get key with
  | none => exact .inr (by rw [connectionAt, hget]; rfl)
  | some => exact .inl (mem_map.2 ⟨_, Table.mem_of_get hget, rfl⟩)

/-! ## A connection its own task only closes -/

/-- **A connection is guarded**: it is open and every task left for its key is its own, or it is closed for good. -/
def Guarded (tracker : ClientTracker) (key : ClientKey) (connectionId : Nat) : Prop :=
  tracker.connectionAt key = some connectionId ∧
      (∀ task ∈ tracker.joinSet, task.key = key → task.connectionId = connectionId) ∨
    (∀ other, tracker.connectionAt other ≠ some connectionId) ∧ connectionId < tracker.nextConnectionId

section Guarded

variable {tracker after : ClientTracker} {log events : List (TransportEvent Payload)} {key : ClientKey} {connectionId : Nat}

theorem Guarded.act (h : Guarded tracker key connectionId) (hmatched : Matched tracker log) (hact : Act tracker events after) :
    Guarded after key connectionId := by
  rcases hact.connections with hquiet | ⟨closed, closedId, -, hclosed, hat, hnext, hjoinSet⟩ |
    ⟨opened, -, hopened, hat, hnext, hjoinSet⟩
  · rcases h with ⟨hopen, htasks⟩ | ⟨hgone, hlt⟩
    · exact .inl ⟨hquiet.connectionAt key ▸ hopen, fun task htask => htasks task (hquiet.joinSet task htask)⟩
    · exact .inr ⟨fun other => hquiet.connectionAt other ▸ hgone other, Nat.lt_of_lt_of_le hlt hquiet.next⟩
  · rcases h with ⟨hopen, htasks⟩ | ⟨hgone, hlt⟩
    · by_cases heq : key = closed
      · -- it is closed now
        subst heq
        have hlt := hmatched.opened_lt _ ((hmatched.open_iff connectionId).1 ⟨key, hopen⟩).1
        refine .inr ⟨fun other hother => ?_, hnext ▸ hlt⟩
        rw [hat] at hother
        split at hother
        · cases hother
        · next hne => exact hne (hmatched.key_unique other key connectionId hother hopen)
      · exact .inl ⟨by rw [hat, if_neg heq]; exact hopen, hjoinSet ▸ htasks⟩
    · refine .inr ⟨fun other hother => ?_, hnext ▸ hlt⟩
      rw [hat] at hother
      split at hother
      · cases hother
      · exact hgone other hother
  · rcases h with ⟨hopen, htasks⟩ | ⟨hgone, hlt⟩
    · have hne : key ≠ opened := by
        rintro rfl
        exact absurd (hopen.symm.trans hopened) (by simp)
      refine .inl ⟨by rw [hat, if_neg hne]; exact hopen, fun task htask hkey => ?_⟩
      rw [hjoinSet] at htask
      rcases mem_cons.1 htask with rfl | htask
      · exact absurd hkey.symm hne
      · exact htasks task htask hkey
    · refine .inr ⟨fun other hother => ?_, by omega⟩
      rw [hat] at hother
      split at hother
      · exact absurd (Option.some.inj hother).symm (Nat.ne_of_lt hlt)
      · exact hgone other hother

theorem Guarded.acts (h : Guarded tracker key connectionId) (hsound : Sound tracker log) (hacts : Acts tracker events after) :
    Guarded after key connectionId := by
  induction hacts generalizing log with
  | done => exact h
  | act hact _ ih => exact ih (h.act hsound.matched hact) (hsound.acts hact.acts)

end Guarded

/-- In a run, the end of another connection's task closes the connection. -/
def ClosedByOtherTask (order : ClientTracker.KeyOrder) (connectionId : Nat) :
    ClientTracker → List (ReaderInput Payload) → Prop
  | _, [] => False
  | tracker, input :: inputs =>
    (∃ task closes, input = .taskEnded task closes ∧ task.connectionId ≠ connectionId ∧
      .connectionClosed connectionId ∈ (input.step order tracker).events) ∨
    ClosedByOtherTask order connectionId (input.step order tracker).tracker inputs

theorem closed_mem_taskEnded_iff (order : ClientTracker.KeyOrder) (tracker : ClientTracker) (task : OutboundTask)
    (closes : Nat → Bool) (connectionId : Nat) :
    .connectionClosed connectionId ∈ ((.taskEnded task closes : ReaderInput Payload).step order tracker).events ↔
      task ∈ tracker.joinSet ∧ tracker.connectionAt task.key = some connectionId := by
  rw [ReaderInput.step]
  split
  · next hmem =>
    unfold closeClient connectionAt
    split
    · next hnone =>
      simp [hnone]
    · next client hget =>
      simp [hget, hmem, eq_comm]
  · next hnot => simp [hnot]

variable {order : ClientTracker.KeyOrder}

theorem Guarded.not_closedByOtherTask {key} {connectionId : Nat}
    {inputs : List (ReaderInput Payload)} {tracker} {log : List (TransportEvent Payload)}
    (h : Guarded tracker key connectionId) (hsound : Sound tracker log) :
    ¬ClosedByOtherTask order connectionId tracker inputs := by
  induction inputs generalizing tracker log with
  | nil => exact id
  | cons input inputs ih =>
    rintro (⟨task, closes, rfl, hne, hclosed⟩ | hlater)
    · obtain ⟨htask, hat⟩ := (closed_mem_taskEnded_iff order tracker task closes connectionId).1 hclosed
      rcases h with ⟨hopen, htasks⟩ | ⟨hgone, -⟩
      · exact hne (htasks task htask (hsound.matched.key_unique _ _ _ hat hopen))
      · exact hgone _ hat
    · have hacts := input.step_from order tracker
      exact ih (h.acts hsound hacts) (hsound.acts hacts) hlater

/-! ## What a step opens -/

def OpensAtMostOne (tracker : ClientTracker) (outcome : Outcome Payload) : Prop :=
  openedIds outcome.events = [] ∨
    ∃ key, openedIds outcome.events = [tracker.nextConnectionId] ∧
      outcome.tracker.joinSet = ⟨key, tracker.nextConnectionId⟩ :: tracker.joinSet

structure OpensNothing (tracker : ClientTracker) (outcome : Outcome Payload) : Prop where
  opened : openedIds outcome.events = []
  joinSet : outcome.tracker.joinSet = tracker.joinSet
  next : outcome.tracker.nextConnectionId = tracker.nextConnectionId

theorem opensNothing_closeClient (closes : Nat → Bool) (tracker : ClientTracker) (key : ClientKey) :
    OpensNothing tracker (tracker.closeClient closes key : Outcome Payload) := by
  unfold closeClient
  split <;> exact ⟨rfl, rfl, rfl⟩

theorem openedIds_closeClients (closes : Nat → Bool) (keys : List ClientKey) (tracker : ClientTracker) :
    openedIds (closeClients closes keys tracker : Outcome Payload).events = [] := by
  induction keys generalizing tracker with
  | nil => rfl
  | cons key keys ih =>
    rw [closeClients, Outcome.andThen]
    split
    · exact (opensNothing_closeClient closes tracker key).opened
    · rw [openedIds_append, (opensNothing_closeClient closes tracker key).opened, ih]
      rfl

theorem OpensNothing.andThen {next : ClientTracker → Outcome Payload}
    (hnothing : OpensNothing tracker outcome) (h : OpensAtMostOne outcome.tracker (next outcome.tracker)) :
    OpensAtMostOne tracker (outcome.andThen next) := by
  unfold Outcome.andThen
  split
  · exact .inl hnothing.opened
  · unfold OpensAtMostOne at h ⊢
    rwa [openedIds_append, hnothing.opened, nil_append, ← hnothing.next, ← hnothing.joinSet]

section

variable (sends : Sends) (now : Nat) (key : ClientKey)

theorem openConnection_opens (isLegacyStreamId : Bool) (message : JsonrpcMessage Payload) (seqId : Option Nat)
    (tracker : ClientTracker) :
    OpensAtMostOne tracker (tracker.openConnection sends now key isLegacyStreamId message seqId) := by
  have hjoinSet : ∀ opened : ClientTracker,
      (if isLegacyStreamId then opened else opened.recordInboundMessageDelivery key seqId).joinSet = opened.joinSet := by
    intro opened
    split
    · rfl
    · exact (opened.joinSet_recordInboundMessageDelivery key seqId).1
  unfold openConnection
  split
  · split
    · exact .inr ⟨key, rfl, hjoinSet _⟩
    · exact .inr ⟨key, rfl, rfl⟩
  · exact .inl rfl

theorem deliver_opens (client : ClientState) (message : JsonrpcMessage Payload) (seqId : Option Nat)
    (tracker : ClientTracker) : OpensAtMostOne tracker (tracker.deliver sends now key client message seqId) := by
  unfold deliver
  split <;> exact .inl rfl

theorem handleClientMessage_opens (isLegacyStreamId : Bool) (message : JsonrpcMessage Payload) (seqId : Option Nat)
    (tracker : ClientTracker) :
    OpensAtMostOne tracker (tracker.handleClientMessage sends now key isLegacyStreamId message seqId) := by
  unfold handleClientMessage
  dsimp only
  split
  · exact .inl rfl
  -- the client may have been closed before; from there on both branches are alike
  split
  on_goal 1 => refine (opensNothing_closeClient sends.closes tracker key).andThen ?_
  on_goal 2 => refine OpensNothing.andThen ⟨rfl, rfl, rfl⟩ ?_
  all_goals
    split
    · exact deliver_opens ..
    · split
      · exact openConnection_opens ..
      · exact .inl rfl

end

theorem handleMessage_opens (sends : Sends) (now : Nat) (newRandom : StreamId)
    (envelope : ClientEnvelope (JsonrpcMessage Payload)) (tracker : ClientTracker) :
    OpensAtMostOne tracker (tracker.handleMessage sends now newRandom envelope) := by
  have hresolved : ∀ isInitialize, (tracker.resolveStreamId envelope isInitialize newRandom).2.joinSet = tracker.joinSet ∧
      (tracker.resolveStreamId envelope isInitialize newRandom).2.nextConnectionId = tracker.nextConnectionId := by
    intro isInitialize
    unfold resolveStreamId
    split
    · exact ⟨rfl, rfl⟩
    · split <;> exact ⟨rfl, rfl⟩
  unfold handleMessage
  dsimp only
  split
  · exact .inl rfl
  split
  · next message _ =>
    have hmessage := handleClientMessage_opens sends now
      (envelope.clientId, (tracker.resolveStreamId envelope envelope.event.isInitialize newRandom).1)
      envelope.streamId.isNone message envelope.seqId
      (tracker.resolveStreamId envelope envelope.event.isInitialize newRandom).2
    unfold OpensAtMostOne at hmessage ⊢
    rwa [(hresolved _).1, (hresolved _).2] at hmessage
  · exact .inl rfl
  · exact .inl rfl
  · split <;> exact .inl rfl
  · exact .inl (opensNothing_closeClient ..).opened

theorem step_opens (order : ClientTracker.KeyOrder) (tracker : ClientTracker) (input : ReaderInput Payload) :
    OpensAtMostOne tracker (input.step order tracker) := by
  cases input with
  | message envelope sends now newRandom => exact handleMessage_opens sends now newRandom envelope tracker
  | taskEnded =>
    rw [ReaderInput.step]
    split
    · exact .inl (opensNothing_closeClient ..).opened
    · exact .inl rfl
  | taskFailed => exact .inl rfl
  | _ => exact .inl (openedIds_closeClients ..)

def Opens (order : ClientTracker.KeyOrder) (tracker : ClientTracker) (input : ReaderInput Payload) (key : ClientKey)
    (connectionId : Nat) : Prop :=
  .connectionOpened connectionId ∈ (input.step order tracker).events ∧
    (input.step order tracker).tracker.connectionAt key = some connectionId

section

variable {tracker : ClientTracker} {input : ReaderInput Payload} {key : ClientKey} {connectionId : Nat}
  {log : List (TransportEvent Payload)} (h : Opens order tracker input key connectionId) (hsound : Sound tracker log)
include h hsound

theorem Opens.joinSet_eq : connectionId = tracker.nextConnectionId ∧
      (input.step order tracker).tracker.joinSet = ⟨key, connectionId⟩ :: tracker.joinSet := by
  have hopened : connectionId ∈ openedIds (input.step order tracker).events :=
    mem_filterMap.2 ⟨_, h.1, rfl⟩
  rcases step_opens order tracker input with hnone | ⟨taskKey, hone, hjoinSet⟩
  · rw [hnone] at hopened
    cases hopened
  rw [hone, mem_singleton] at hopened
  subst hopened
  have hafter := (hsound.acts (input.step_from order tracker)).matched
  have htask : (⟨taskKey, tracker.nextConnectionId⟩ : OutboundTask) ∈ (input.step order tracker).tracker.joinSet :=
    hjoinSet ▸ mem_cons_self
  obtain rfl := hafter.task_key _ htask key h.2
  exact ⟨rfl, hjoinSet⟩

/-- A connection is safe from the tasks of others exactly if none of its key was left when it was opened. -/
theorem Opens.never_closedByOtherTask_iff : (∀ later : List (ReaderInput Payload),
      ¬ClosedByOtherTask order connectionId (input.step order tracker).tracker later) ↔
      ∀ task ∈ tracker.joinSet, task.key ≠ key := by
  obtain ⟨hnext, hjoinSet⟩ := h.joinSet_eq hsound
  constructor
  · rintro hsafe task htask rfl
    -- the task left over ends right after
    refine hsafe [.taskEnded task fun _ => true] (.inl ⟨task, _, rfl, ?_, ?_⟩)
    · exact Nat.ne_of_lt (hnext ▸ hsound.matched.task_lt task htask)
    · rw [closed_mem_taskEnded_iff, hjoinSet]
      exact ⟨mem_cons_of_mem _ htask, h.2⟩
  · intro hnone later
    refine Guarded.not_closedByOtherTask (.inl ⟨h.2, fun task htask hkey => ?_⟩)
      (hsound.acts (input.step_from order tracker))
    rw [hjoinSet] at htask
    rcases mem_cons.1 htask with rfl | htask
    · rfl
    · exact absurd hkey (hnone task htask)

end

/-- **Every run of the reader.**  No connection is opened or closed twice, what is closed was opened, and what was opened and is
not open is closed; at the end all are closed.  The numbered messages of a connection are forwarded in strictly increasing order.
And no later run lets the task of another connection close one that is opened exactly if no task of its key was left to join
when it was opened. -/
theorem reader_runs (order : ClientTracker.KeyOrder) (inputs : List (ReaderInput Payload)) :
    (openedIds (ReaderInput.runAll order {} inputs).events).Nodup ∧ (closedIds (ReaderInput.runAll order {} inputs).events).Nodup ∧
    (∀ connectionId ∈ closedIds (ReaderInput.runAll order {} inputs).events,
      connectionId ∈ openedIds (ReaderInput.runAll order {} inputs).events) ∧
    (∀ connectionId ∈ openedIds (ReaderInput.runAll order {} inputs).events,
      connectionId ∈ closedIds (ReaderInput.runAll order {} inputs).events ↔
        ∀ key, (ReaderInput.runAll order {} inputs).tracker.connectionAt key ≠ some connectionId) ∧
    (∀ connectionId, connectionId ∈ openedIds (ReaderInput.runAll order {} (inputs ++ [.shutdown])).events ↔
      connectionId ∈ closedIds (ReaderInput.runAll order {} (inputs ++ [.shutdown])).events) ∧
    (∀ connectionId, (inboundSeqIds connectionId (ReaderInput.runAll order {} inputs).events).Pairwise (· < ·)) ∧
    ∀ (input : ReaderInput Payload) (key : ClientKey) (connectionId : Nat),
      Opens order (ReaderInput.runAll order {} inputs).tracker input key connectionId →
      ((∀ later : List (ReaderInput Payload),
          ¬ClosedByOtherTask order connectionId (input.step order (ReaderInput.runAll order {} inputs).tracker).tracker later) ↔
        ∀ task ∈ (ReaderInput.runAll order {} inputs).tracker.joinSet, task.key ≠ key) := by
  have hsound := sound_runAll order inputs
  have hend := (sound_runAll order (inputs ++ [.shutdown])).matched
  refine ⟨hsound.matched.opened_nodup, hsound.matched.closed_nodup, hsound.matched.opened_of_closed,
    fun connectionId hopened => ?_, fun connectionId => ⟨fun hopened => ?_, hend.opened_of_closed connectionId⟩,
    hsound.ordered.pairwise, fun input key connectionId hopens => hopens.never_closedByOtherTask_iff hsound⟩
  · have hopen := hsound.matched.open_iff connectionId
    constructor
    · exact fun hclosed key hkey => (hopen.1 ⟨key, hkey⟩).2 hclosed
    · intro hnone
      by_contra hnot
      obtain ⟨key, hkey⟩ := hopen.2 ⟨hopened, hnot⟩
      exact hnone key hkey
  · by_contra hnot
    obtain ⟨key, hkey⟩ := (hend.open_iff connectionId).2 ⟨hopened, hnot⟩
    rw [runAll_concat] at hkey
    exact absurd (hkey.symm.trans (connectionAt_shutdown order _ key)) (by simp)

def listKeyOrder : ClientTracker.KeyOrder := ⟨id, fun _ _ => Iff.rfl⟩

def initializeInput (seqId : Nat) : ReaderInput Unit :=
  .message ⟨.clientMessage (.request "initialize".toList ()), ⟨['c']⟩, some ⟨['s']⟩, some seqId, none⟩
    ⟨fun _ => true, true, true⟩ 0 ⟨['r']⟩

def firstTaskEnded : ReaderInput Unit := .taskEnded ⟨(⟨['c']⟩, ⟨['s']⟩), 0⟩ (fun _ => true)

/-- A client initializes its stream twice; the task of the first connection, which was cancelled, ends and closes the second. -/
theorem replaced_task_closes_new_connection :
    (ReaderInput.runAll listKeyOrder {} [initializeInput 1, initializeInput 2, firstTaskEnded]).events =
      [.connectionOpened 0, .incomingMessage 0 (.request "initialize".toList ()) (some 1),
        .connectionClosed 0, .connectionOpened 1, .incomingMessage 1 (.request "initialize".toList ()) (some 2),
        .connectionClosed 1] ∧
    ClosedByOtherTask listKeyOrder 1 (ReaderInput.runAll listKeyOrder {} [initializeInput 1, initializeInput 2]).tracker
      [firstTaskEnded] := by
  refine ⟨by decide, .inl ⟨_, _, rfl, by decide, ?_⟩⟩
  decide

end Owc.Remote
