import OpenWebCodex.Transition
/-!
# ProfileHost — one profile's app-server process, its readers and its restarts

Requests hold the lifecycle lock for reading, restarts and shutdowns for writing.  The readers of the processes' output hold no
lock: they compare the process generation with their own, and act on what they read some time later.
-/
namespace Owc.ProfileHost

structure Turn where
  process : Nat
  id : Nat
deriving DecidableEq

inductive Notification
  | turnStarted (turn : Turn)
  | turnCompleted (turn : Turn)
  | serverRequest (id : Nat)
  | serverRequestResolved (id : Nat)
  | other
deriving DecidableEq

/-- A line of the output: a response, a message with a method, or no JSON. -/
inductive Line
  | response (id : Nat) (turn : Option Turn)
  | notification (message : Notification)
  | invalid
deriving DecidableEq

inductive ReaderState
  | absent
  | idle
  | checked (line : Line)
  | updated (message : Notification)
  /-- The event is about to be stamped; none stands for `codex/parseError`. -/
  | stamping (message : Option Notification)
  | closing
  | drained
  | finished
deriving DecidableEq

inductive Method
  | turnStart
  | reviewStart
  | other

inductive CallerState
  | waiting
  | answered (turn : Option Turn)
  | recorded

structure Caller where
  id : Nat
  method : Method
  state : CallerState

/-- Who holds the lifecycle lock for writing, and how far it has come. -/
inductive WriterState
  | locked (restart : Bool)
  | approved
  | bumped
  | cleared
  | renamed
  | spawned
  | stopped
deriving DecidableEq

structure Event where
  instanceId : Nat
  process : Nat
  message : Option Notification
deriving DecidableEq

structure Answer where
  instanceId : Nat
  requestId : Nat
  process : Nat
deriving DecidableEq

structure History where
  /-- The process whose turns the host tracks: none once its output has ended or it was stopped. -/
  live : Option Nat
  /-- Turns whose start was acknowledged by a response or announced. -/
  acknowledged : List Turn
  noted : List Turn
  completed : List Turn
  announced : List Turn
  instanceOf : Nat → Nat
  events : List Event
  answers : List Answer

structure Host where
  processGeneration : Nat
  runtimeInstanceId : Nat
  freshInstanceId : Nat
  activeTurns : List Turn
  pendingServerRequests : List Nat
  /-- The process that reads what is written. -/
  stdin : Nat
  stopped : Bool
  pending : List Nat
  nextId : Nat
  callers : List Caller
  writer : Option WriterState
  readers : Nat → ReaderState
  history : History

inductive Step
  | beginRequest (method : Method)
  | record (id : Nat)
  | finish (id : Nat)
  | respond (instanceId requestId : Nat)
  | readLine (process : Nat) (line : Line)
  | readEnd (process : Nat)
  | dispatch (process : Nat)
  | recheck (process : Nat)
  | publish (process : Nat)
  | drain (process : Nat)
  | close (process : Nat)
  | lock (restart : Bool)
  | refuse
  | approve
  | bump
  | clear
  | rename
  | spawn
  | spawnFails
  | unlock

namespace Host

def setReader (s : Host) (process : Nat) (state : ReaderState) : Host :=
  { s with readers := fun other => if other = process then state else s.readers other }

def insertTurn (turns : List Turn) (turn : Turn) : List Turn := if turn ∈ turns then turns else turns ++ [turn]

def removeTurn (turns : List Turn) (turn : Turn) : List Turn := turns.filter (fun other => decide (other ≠ turn))

def runtimeIsBusy (s : Host) : Bool := !s.activeTurns.isEmpty || !s.pendingServerRequests.isEmpty

/-! ## Requests -/

def beginRequest (s : Host) (method : Method) : Host :=
  { s with nextId := s.nextId + 1, pending := s.pending ++ [s.nextId], callers := s.callers ++ [⟨s.nextId, method, .waiting⟩] }

def caller? (s : Host) (id : Nat) : Option Caller := s.callers.find? (fun caller => decide (caller.id = id))

def setCaller (s : Host) (id : Nat) (state : CallerState) : Host :=
  { s with callers := s.callers.map (fun caller => if caller.id = id then { caller with state := state } else caller) }

def recordTurn (s : Host) (id : Nat) (turn : Turn) : Host :=
  { s.setCaller id .recorded with
    activeTurns := insertTurn s.activeTurns turn
    history := { s.history with noted := s.history.noted ++ [turn] } }

/-- The turn of a `turn/start` response is entered before the request returns. -/
def record (s : Host) (id : Nat) : Option Host :=
  match s.caller? id with
  | some ⟨_, .turnStart, .answered (some turn)⟩ => some (s.recordTurn id turn)
  | _ => none

def returns (caller : Caller) : Bool :=
  match caller.method, caller.state with
  | .turnStart, .answered (some _) => false
  | _, _ => true

def removeCaller (s : Host) (id : Nat) : Host :=
  { s with
    callers := s.callers.filter (fun other => decide (other.id ≠ id))
    pending := s.pending.filter (fun other => decide (other ≠ id)) }

def finish (s : Host) (id : Nat) : Option Host :=
  match s.caller? id with
  | some caller => if returns caller then some (s.removeCaller id) else none
  | none => none

def respond (s : Host) (instanceId requestId : Nat) : Host :=
  if s.runtimeInstanceId = instanceId then
    { s with history := { s.history with answers := s.history.answers ++ [⟨instanceId, requestId, s.stdin⟩] } }
  else s

/-! ## Readers -/

/-- What a process writes about turns is about its own, and a completion is the last it says of one. -/
def emits (s : Host) (process : Nat) : Line → Bool
  | .response _ (some turn) => decide (turn.process = process)
  | .notification (.turnStarted turn) => decide (turn.process = process) && decide (turn ∉ s.history.announced)
  | .notification (.turnCompleted turn) => decide (turn.process = process) && decide (turn ∉ s.history.announced)
  | _ => true

def completions : Line → List Turn
  | .notification (.turnCompleted turn) => [turn]
  | _ => []

def afterCheck : Line → ReaderState
  | .invalid => .stamping none
  | line => .checked line

def readLine (s : Host) (process : Nat) (line : Line) : Host :=
  let announced := { s with history := { s.history with announced := s.history.announced ++ completions line } }
  announced.setReader process (if s.processGeneration = process then afterCheck line else .finished)

def updateRuntimeWork (s : Host) : Notification → Host
  | .turnStarted turn => { s with
      activeTurns := insertTurn s.activeTurns turn
      history := { s.history with
        noted := s.history.noted ++ [turn]
        acknowledged := s.history.acknowledged ++ [turn] } }
  | .turnCompleted turn => { s with
      activeTurns := removeTurn s.activeTurns turn
      history := { s.history with completed := s.history.completed ++ [turn] } }
  | .serverRequest id => { s with
      pendingServerRequests := if id ∈ s.pendingServerRequests then s.pendingServerRequests else s.pendingServerRequests ++ [id] }
  | .serverRequestResolved id => { s with
      pendingServerRequests := s.pendingServerRequests.filter (fun other => decide (other ≠ id)) }
  | .other => s

def acknowledges (s : Host) (id : Nat) (turn : Option Turn) : List Turn :=
  match s.caller? id, turn with
  | some ⟨_, .turnStart, _⟩, some turn => [turn]
  | some ⟨_, .reviewStart, _⟩, some turn => [turn]
  | _, _ => []

def deliver (s : Host) (id : Nat) (turn : Option Turn) : Host :=
  if id ∈ s.pending then
    { s.setCaller id (.answered turn) with
      pending := s.pending.filter (fun other => decide (other ≠ id))
      history := { s.history with acknowledged := s.history.acknowledged ++ s.acknowledges id turn } }
  else s

def dispatch (s : Host) (process : Nat) : Option Host :=
  match s.readers process with
  | .checked (.response id turn) => some ((s.deliver id turn).setReader process .idle)
  | .checked (.notification message) => some ((s.updateRuntimeWork message).setReader process (.updated message))
  | _ => none

def recheck (s : Host) (process : Nat) : Option Host :=
  match s.readers process with
  | .updated message => some (s.setReader process (if s.processGeneration = process then .stamping (some message) else .idle))
  | _ => none

def addEvent (s : Host) (event : Event) : Host :=
  { s with history := { s.history with events := s.history.events ++ [event] } }

def publish (s : Host) (process : Nat) : Option Host :=
  match s.readers process with
  | .stamping message => some ((s.addEvent ⟨s.runtimeInstanceId, process, message⟩).setReader process .idle)
  | _ => none

def clearRuntimeWork (s : Host) : Host := { s with activeTurns := [], pendingServerRequests := [] }

def close (s : Host) (process : Nat) : Host :=
  let ended := if s.history.live = some process then none else s.history.live
  { s.clearRuntimeWork with history := { s.history with live := ended } }.setReader process .finished

/-! ## Restarts -/

/-- `shutdown_unlocked`: nothing is done where the host has stopped. -/
def shutdownUnlocked (s : Host) : Host :=
  if s.stopped then s
  else { s.clearRuntimeWork with stopped := true, pending := [], history := { s.history with live := none } }

def spawn (s : Host) : Host :=
  let started := { s with
    stdin := s.processGeneration
    stopped := false
    writer := some .spawned
    history := { s.history with
      live := some s.processGeneration
      instanceOf := fun process => if process = s.processGeneration then s.runtimeInstanceId else s.history.instanceOf process } }
  started.setReader s.processGeneration .idle

end Host

/-- One step of the system; none where it cannot be taken. -/
def step (s : Host) : Step → Option Host
  | .beginRequest method => if s.writer = none then some (s.beginRequest method) else none
  | .record id => s.record id
  | .finish id => s.finish id
  | .respond instanceId requestId => if s.writer = none then some (s.respond instanceId requestId) else none
  | .readLine process line =>
    if s.readers process = .idle ∧ s.emits process line = true then some (s.readLine process line) else none
  | .readEnd process =>
    if s.readers process = .idle then
      some (s.setReader process (if s.processGeneration = process then .closing else .finished))
    else none
  | .dispatch process => s.dispatch process
  | .recheck process => s.recheck process
  | .publish process => s.publish process
  | .drain process =>
    if s.readers process = .closing then some ({ s with pending := [] }.setReader process .drained) else none
  | .close process => if s.readers process = .drained then some (s.close process) else none
  | .lock restart =>
    if s.writer = none ∧ s.callers = [] then some { s with writer := some (.locked restart) } else none
  | .refuse => if s.writer = some (.locked true) ∧ s.runtimeIsBusy = true then some { s with writer := none } else none
  | .approve => if s.writer = some (.locked true) ∧ s.runtimeIsBusy = false then some { s with writer := some .approved } else none
  | .bump =>
    if s.writer = some .approved then
      some { s with processGeneration := s.processGeneration + 1, writer := some .bumped }
    else none
  | .clear =>
    match s.writer with
    | some .bumped => some { s.shutdownUnlocked with writer := some .cleared }
    | some (.locked false) => some { s.shutdownUnlocked with writer := some .stopped }
    | _ => none
  | .rename =>
    if s.writer = some .cleared then
      some { s with
        runtimeInstanceId := s.freshInstanceId
        freshInstanceId := s.freshInstanceId + 1
        writer := some .renamed }
    else none
  | .spawn => if s.writer = some .renamed then some s.spawn else none
  | .spawnFails => if s.writer = some .renamed then some { s with writer := none } else none
  | .unlock => if s.writer = some .spawned ∨ s.writer = some .stopped then some { s with writer := none } else none

/-- **What a step can do**, and when. -/
inductive Taken (s : Host) : Step → Host → Prop
  | beginRequest (method : Method) (h : s.writer = none) : Taken s (.beginRequest method) (s.beginRequest method)
  | record {id number : Nat} {turn : Turn} (h : s.caller? id = some ⟨number, .turnStart, .answered (some turn)⟩) :
    Taken s (.record id) (s.recordTurn id turn)
  | finish {id : Nat} {caller : Caller} (h : s.caller? id = some caller) (hreturns : Host.returns caller = true) :
    Taken s (.finish id) (s.removeCaller id)
  | respond (instanceId requestId : Nat) (h : s.writer = none) :
    Taken s (.respond instanceId requestId) (s.respond instanceId requestId)
  | readLine {process : Nat} {line : Line} (h : s.readers process = .idle) (hemits : s.emits process line = true) :
    Taken s (.readLine process line) (s.readLine process line)
  | readEnd {process : Nat} (h : s.readers process = .idle) :
    Taken s (.readEnd process) (s.setReader process (if s.processGeneration = process then .closing else .finished))
  | response {process id : Nat} {turn : Option Turn} (h : s.readers process = .checked (.response id turn)) :
    Taken s (.dispatch process) ((s.deliver id turn).setReader process .idle)
  | notification {process : Nat} {message : Notification} (h : s.readers process = .checked (.notification message)) :
    Taken s (.dispatch process) ((s.updateRuntimeWork message).setReader process (.updated message))
  | recheck {process : Nat} {message : Notification} (h : s.readers process = .updated message) :
    Taken s (.recheck process)
      (s.setReader process (if s.processGeneration = process then .stamping (some message) else .idle))
  | publish {process : Nat} {message : Option Notification} (h : s.readers process = .stamping message) :
    Taken s (.publish process) ((s.addEvent ⟨s.runtimeInstanceId, process, message⟩).setReader process .idle)
  | drain {process : Nat} (h : s.readers process = .closing) :
    Taken s (.drain process) ({ s with pending := [] }.setReader process .drained)
  | close {process : Nat} (h : s.readers process = .drained) : Taken s (.close process) (s.close process)
  | lock (restart : Bool) (h : s.writer = none) (hcallers : s.callers = []) :
    Taken s (.lock restart) { s with writer := some (.locked restart) }
  | refuse (h : s.writer = some (.locked true)) (hbusy : s.runtimeIsBusy = true) : Taken s .refuse { s with writer := none }
  | approve (h : s.writer = some (.locked true)) (hidle : s.runtimeIsBusy = false) :
    Taken s .approve { s with writer := some .approved }
  | bump (h : s.writer = some .approved) :
    Taken s .bump { s with processGeneration := s.processGeneration + 1, writer := some .bumped }
  | clear (h : s.writer = some .bumped) : Taken s .clear { s.shutdownUnlocked with writer := some .cleared }
  | shutdown (h : s.writer = some (.locked false)) : Taken s .clear { s.shutdownUnlocked with writer := some .stopped }
  | rename (h : s.writer = some .cleared) : Taken s .rename
      { s with runtimeInstanceId := s.freshInstanceId, freshInstanceId := s.freshInstanceId + 1, writer := some .renamed }
  | spawn (h : s.writer = some .renamed) : Taken s .spawn s.spawn
  | spawnFails (h : s.writer = some .renamed) : Taken s .spawnFails { s with writer := none }
  | unlock (h : s.writer = some .spawned ∨ s.writer = some .stopped) : Taken s .unlock { s with writer := none }

variable {s t : Host}

theorem of_guard {c : Prop} [Decidable c] (h : (if c then some s else none) = some t) : c ∧ s = t := by
  obtain ⟨hc, hs⟩ := Option.ite_none_right_eq_some.1 h
  exact ⟨hc, Option.some.inj hs⟩

theorem taken_of_step (hstep : step s a = some t) : Taken s a t := by
  cases a with
  | beginRequest method =>
    obtain ⟨hwriter, rfl⟩ := of_guard hstep
    exact .beginRequest method hwriter
  | record =>
    simp only [step, Host.record] at hstep
    split at hstep
    · next hcaller =>
      cases hstep
      exact .record hcaller
    · cases hstep
  | finish =>
    simp only [step, Host.finish] at hstep
    split at hstep
    · next hcaller =>
      obtain ⟨hreturns, rfl⟩ := of_guard hstep
      exact .finish hcaller hreturns
    · cases hstep
  | respond instanceId requestId =>
    obtain ⟨hwriter, rfl⟩ := of_guard hstep
    exact .respond instanceId requestId hwriter
  | readLine =>
    obtain ⟨⟨hidle, hemits⟩, rfl⟩ := of_guard hstep
    exact .readLine hidle hemits
  | readEnd =>
    obtain ⟨hidle, rfl⟩ := of_guard hstep
    exact .readEnd hidle
  | dispatch =>
    simp only [step, Host.dispatch] at hstep
    split at hstep
    · next hreader =>
      cases hstep
      exact .response hreader
    · next hreader =>
      cases hstep
      exact .notification hreader
    · cases hstep
  | recheck =>
    simp only [step, Host.recheck] at hstep
    split at hstep
    · next hreader =>
      cases hstep
      exact .recheck hreader
    · cases hstep
  | publish =>
    simp only [step, Host.publish] at hstep
    split at hstep
    · next hreader =>
      cases hstep
      exact .publish hreader
    · cases hstep
  | drain =>
    obtain ⟨hclosing, rfl⟩ := of_guard hstep
    exact .drain hclosing
  | close =>
    obtain ⟨hdrained, rfl⟩ := of_guard hstep
    exact .close hdrained
  | lock restart =>
    obtain ⟨⟨hwriter, hcallers⟩, rfl⟩ := of_guard hstep
    exact .lock restart hwriter hcallers
  | refuse =>
    obtain ⟨⟨hlocked, hbusy⟩, rfl⟩ := of_guard hstep
    exact .refuse hlocked hbusy
  | approve =>
    obtain ⟨⟨hlocked, hidle⟩, rfl⟩ := of_guard hstep
    exact .approve hlocked hidle
  | bump =>
    obtain ⟨happroved, rfl⟩ := of_guard hstep
    exact .bump happroved
  | clear =>
    simp only [step] at hstep
    split at hstep
    · next hbumped =>
      cases hstep
      exact .clear hbumped
    · next hlocked =>
      cases hstep
      exact .shutdown hlocked
    · cases hstep
  | rename =>
    obtain ⟨hcleared, rfl⟩ := of_guard hstep
    exact .rename hcleared
  | spawn =>
    obtain ⟨hrenamed, rfl⟩ := of_guard hstep
    exact .spawn hrenamed
  | spawnFails =>
    obtain ⟨hrenamed, rfl⟩ := of_guard hstep
    exact .spawnFails hrenamed
  | unlock =>
    obtain ⟨hdone, rfl⟩ := of_guard hstep
    exact .unlock hdone

def start : Host :=
  { processGeneration := 1
    runtimeInstanceId := 0
    freshInstanceId := 1
    activeTurns := []
    pendingServerRequests := []
    stdin := 1
    stopped := false
    pending := []
    nextId := 0
    callers := []
    writer := none
    readers := fun process => if process = 1 then .idle else .absent
    history := ⟨some 1, [], [], [], [], fun _ => 0, [], []⟩ }

/-! ## Generations -/

namespace Host

def Started (s : Host) (process : Nat) : Prop := s.readers process ≠ .absent

def Between (s : Host) : Prop := s.writer = some .bumped ∨ s.writer = some .cleared ∨ s.writer = some .renamed

def Old (s : Host) (process : Nat) : Prop := process ≤ s.processGeneration ∧ (s.Between → process < s.processGeneration)

variable {process : Nat}

theorem started_of_reader {s : Host} {state : ReaderState} (hreader : s.readers process = state)
    (hstate : state ≠ .absent) : s.Started process := by
  intro habsent
  exact hstate (hreader.symm.trans habsent)

theorem Old.setWriter (h : s.Old process) (hgeneration : t.processGeneration = s.processGeneration)
    (hbetween : t.Between → s.Between) : t.Old process :=
  ⟨hgeneration ▸ h.1, fun hb => hgeneration ▸ h.2 (hbetween hb)⟩

theorem processGeneration_shutdownUnlocked (s : Host) : s.shutdownUnlocked.processGeneration = s.processGeneration := by
  unfold shutdownUnlocked
  split <;> rfl

theorem readers_shutdownUnlocked (s : Host) : s.shutdownUnlocked.readers = s.readers := by
  unfold shutdownUnlocked
  split <;> rfl

theorem Old.step (htaken : Taken s a t) (h : s.Old process) : t.Old process := by
  cases htaken with
  | bump => exact ⟨Nat.le_succ_of_le h.1, fun _ => Nat.lt_succ_of_le h.1⟩
  | clear hwriter => exact h.setWriter (processGeneration_shutdownUnlocked s) fun _ => .inl hwriter
  | rename hwriter => exact h.setWriter rfl fun _ => .inr (.inl hwriter)
  | shutdown =>
    refine h.setWriter (processGeneration_shutdownUnlocked s) ?_
    rintro (hw | hw | hw) <;> cases hw
  | lock | refuse | approve | spawn | spawnFails | unlock =>
    refine h.setWriter rfl ?_
    rintro (hw | hw | hw) <;> cases hw
  | respond =>
    unfold Host.respond
    split <;> exact h
  | response =>
    unfold Host.deliver
    split <;> exact h
  | @notification _ message _ => cases message <;> exact h
  | _ => exact h

theorem started_setReader {s : Host} {state : ReaderState} (hbefore : s.Started process) {other : Nat}
    (h : (s.setReader process state).Started other) : s.Started other := by
  by_cases heq : other = process
  · rw [heq]
    exact hbefore
  · intro habsent
    exact h ((if_neg heq).trans habsent)

theorem started_step {a : Step} (htaken : Taken s a t) (h : t.Started process) :
    s.Started process ∨ a = .spawn ∧ process = s.processGeneration := by
  cases htaken with
  | spawn =>
    by_cases heq : process = s.processGeneration
    · exact .inr ⟨rfl, heq⟩
    · refine .inl fun habsent => h ?_
      exact (if_neg heq).trans habsent
  | clear | shutdown =>
    have hreaders : s.shutdownUnlocked.readers process ≠ .absent := h
    rw [readers_shutdownUnlocked] at hreaders
    exact .inl hreaders
  | respond =>
    unfold Host.respond at h
    split at h <;> exact .inl h
  | response hreader =>
    unfold Host.deliver at h
    split at h <;> exact .inl (started_setReader (started_of_reader hreader nofun) h)
  | @notification _ message hreader =>
    cases message <;> exact .inl (started_setReader (s := s) (started_of_reader hreader nofun) h)
  | readLine hreader | readEnd hreader | recheck hreader | publish hreader | drain hreader | close hreader =>
    exact .inl (started_setReader (s := s) (started_of_reader hreader nofun) h)
  | _ => exact .inl h

/-- **No process is started before its restart.** -/
def Aged (s : Host) : Prop := ∀ process, s.Started process → s.Old process

theorem aged_start : start.Aged := by
  intro process hstarted
  have hone : process = 1 := by
    by_contra hne
    exact hstarted (if_neg hne)
  rw [hone]
  refine ⟨Nat.le_refl 1, ?_⟩
  rintro (hw | hw | hw) <;> cases hw

theorem Aged.step (h : s.Aged) (htaken : Taken s a t) : t.Aged := by
  intro process hstarted
  rcases started_step htaken hstarted with hs | ⟨rfl, rfl⟩
  · exact (h process hs).step htaken
  cases htaken with
  | spawn =>
    refine ⟨Nat.le_refl _, ?_⟩
    rintro (hw | hw | hw) <;> cases hw

theorem Aged.not_started_next {s : Host} (h : s.Aged) : ¬s.Started (s.processGeneration + 1) := by
  intro hs
  exact absurd (h _ hs).1 (Nat.not_succ_le_self _)

theorem Aged.not_started {s : Host} (h : s.Aged) (hbetween : s.Between) : ¬s.Started s.processGeneration := by
  intro hs
  exact absurd ((h _ hs).2 hbetween) (Nat.lt_irrefl _)

end Host

end Owc.ProfileHost
