import OpenWebCodex.RemoteTracker
/-!
# RemoteTrackerRun — what holds of the connections over every run

Each step is a sequence of acts on the tracker, of six kinds.  What an act keeps, every run keeps.
-/
namespace Owc.Remote

open List ClientTracker Table

variable {Payload : Type}

/-! ## Acts -/

/-- A message may be forwarded on a connection if its number, if it has one, is above the last. -/
def InOrder (client : ClientState) (seqId : Option Nat) : Prop :=
  ∀ seq, seqId = some seq → ∀ last, client.lastInboundSeqId = some last → last < seq

/-- **What a step is made of.** -/
inductive Act : ClientTracker → List (TransportEvent Payload) → ClientTracker → Prop
  | legacy (tracker : ClientTracker) (streamIds : Table ClientId StreamId) :
      Act tracker [] { tracker with legacyStreamIds := streamIds }
  | skip (tracker : ClientTracker) : Act tracker [] { tracker with nextConnectionId := tracker.nextConnectionId + 1 }
  | join (tracker : ClientTracker) (tasks : List OutboundTask) (h : ∀ task ∈ tasks, task ∈ tracker.joinSet) :
      Act tracker [] { tracker with joinSet := tasks }
  | touch (tracker : ClientTracker) {key : ClientKey} {client : ClientState} (h : tracker.clients.get key = some client)
      (now : Nat) : Act tracker [] { tracker with clients := tracker.clients.put key { client with lastActivityAt := now } }
  | close (tracker : ClientTracker) {key : ClientKey} {client : ClientState} (h : tracker.clients.get key = some client) :
      Act tracker [.connectionClosed client.connectionId] { tracker with clients := tracker.clients.erase key }
  | opened (tracker : ClientTracker) {key : ClientKey} (h : tracker.clients.get key = none) (now : Nat) :
      Act tracker [.connectionOpened tracker.nextConnectionId]
        { tracker with
          clients := tracker.clients.put key ⟨tracker.nextConnectionId, now, none⟩
          joinSet := ⟨key, tracker.nextConnectionId⟩ :: tracker.joinSet
          nextConnectionId := tracker.nextConnectionId + 1 }
  | forward (tracker : ClientTracker) {key : ClientKey} {client : ClientState} (h : tracker.clients.get key = some client)
      {message : JsonrpcMessage Payload} {seqId : Option Nat} (hseq : InOrder client seqId) (records : Bool)
      (hrecords : remoteControlMessageStartsConnection message = false → records = true) :
      Act tracker [.incomingMessage client.connectionId message seqId]
        (if records then tracker.recordInboundMessageDelivery key seqId else tracker)

inductive Acts : ClientTracker → List (TransportEvent Payload) → ClientTracker → Prop
  | done (tracker : ClientTracker) : Acts tracker [] tracker
  | act {tracker next after : ClientTracker} {events later : List (TransportEvent Payload)} (h : Act tracker events next)
      (rest : Acts next later after) : Acts tracker (events ++ later) after

theorem Act.acts {tracker after} {events : List (TransportEvent Payload)} (h : Act tracker events after) :
    Acts tracker events after := by
  have hacts := Acts.act h (.done after)
  rwa [append_nil] at hacts

theorem Acts.trans {tracker next after} {events later : List (TransportEvent Payload)}
    (h : Acts tracker events next) (h' : Acts next later after) : Acts tracker (events ++ later) after := by
  induction h with
  | done => exact h'
  | act hact _ ih =>
    rw [append_assoc]
    exact .act hact (ih h')

/-! ## Steps are acts -/

def Outcome.From (tracker : ClientTracker) (outcome : Outcome Payload) : Prop :=
  Acts tracker outcome.events outcome.tracker

theorem Outcome.from_self (tracker : ClientTracker) (stopped : Bool) :
    Outcome.From tracker (⟨tracker, [], stopped⟩ : Outcome Payload) := .done tracker

variable {tracker : ClientTracker}

theorem Outcome.From.andThen {outcome : Outcome Payload} {next : ClientTracker → Outcome Payload} (h : outcome.From tracker)
    (hnext : (next outcome.tracker).From outcome.tracker) : (outcome.andThen next).From tracker := by
  unfold Outcome.andThen
  split
  · exact h
  · exact Acts.trans h hnext

variable {key : ClientKey} {client : ClientState}

namespace ClientTracker

theorem removeClient_acts (h : tracker.clients.get key = some client) :
    Acts tracker [(.connectionClosed client.connectionId : TransportEvent Payload)] (tracker.removeClient key) :=
  .act (.close tracker h) (Act.legacy _ _).acts

theorem closeClient_from (closes : Nat → Bool) (tracker : ClientTracker) (key : ClientKey) :
    (closeClient closes tracker key : Outcome Payload).From tracker := by
  unfold closeClient
  split
  · exact Outcome.from_self tracker false
  · next client hget => exact removeClient_acts hget

theorem closeClients_from (closes : Nat → Bool) (keys : List ClientKey) (tracker : ClientTracker) :
    (closeClients closes keys tracker : Outcome Payload).From tracker := by
  induction keys generalizing tracker with
  | nil => exact Outcome.from_self tracker false
  | cons key keys ih => exact (closeClient_from closes tracker key).andThen (ih _)

theorem deliver_from {message : JsonrpcMessage Payload}
    {seqId : Option Nat} (h : tracker.clients.get key = some client) (hseq : InOrder client seqId) (sends : Sends)
    (now : Nat) : (deliver sends now key client message seqId tracker).From tracker := by
  have htouch : Act tracker ([] : List (TransportEvent Payload)) _ := .touch tracker h now
  unfold deliver
  split
  · have hget := get_put_self tracker.clients key { client with lastActivityAt := now }
    have hseqTouched : InOrder { client with lastActivityAt := now } seqId := hseq
    exact .act htouch (Act.forward _ hget hseqTouched true fun _ => rfl).acts
  · exact htouch.acts

theorem openConnection_from {message : JsonrpcMessage Payload}
    (h : tracker.clients.get key = none) (hstarts : remoteControlMessageStartsConnection message) (sends : Sends)
    (now : Nat) (isLegacyStreamId : Bool) (seqId : Option Nat) :
    (openConnection sends now key isLegacyStreamId message seqId tracker).From tracker := by
  have hopened : Acts tracker [(.connectionOpened tracker.nextConnectionId : TransportEvent Payload)]
      (tracker.insertClient key now isLegacyStreamId) := .act (.opened tracker h now) (Act.legacy _ _).acts
  have hget : (tracker.insertClient key now isLegacyStreamId).clients.get key = some ⟨tracker.nextConnectionId, now, none⟩ :=
    get_put_self _ _ _
  unfold openConnection
  split
  · split
    · have hseq : InOrder ⟨tracker.nextConnectionId, now, none⟩ seqId := fun _ _ _ hlast => (nomatch hlast)
      have hforward := Act.forward _ hget hseq (!isLegacyStreamId) (fun hnot => absurd (hstarts.symm.trans hnot) (by decide))
      cases isLegacyStreamId <;> exact Acts.trans hopened hforward.acts
    · exact Acts.trans hopened (removeClient_acts hget)
  · exact (Act.skip tracker).acts

theorem inOrder_of_not_duplicate {seqId}
    (hget : tracker.clients.get key = some client) (h : tracker.isDuplicate key seqId = false) : InOrder client seqId := by
  rintro seq rfl last hlast
  simp only [isDuplicate, hget, hlast, Option.any_some, decide_eq_false_iff_not] at h
  omega

theorem get_closeClient (closes : Nat → Bool) (tracker : ClientTracker) (key other : ClientKey) :
    (closeClient closes tracker key : Outcome Payload).tracker.clients.get other =
      if other = key then none else tracker.clients.get other := by
  unfold closeClient
  split
  · next hnone =>
    split
    · next heq => rw [heq, hnone]
    · rfl
  · exact get_erase key other tracker.clients

theorem handleClientMessage_from (sends : Sends) (now : Nat) (key : ClientKey) (isLegacyStreamId : Bool)
    (message : JsonrpcMessage Payload) (seqId : Option Nat) (tracker : ClientTracker) :
    (handleClientMessage sends now key isLegacyStreamId message seqId tracker).From tracker := by
  unfold handleClientMessage
  by_cases hduplicate : (tracker.isDuplicate key seqId && !remoteControlMessageStartsConnection message)
  · rw [if_pos hduplicate]
    exact Outcome.from_self tracker false
  rw [if_neg hduplicate]
  split
  · next hreopen =>
    refine (closeClient_from sends.closes tracker key).andThen ?_
    have hstarts := (Bool.and_eq_true_iff.1 hreopen).1
    have hnone : (closeClient sends.closes tracker key : Outcome Payload).tracker.clients.get key = none :=
      (get_closeClient sends.closes tracker key key).trans (if_pos rfl)
    rw [hnone]
    rw [if_pos hstarts]
    exact openConnection_from hnone hstarts sends now isLegacyStreamId seqId
  · next hreopen =>
    refine (Outcome.from_self tracker false).andThen ?_
    dsimp only
    split
    · next client hget =>
      -- `initialize` does not come here, so the message is no duplicate
      have hother : remoteControlMessageStartsConnection message = false := by simpa [hget] using hreopen
      have hfresh : tracker.isDuplicate key seqId = false := by simpa [hother] using hduplicate
      exact deliver_from hget (inOrder_of_not_duplicate hget hfresh) sends now
    · next hnone =>
      split
      · next hstarts => exact openConnection_from hnone hstarts sends now isLegacyStreamId seqId
      · exact Outcome.from_self tracker false

theorem resolveStreamId_acts (tracker : ClientTracker) (envelope : ClientEnvelope (JsonrpcMessage Payload))
    (isInitialize : Bool) (newRandom : StreamId) :
    Acts tracker ([] : List (TransportEvent Payload)) (tracker.resolveStreamId envelope isInitialize newRandom).2 := by
  unfold resolveStreamId
  split
  · exact .done tracker
  · split
    · exact (Act.legacy tracker _).acts
    · exact .done tracker

theorem handleMessage_from (sends : Sends) (now : Nat) (newRandom : StreamId)
    (envelope : ClientEnvelope (JsonrpcMessage Payload)) (tracker : ClientTracker) :
    (handleMessage sends now newRandom envelope tracker).From tracker := by
  unfold handleMessage
  dsimp only
  have hresolved := resolveStreamId_acts tracker envelope envelope.event.isInitialize newRandom
  split
  · exact hresolved
  refine Acts.trans hresolved ?_
  split
  · exact handleClientMessage_from ..
  · exact .done _
  · exact .done _
  · split
    · next client hget => exact (Act.touch _ hget now).acts
    · exact .done _
  · exact closeClient_from ..

end ClientTracker

section

variable (order : ClientTracker.KeyOrder) (tracker : ClientTracker)

theorem ReaderInput.step_from (input : ReaderInput Payload) : (input.step order tracker).From tracker := by
  cases input with
  | message => exact handleMessage_from ..
  | taskEnded =>
    rw [step]
    split
    · exact Acts.trans (Act.join tracker _ fun _ => mem_of_mem_erase).acts (closeClient_from ..)
    · exact Outcome.from_self tracker false
  | taskFailed => exact (Act.join tracker _ fun _ => mem_of_mem_erase).acts
  | idleSweep => exact closeClients_from ..
  | shutdown =>
    let closed : Outcome Payload :=
      closeClients (fun _ => true) (order.arrange (tracker.clients.map Prod.fst)) tracker
    have hjoin : Acts closed.tracker ([] : List (TransportEvent Payload)) { closed.tracker with joinSet := [] } :=
      (Act.join _ [] fun _ h => absurd h not_mem_nil).acts
    have hacts := Acts.trans (closeClients_from _ _ tracker : closed.From tracker) hjoin
    rwa [append_nil] at hacts

theorem ReaderInput.runAll_acts (inputs : List (ReaderInput Payload)) :
    Acts tracker (runAll order tracker inputs).events (runAll order tracker inputs).tracker := by
  induction inputs generalizing tracker with
  | nil => exact .done tracker
  | cons input inputs ih => exact Acts.trans (input.step_from order tracker) (ih _)

end

/-! ## Connections -/

def openedIds (events : List (TransportEvent Payload)) : List Nat :=
  events.filterMap fun | .connectionOpened connectionId => some connectionId | _ => none

def closedIds (events : List (TransportEvent Payload)) : List Nat :=
  events.filterMap fun | .connectionClosed connectionId => some connectionId | _ => none

def inboundSeqIds (connectionId : Nat) (events : List (TransportEvent Payload)) : List Nat :=
  events.filterMap fun
    | .incomingMessage forwardedOn message seqId =>
      if forwardedOn = connectionId ∧ remoteControlMessageStartsConnection message = false then seqId else none
    | _ => none

@[simp] theorem openedIds_append (events later : List (TransportEvent Payload)) :
    openedIds (events ++ later) = openedIds events ++ openedIds later := filterMap_append

@[simp] theorem closedIds_append (events later : List (TransportEvent Payload)) :
    closedIds (events ++ later) = closedIds events ++ closedIds later := filterMap_append

@[simp] theorem inboundSeqIds_append (connectionId : Nat) (events later : List (TransportEvent Payload)) :
    inboundSeqIds connectionId (events ++ later) = inboundSeqIds connectionId events ++ inboundSeqIds connectionId later :=
  filterMap_append

def ClientTracker.connectionAt (tracker : ClientTracker) (key : ClientKey) : Option Nat :=
  (tracker.clients.get key).map (·.connectionId)

namespace ClientTracker

theorem get_recordInboundMessageDelivery (h : tracker.clients.get key = some client) (seqId : Option Nat) (other : ClientKey) :
    (tracker.recordInboundMessageDelivery key seqId).clients.get other =
      if other = key then some { client with lastInboundSeqId := seqId.or client.lastInboundSeqId }
      else tracker.clients.get other := by
  unfold recordInboundMessageDelivery
  cases seqId with
  | none =>
    dsimp only
    split
    · next heq => rw [heq, h, Option.none_or]
    · rfl
  | some =>
    rw [h]
    exact get_put key _ other tracker.clients

theorem joinSet_recordInboundMessageDelivery (tracker : ClientTracker) (key : ClientKey) (seqId : Option Nat) :
    (tracker.recordInboundMessageDelivery key seqId).joinSet = tracker.joinSet ∧
      (tracker.recordInboundMessageDelivery key seqId).nextConnectionId = tracker.nextConnectionId := by
  unfold recordInboundMessageDelivery
  split <;> exact ⟨rfl, rfl⟩

end ClientTracker

structure Quiet (tracker : ClientTracker) (events : List (TransportEvent Payload)) (after : ClientTracker) : Prop where
  opened : openedIds events = []
  closed : closedIds events = []
  connectionAt : ∀ key, after.connectionAt key = tracker.connectionAt key
  next : tracker.nextConnectionId ≤ after.nextConnectionId
  joinSet : ∀ task ∈ after.joinSet, task ∈ tracker.joinSet

/-- **What an act does to the connections**: nothing, or it closes one, or opens the next. -/
theorem Act.connections {tracker after} {events : List (TransportEvent Payload)}
    (h : Act tracker events after) :
    Quiet tracker events after ∨
    (∃ key connectionId, events = [.connectionClosed connectionId] ∧ tracker.connectionAt key = some connectionId ∧
      (∀ other, after.connectionAt other = if other = key then none else tracker.connectionAt other) ∧
      after.nextConnectionId = tracker.nextConnectionId ∧ after.joinSet = tracker.joinSet) ∨
    ∃ key, events = [.connectionOpened tracker.nextConnectionId] ∧ tracker.connectionAt key = none ∧
      (∀ other, after.connectionAt other =
        if other = key then some tracker.nextConnectionId else tracker.connectionAt other) ∧
      after.nextConnectionId = tracker.nextConnectionId + 1 ∧
      after.joinSet = ⟨key, tracker.nextConnectionId⟩ :: tracker.joinSet := by
  cases h with
  | legacy => exact .inl ⟨rfl, rfl, fun _ => rfl, Nat.le_refl _, fun _ => id⟩
  | skip => exact .inl ⟨rfl, rfl, fun _ => rfl, Nat.le_succ _, fun _ => id⟩
  | join tasks h => exact .inl ⟨rfl, rfl, fun _ => rfl, Nat.le_refl _, h⟩
  | @touch key client h now =>
    refine .inl ⟨rfl, rfl, fun other => ?_, Nat.le_refl _, fun _ => id⟩
    simp only [connectionAt, get_put]
    split
    · next heq => rw [heq, h]; rfl
    · rfl
  | @close key client h =>
    refine .inr (.inl ⟨key, client.connectionId, rfl, ?_, fun other => ?_, rfl, rfl⟩)
    · rw [connectionAt, h]
      rfl
    · simp only [connectionAt, get_erase]
      split <;> rfl
  | @opened key h now =>
    refine .inr (.inr ⟨key, rfl, ?_, fun other => ?_, rfl, rfl⟩)
    · rw [connectionAt, h]
      rfl
    · simp only [connectionAt, get_put]
      split <;> rfl
  | @forward key client h message seqId hseq records hrecords =>
    cases records with
    | false => exact .inl ⟨rfl, rfl, fun _ => rfl, Nat.le_refl _, fun _ => id⟩
    | true =>
      obtain ⟨hjoinSet, hnext⟩ := tracker.joinSet_recordInboundMessageDelivery key seqId
      refine .inl ⟨rfl, rfl, fun other => ?_, hnext.ge, fun task htask => hjoinSet ▸ htask⟩
      simp only [connectionAt, if_true, get_recordInboundMessageDelivery h]
      split
      · next heq => rw [heq, h]; rfl
      · rfl

end Owc.Remote
