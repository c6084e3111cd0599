import OpenWebCodex.RemoteProtocol
import OpenWebCodex.Table
/-!
# RemoteTracker — which connections remote control holds open

A client's stream is a connection of the app server from its `initialize` on.  A task forwards what the app server writes to
the connection; when it ends, it reports the client and the stream.  What the reader does between two awaits is one step; how
the awaited sends end is part of a step's input.
-/
namespace Owc.Remote

inductive JsonrpcMessage (Payload : Type)
  | request (method : Str) (payload : Payload)
  | other (payload : Payload)
deriving DecidableEq

def remoteControlMessageStartsConnection {Payload : Type} : JsonrpcMessage Payload → Bool
  | .request method _ => method == "initialize".toList
  | .other _ => false

def ClientEvent.isInitialize {Payload : Type} : ClientEvent (JsonrpcMessage Payload) → Bool
  | .clientMessage message => remoteControlMessageStartsConnection message
  | _ => false

abbrev ClientKey := ClientId × StreamId

structure ClientState where
  connectionId : Nat
  lastActivityAt : Nat
  lastInboundSeqId : Option Nat

/-- A task of the join set.  It reports `key` when it ends; the connection it was spawned for is not in what it reports. -/
structure OutboundTask where
  key : ClientKey
  connectionId : Nat
deriving DecidableEq

structure ClientTracker where
  clients : Table ClientKey ClientState := []
  legacyStreamIds : Table ClientId StreamId := []
  joinSet : List OutboundTask := []
  nextConnectionId : Nat := 0

/-- What is forwarded to the app server.  A message is kept with the sequence number it came under. -/
inductive TransportEvent (Payload : Type)
  | connectionOpened (connectionId : Nat)
  | incomingMessage (connectionId : Nat) (message : JsonrpcMessage Payload) (seqId : Option Nat)
  | connectionClosed (connectionId : Nat)
deriving DecidableEq

/-- What a step leaves, what it forwards, and whether it returned `Stopped`. -/
structure Outcome (Payload : Type) where
  tracker : ClientTracker
  events : List (TransportEvent Payload) := []
  stopped : Bool := false

/-- How the sends of a step end.  A closing is forwarded by a task of its own, so only the wait for it can fail. -/
structure Sends where
  closes : Nat → Bool
  opens : Bool
  delivers : Bool

variable {Payload : Type}

/-- `?` between two parts of a step. -/
def Outcome.andThen (outcome : Outcome Payload) (next : ClientTracker → Outcome Payload) : Outcome Payload :=
  if outcome.stopped then outcome
  else
    let rest := next outcome.tracker
    ⟨rest.tracker, outcome.events ++ rest.events, rest.stopped⟩

namespace ClientTracker

def removeClient (tracker : ClientTracker) (key : ClientKey) : ClientTracker :=
  { tracker with
    clients := tracker.clients.erase key
    legacyStreamIds :=
      if (tracker.legacyStreamIds.get key.1).any (· == key.2) then tracker.legacyStreamIds.erase key.1
      else tracker.legacyStreamIds }

def closeClient (closes : Nat → Bool) (tracker : ClientTracker) (key : ClientKey) : Outcome Payload :=
  match tracker.clients.get key with
  | none => ⟨tracker, [], false⟩
  | some client => ⟨tracker.removeClient key, [.connectionClosed client.connectionId], !closes client.connectionId⟩

def recordInboundMessageDelivery (tracker : ClientTracker) (key : ClientKey) (seqId : Option Nat) : ClientTracker :=
  match seqId, tracker.clients.get key with
  | some seqId, some client =>
    { tracker with clients := tracker.clients.put key { client with lastInboundSeqId := some seqId } }
  | _, _ => tracker

/-- An old client has no stream id: it gets one with `initialize`. -/
def resolveStreamId (tracker : ClientTracker) (envelope : ClientEnvelope (JsonrpcMessage Payload)) (isInitialize : Bool)
    (newRandom : StreamId) : StreamId × ClientTracker :=
  match envelope.streamId with
  | some streamId => (streamId, tracker)
  | none =>
    if isInitialize then
      ((tracker.legacyStreamIds.get envelope.clientId).getD newRandom,
        { tracker with legacyStreamIds := tracker.legacyStreamIds.erase envelope.clientId })
    else
      ((tracker.legacyStreamIds.get envelope.clientId).getD
        (match envelope.event with | .ping => newRandom | _ => ⟨[]⟩), tracker)

def deliver (sends : Sends) (now : Nat) (key : ClientKey) (client : ClientState) (message : JsonrpcMessage Payload)
    (seqId : Option Nat) (tracker : ClientTracker) : Outcome Payload :=
  let tracker := { tracker with clients := tracker.clients.put key { client with lastActivityAt := now } }
  if sends.delivers then
    ⟨tracker.recordInboundMessageDelivery key seqId, [.incomingMessage client.connectionId message seqId], false⟩
  else ⟨tracker, [], true⟩

def insertClient (tracker : ClientTracker) (key : ClientKey) (now : Nat) (isLegacyStreamId : Bool) : ClientTracker where
  clients := tracker.clients.put key ⟨tracker.nextConnectionId, now, none⟩
  legacyStreamIds := if isLegacyStreamId then tracker.legacyStreamIds.put key.1 key.2 else tracker.legacyStreamIds
  joinSet := ⟨key, tracker.nextConnectionId⟩ :: tracker.joinSet
  nextConnectionId := tracker.nextConnectionId + 1

def openConnection (sends : Sends) (now : Nat) (key : ClientKey) (isLegacyStreamId : Bool) (message : JsonrpcMessage Payload)
    (seqId : Option Nat) (tracker : ClientTracker) : Outcome Payload :=
  let connectionId := tracker.nextConnectionId
  if sends.opens then
    let opened := tracker.insertClient key now isLegacyStreamId
    if sends.delivers then
      ⟨if isLegacyStreamId then opened else opened.recordInboundMessageDelivery key seqId,
        [.connectionOpened connectionId, .incomingMessage connectionId message seqId], false⟩
    else
      -- the closing is forwarded without waiting for it
      ⟨opened.removeClient key, [.connectionOpened connectionId, .connectionClosed connectionId], true⟩
  else ⟨{ tracker with nextConnectionId := connectionId + 1 }, [], true⟩

def isDuplicate (tracker : ClientTracker) (key : ClientKey) (seqId : Option Nat) : Bool :=
  match seqId, tracker.clients.get key with
  | some seqId, some client => client.lastInboundSeqId.any (fun lastSeqId => decide (seqId ≤ lastSeqId))
  | _, _ => false

def handleClientMessage (sends : Sends) (now : Nat) (key : ClientKey) (isLegacyStreamId : Bool)
    (message : JsonrpcMessage Payload) (seqId : Option Nat) (tracker : ClientTracker) : Outcome Payload :=
  let isInitialize := remoteControlMessageStartsConnection message
  if tracker.isDuplicate key seqId && !isInitialize then ⟨tracker, [], false⟩
  else
    (if isInitialize && (tracker.clients.get key).isSome then closeClient sends.closes tracker key
      else ⟨tracker, [], false⟩).andThen fun tracker =>
    match tracker.clients.get key with
    | some client => deliver sends now key client message seqId tracker
    | none =>
      if isInitialize then openConnection sends now key isLegacyStreamId message seqId tracker
      else ⟨tracker, [], false⟩

def handleMessage (sends : Sends) (now : Nat) (newRandom : StreamId) (envelope : ClientEnvelope (JsonrpcMessage Payload))
    (tracker : ClientTracker) : Outcome Payload :=
  let resolved := tracker.resolveStreamId envelope envelope.event.isInitialize newRandom
  let streamId := resolved.1
  let tracker := resolved.2
  let key := (envelope.clientId, streamId)
  if streamId.text.isEmpty then ⟨tracker, [], false⟩
  else match envelope.event with
    | .clientMessage message =>
      handleClientMessage sends now key envelope.streamId.isNone message envelope.seqId tracker
    | .clientMessageChunk _ _ _ _ | .ack _ => ⟨tracker, [], false⟩
    | .ping =>
      match tracker.clients.get key with
      | some client => ⟨{ tracker with clients := tracker.clients.put key { client with lastActivityAt := now } }, [], false⟩
      | none => ⟨tracker, [], false⟩
    | .clientClosed => closeClient sends.closes tracker key

/-! ## Sweeps and the end -/

def clientIdleTimeout : Nat := 10 * 60

def isAlive (client : ClientState) (now : Nat) : Bool := decide (now - client.lastActivityAt < clientIdleTimeout)

structure KeyOrder where
  arrange : List ClientKey → List ClientKey
  mem_arrange : ∀ keys key, key ∈ arrange keys ↔ key ∈ keys

def closeClients (closes : Nat → Bool) : List ClientKey → ClientTracker → Outcome Payload
  | [], tracker => ⟨tracker, [], false⟩
  | key :: keys, tracker => (closeClient closes tracker key).andThen (closeClients closes keys)

def closeExpiredClients (order : KeyOrder) (closes : Nat → Bool) (now : Nat) (tracker : ClientTracker) : Outcome Payload :=
  closeClients closes (order.arrange ((tracker.clients.select (fun client => !isAlive client now)).map Prod.fst)) tracker

/-- Closes every client, however the waits end, and joins every task. -/
def shutdown (order : KeyOrder) (tracker : ClientTracker) : Outcome Payload :=
  let closed := closeClients (fun _ => true) (order.arrange (tracker.clients.map Prod.fst)) tracker
  { closed with tracker := { closed.tracker with joinSet := [] } }

end ClientTracker

inductive ReaderInput (Payload : Type)
  | message (envelope : ClientEnvelope (JsonrpcMessage Payload)) (sends : Sends) (now : Nat) (newRandom : StreamId)
  | taskEnded (task : OutboundTask) (closes : Nat → Bool)
  /-- A task that panicked is joined and reports nothing. -/
  | taskFailed (task : OutboundTask)
  | idleSweep (now : Nat) (closes : Nat → Bool)
  | shutdown

namespace ReaderInput

def step (order : ClientTracker.KeyOrder) (tracker : ClientTracker) : ReaderInput Payload → Outcome Payload
  | .message envelope sends now newRandom => tracker.handleMessage sends now newRandom envelope
  | .taskEnded task closes =>
    if task ∈ tracker.joinSet then
      ({ tracker with joinSet := tracker.joinSet.erase task } : ClientTracker).closeClient closes task.key
    else ⟨tracker, [], false⟩
  | .taskFailed task => ⟨{ tracker with joinSet := tracker.joinSet.erase task }, [], false⟩
  | .idleSweep now closes => tracker.closeExpiredClients order closes now
  | .shutdown => tracker.shutdown order

/-- A run.  A reader that stops is followed by another over the same tracker. -/
def runAll (order : ClientTracker.KeyOrder) : ClientTracker → List (ReaderInput Payload) → Outcome Payload
  | tracker, [] => ⟨tracker, [], false⟩
  | tracker, input :: inputs =>
    let outcome := input.step order tracker
    let rest := runAll order outcome.tracker inputs
    ⟨rest.tracker, outcome.events ++ rest.events, false⟩

end ReaderInput

end Owc.Remote
