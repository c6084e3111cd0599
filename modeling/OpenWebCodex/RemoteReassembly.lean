import OpenWebCodex.RemoteProtocol
import OpenWebCodex.Table
/-!
# RemoteReassembly — the messages of clients, put together from their chunks

Each client has at most one message in assembly.  Chunks are taken in order; what does not fit drops the assembly, and when
too many clients assemble the one that was seen longest ago is dropped.
-/
namespace Owc.Remote

structure ClientSegmentMetadata where
  seqId : Nat
  segmentCount : Nat
  messageSizeBytes : Nat
deriving DecidableEq

structure ClientSegmentAssembly where
  streamId : StreamId
  metadata : ClientSegmentMetadata
  raw : List UInt8
  nextSegmentId : Nat
  lastChunkSeenAt : Nat
deriving DecidableEq

abbrev Assemblies := Table ClientId ClientSegmentAssembly

inductive ClientSegmentObservation (Message : Type)
  | forward (envelope : ClientEnvelope Message)
  | pending
  | dropped
deriving DecidableEq

/-- What becomes of an assembly when a chunk for it arrives. -/
inductive AssemblyUpdate (Message : Type)
  | pending (assembly : ClientSegmentAssembly)
  | ignore
  | drop
  | complete (message : Message)

/-- Which assembly a map finds first among those seen longest ago. -/
structure MapOrder where
  oldest : Assemblies → Option ClientId
  oldest_spec : ∀ assemblies : Assemblies, assemblies ≠ [] → ∃ clientId assembly, oldest assemblies = some clientId ∧
    assemblies.get clientId = some assembly ∧
    ∀ other later, assemblies.get other = some later → assembly.lastChunkSeenAt ≤ later.lastChunkSeenAt

def listOrder : MapOrder where
  oldest assemblies := (assemblies.map Prod.fst).argmin (fun clientId =>
    ((Table.get assemblies clientId).map (·.lastChunkSeenAt)).getD 0)
  oldest_spec := by
    intro assemblies hne
    have hsome : ∀ clientId ∈ assemblies.map Prod.fst, ∃ assembly, Table.get assemblies clientId = some assembly := by
      intro clientId hmem
      obtain ⟨entry, hentry, rfl⟩ := List.mem_map.1 hmem
      exact Option.isSome_iff_exists.1 (Table.isSome_get_of_mem hentry)
    cases holdest : (assemblies.map Prod.fst).argmin (fun clientId =>
        ((Table.get assemblies clientId).map (·.lastChunkSeenAt)).getD 0) with
    | none => exact absurd (List.map_eq_nil_iff.1 (List.argmin_eq_none.1 holdest)) hne
    | some clientId =>
      obtain ⟨assembly, hget⟩ := hsome clientId (List.argmin_mem holdest)
      refine ⟨clientId, assembly, rfl, hget, fun other later hother => ?_⟩
      have hle := List.le_of_mem_argmin (List.mem_map_of_mem (Table.mem_of_get hother)) holdest
      simpa [hget, hother] using hle

def evictAssembliesIfFull (order : MapOrder) : Nat → Assemblies → Assemblies
  | 0, assemblies => assemblies
  | fuel + 1, assemblies =>
    if segmentAssemblyMaxCount ≤ assemblies.length then
      match order.oldest assemblies with
      | some clientId => evictAssembliesIfFull order fuel (assemblies.erase clientId)
      | none => assemblies
    else assemblies

def removeAssembly (assemblies : Assemblies) (clientId : ClientId) (streamId : StreamId) : Assemblies :=
  if (assemblies.get clientId).any (·.streamId == streamId) then assemblies.erase clientId else assemblies

def shouldIgnoreChunk (assemblies : Assemblies) (clientId : ClientId) (streamId : StreamId) (seqId segmentId : Nat) : Bool :=
  (assemblies.get clientId).any (fun assembly =>
    assembly.streamId == streamId &&
      (decide (seqId < assembly.metadata.seqId) ||
        (seqId == assembly.metadata.seqId && decide (segmentId < assembly.nextSegmentId))))

def invalidChunk (metadata : ClientSegmentMetadata) (segmentId : Nat) (messageChunkBase64 : Str) : Bool :=
  metadata.segmentCount == 0 || decide (segmentCountMax < metadata.segmentCount) ||
    decide (metadata.segmentCount ≤ segmentId) || metadata.messageSizeBytes == 0 ||
    decide (reassembledMaxBytes < metadata.messageSizeBytes) || messageChunkBase64.isEmpty

def prepareAssembly (order : MapOrder) (now : Nat) (assemblies : Assemblies) (clientId : ClientId) (streamId : StreamId)
    (metadata : ClientSegmentMetadata) : Assemblies :=
  let fresh : ClientSegmentAssembly := ⟨streamId, metadata, [], 0, now⟩
  match assemblies.get clientId with
  | some assembly => if assembly.streamId != streamId then assemblies.put clientId fresh else assemblies
  | none => (evictAssembliesIfFull order assemblies.length assemblies).put clientId fresh

section Observe

variable {Message : Type} (codec : Codec Message) (order : MapOrder)

/-- `decode_slice` into the room between the end of `raw` and the end the chunk may have. -/
def decodeInto (metadata : ClientSegmentMetadata) (raw : List UInt8) (messageChunkBase64 : Str) : Option (List UInt8) :=
  let chunkStart := raw.length
  let chunkEnd := min metadata.messageSizeBytes (chunkStart + codec.decodedLenEstimate (Str.utf8Len messageChunkBase64))
  (codec.decode messageChunkBase64).filter (fun bytes => decide (bytes.length ≤ chunkEnd - chunkStart))

def advanceAssembly (now : Nat) (assembly : ClientSegmentAssembly) (metadata : ClientSegmentMetadata) (segmentId : Nat)
    (messageChunkBase64 : Str) : AssemblyUpdate Message :=
  if metadata.seqId < assembly.metadata.seqId then .ignore
  else if assembly.metadata ≠ metadata then .drop
  else if segmentId < assembly.nextSegmentId then .pending assembly
  else if segmentId ≠ assembly.nextSegmentId then .drop
  else match decodeInto codec metadata assembly.raw messageChunkBase64 with
    | none => .drop
    | some bytes =>
      let raw := assembly.raw ++ bytes
      let nextSegmentId := assembly.nextSegmentId + 1
      if nextSegmentId < metadata.segmentCount then
        .pending { assembly with raw, nextSegmentId, lastChunkSeenAt := now }
      else if raw.length ≠ metadata.messageSizeBytes then .drop
      else match codec.parse raw with
        | some message => .complete message
        | none => .drop

def observeChunk (now : Nat) (assemblies : Assemblies) (envelope : ClientEnvelope Message) (streamId : StreamId)
    (metadata : ClientSegmentMetadata) (segmentId : Nat) (messageChunkBase64 : Str) :
    Assemblies × ClientSegmentObservation Message :=
  if shouldIgnoreChunk assemblies envelope.clientId streamId metadata.seqId segmentId then (assemblies, .dropped)
  else if invalidChunk metadata segmentId messageChunkBase64 then
    (removeAssembly assemblies envelope.clientId streamId, .dropped)
  else
    let prepared := prepareAssembly order now assemblies envelope.clientId streamId metadata
    match prepared.get envelope.clientId with
    | none => (prepared, .dropped)
    | some assembly =>
      match advanceAssembly codec now assembly metadata segmentId messageChunkBase64 with
      | .pending assembly => (prepared.put envelope.clientId assembly, .pending)
      | .ignore => (prepared, .dropped)
      | .drop => (removeAssembly prepared envelope.clientId streamId, .dropped)
      | .complete message =>
        (removeAssembly prepared envelope.clientId streamId, .forward { envelope with event := .clientMessage message })

def observe (now : Nat) (assemblies : Assemblies) (envelope : ClientEnvelope Message) :
    Assemblies × ClientSegmentObservation Message :=
  match envelope.event with
  | .clientMessageChunk segmentId segmentCount messageSizeBytes messageChunkBase64 =>
    match envelope.seqId, envelope.streamId with
    | some seqId, some streamId =>
      observeChunk codec order now assemblies envelope streamId ⟨seqId, segmentCount, messageSizeBytes⟩ segmentId
        messageChunkBase64
    | _, _ => (assemblies, .dropped)
  | _ => (assemblies, .forward envelope)

def invalidateStream (assemblies : Assemblies) (clientId : ClientId) (streamId : StreamId) : Assemblies :=
  removeAssembly assemblies clientId streamId

def invalidateClient (assemblies : Assemblies) (clientId : ClientId) : Assemblies := assemblies.erase clientId

inductive Input (Message : Type)
  | observe (now : Nat) (envelope : ClientEnvelope Message)
  | invalidateStream (clientId : ClientId) (streamId : StreamId)
  | invalidateClient (clientId : ClientId)

def step (assemblies : Assemblies) : Input Message → Assemblies × Option (ClientSegmentObservation Message)
  | .observe now envelope =>
    let result := observe codec order now assemblies envelope
    (result.1, some result.2)
  | .invalidateStream clientId streamId => (Remote.invalidateStream assemblies clientId streamId, none)
  | .invalidateClient clientId => (Remote.invalidateClient assemblies clientId, none)

def runAll : Assemblies → List (Input Message) → Assemblies × List (Option (ClientSegmentObservation Message))
  | assemblies, [] => (assemblies, [])
  | assemblies, input :: inputs =>
    let next := step codec order assemblies input
    let rest := runAll next.1 inputs
    (rest.1, next.2 :: rest.2)

end Observe

end Owc.Remote
