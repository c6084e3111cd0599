import OpenWebCodex.Base64
import OpenWebCodex.Chunks
import OpenWebCodex.RemoteProtocol
/-!
# RemoteSplit — a message of the server, cut into chunks that fit the wire

An envelope that is too long is sent as chunks of its message.  The size of the chunks is searched for: it shrinks until
every chunk fits, and drops to one byte where one more chunk would not make the chunks smaller.
-/
namespace Owc.Remote

open Chunks (divCeil chunksOf)

/-! ## The length of an envelope in JSON -/

def decimalLen (n : Nat) : Nat := (Nat.toDigits 10 n).length

def escapedLen (c : Char) : Nat :=
  if c = '"' ∨ c = '\\' ∨ c = '\x08' ∨ c = '\x0c' ∨ c = '\n' ∨ c = '\r' ∨ c = '\t' then 2
  else if c.toNat < 0x20 then 6
  else c.utf8Size

def jsonStringLen (s : Str) : Nat := 2 + (s.map escapedLen).sum

structure Serializer (Message : Type) where
  toVec : Message → List UInt8
  toVec_ne_nil : ∀ message, toVec message ≠ []

variable {Message : Type}

/-- The fields after the event, and the closing brace. -/
def addressLen (envelope : ServerEnvelope Message) : Nat :=
  ",\"client_id\":".length + jsonStringLen envelope.clientId.text + ",\"stream_id\":".length +
    jsonStringLen envelope.streamId.text + ",\"seq_id\":".length + decimalLen envelope.seqId + 1

def serializedLen (serializer : Serializer Message) (envelope : ServerEnvelope Message) : Nat :=
  addressLen envelope + match envelope.event with
    | .serverMessage message => "\x7b\"type\":\"server_message\",\"message\":".length + (serializer.toVec message).length
    | .serverMessageChunk segmentId segmentCount messageSizeBytes messageChunkBase64 =>
      "\x7b\"type\":\"server_message_chunk\",\"segment_id\":".length + decimalLen segmentId + ",\"segment_count\":".length +
        decimalLen segmentCount + ",\"message_size_bytes\":".length + decimalLen messageSizeBytes +
        ",\"message_chunk_base64\":".length + jsonStringLen messageChunkBase64
    | .ack => "\x7b\"type\":\"ack\"".length
    | .pong .active => "\x7b\"type\":\"pong\",\"status\":\"active\"".length
    | .pong .unknown => "\x7b\"type\":\"pong\",\"status\":\"unknown\"".length

/-! ## Splitting -/

def segmentCountExceedsMaximum : Str := "remote-control segment count exceeds maximum".toList

def buildChunkEnvelope (envelope : ServerEnvelope Message) (segmentId segmentCount messageSizeBytes : Nat)
    (chunk : List UInt8) : Except Str (ServerEnvelope Message) :=
  if segmentCountMax < segmentCount then .error segmentCountExceedsMaximum
  else .ok
    { envelope with
      event := .serverMessageChunk segmentId segmentCount messageSizeBytes (Base64.encode chunk) }

def serializedChunkLen (serializer : Serializer Message) (envelope : ServerEnvelope Message)
    (segmentId segmentCount messageSizeBytes : Nat) (chunk : List UInt8) : Except Str Nat :=
  (buildChunkEnvelope envelope segmentId segmentCount messageSizeBytes chunk).map (serializedLen serializer)

def isOkAnd {ε α : Type} (p : α → Bool) : Except ε α → Bool
  | .ok a => p a
  | .error _ => false

def segmentsFit (serializer : Serializer Message) (envelope : ServerEnvelope Message) (raw : List UInt8) (chunkSize : Nat) :
    Bool :=
  (chunksOf chunkSize raw).zipIdx.all (fun chunk =>
    isOkAnd (fun size => decide (size ≤ segmentMaxBytes))
      (serializedChunkLen serializer envelope chunk.2 (divCeil raw.length chunkSize) raw.length chunk.1))

def buildSegments (envelope : ServerEnvelope Message) (raw : List UInt8) (chunkSize : Nat) :
    Except Str (List (ServerEnvelope Message)) :=
  (chunksOf chunkSize raw).zipIdx.mapM (fun chunk =>
    buildChunkEnvelope envelope chunk.2 (divCeil raw.length chunkSize) raw.length chunk.1)

def chunkSizeFor (size segmentCount : Nat) : Nat := max 1 (divCeil size segmentCount)

/-- The loop over segment counts; `none` where the fuel does not last. -/
def splitLoop (serializer : Serializer Message) (envelope : ServerEnvelope Message) (raw : List UInt8) :
    Nat → Nat → Option (Except Str (List (ServerEnvelope Message)))
  | 0, _ => none
  | fuel + 1, segmentCount =>
    let chunkSize := chunkSizeFor raw.length segmentCount
    let segmentCount := divCeil raw.length chunkSize
    if segmentsFit serializer envelope raw chunkSize then some (buildSegments envelope raw chunkSize)
    else if chunkSize = 1 then some (.ok [])
    else
      let nextSegmentCount := segmentCount + 1
      let nextChunkSize := chunkSizeFor raw.length nextSegmentCount
      splitLoop serializer envelope raw fuel (if nextChunkSize = chunkSize then raw.length else nextSegmentCount)

def initialSegmentCount (size : Nat) : Nat := max 2 (divCeil size segmentTargetBytes)

def minimalChunkFits (serializer : Serializer Message) (envelope : ServerEnvelope Message) (raw : List UInt8) :
    Except Str Bool :=
  (serializedChunkLen serializer envelope 0 (min (max raw.length 1) segmentCountMax) raw.length (raw.take 1)).map
    (fun size => decide (size ≤ segmentMaxBytes))

def splitServerEnvelopeForTransport (serializer : Serializer Message) (envelope : ServerEnvelope Message) :
    Option (Except Str (List (ServerEnvelope Message))) :=
  match envelope.event with
  | .serverMessage message =>
    if serializedLen serializer envelope ≤ segmentMaxBytes then some (.ok [envelope])
    else
      let raw := serializer.toVec message
      if reassembledMaxBytes < raw.length then some (.ok [])
      else match minimalChunkFits serializer envelope raw with
        | .error message => some (.error message)
        | .ok false => some (.ok [])
        | .ok true => splitLoop serializer envelope raw (raw.length + 1) (initialSegmentCount raw.length)
  | _ => some (.ok [envelope])

end Owc.Remote
