import OpenWebCodex.Text
/-!
# RemoteProtocol — the envelopes of remote control

A client names itself and, unless it is an old one, a stream; its envelopes carry messages, chunks of messages, and the
events of the connection.  The server's envelopes go to a client and a stream under a sequence number.
-/
namespace Owc.Remote

structure ClientId where
  text : Str
deriving DecidableEq

structure StreamId where
  text : Str
deriving DecidableEq

inductive ClientEvent (Message : Type)
  | clientMessage (message : Message)
  | clientMessageChunk (segmentId segmentCount messageSizeBytes : Nat) (messageChunkBase64 : Str)
  | ack (segmentId : Option Nat)
  | ping
  | clientClosed
deriving DecidableEq

structure ClientEnvelope (Message : Type) where
  event : ClientEvent Message
  clientId : ClientId
  streamId : Option StreamId
  seqId : Option Nat
  cursor : Option Str
deriving DecidableEq

inductive PongStatus
  | active
  | unknown

inductive ServerEvent (Message : Type)
  | serverMessage (message : Message)
  | serverMessageChunk (segmentId segmentCount messageSizeBytes : Nat) (messageChunkBase64 : Str)
  | ack
  | pong (status : PongStatus)

structure ServerEnvelope (Message : Type) where
  event : ServerEvent Message
  clientId : ClientId
  streamId : StreamId
  seqId : Nat

/-- What the model takes from the base64 and JSON crates. -/
structure Codec (Message : Type) where
  decode : Str → Option (List UInt8)
  decodedLenEstimate : Nat → Nat
  parse : List UInt8 → Option Message
  /-- The estimate bounds the decoded length. -/
  length_decode_le : ∀ text bytes, decode text = some bytes → bytes.length ≤ decodedLenEstimate (Str.utf8Len text)

def segmentTargetBytes : Nat := 100 * 1024
def segmentMaxBytes : Nat := 150 * 1024
def reassembledMaxBytes : Nat := 100 * 1024 * 1024
def segmentCountMax : Nat := 1024
def segmentAssemblyMaxCount : Nat := 128

end Owc.Remote
