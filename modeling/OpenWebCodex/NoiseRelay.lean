import OpenWebCodex.Chunks
import OpenWebCodex.Framing
import OpenWebCodex.Table
import OpenWebCodex.Text
/-!
# NoiseRelay — one virtual stream over a relay that may reorder and repeat

A message is framed, cut into records, and each record is encrypted under an implicit nonce and numbered.  The receiver puts the
ciphertexts in order before it decrypts them, and reads the messages from the records.
-/
namespace Owc.Noise

/-- What the model takes from the Noise channel and from serde. -/
structure Crypto (Message : Type) where
  encrypt : Nat → List UInt8 → Option (List UInt8)
  decrypt : Nat → List UInt8 → Except Str (List UInt8)
  toVec : Message → List UInt8
  fromSlice : List UInt8 → Except Str Message

/-- Decryption inverts encryption record by record, and a message is read back from its JSON, which is not empty. -/
structure Crypto.Lawful {Message : Type} (crypto : Crypto Message) : Prop where
  decrypt_encrypt : ∀ nonce plaintext ciphertext, crypto.encrypt nonce plaintext = some ciphertext →
    crypto.decrypt nonce ciphertext = .ok plaintext
  fromSlice_toVec : ∀ message, crypto.fromSlice (crypto.toVec message) = .ok message
  toVec_ne_nil : ∀ message, crypto.toVec message ≠ []

def maxReorderDistance : Nat := 64
def maxPendingBytes : Nat := 1024 * 1024
def maxJsonrpcMessageLen : Nat := 64 * 1024 * 1024
def recordPlaintextLen : Nat := 60 * 1024
/-- One more than the last number of a `u32`. -/
def seqLimit : Nat := 2 ^ 32

def exceedsReorderWindow : Str := "Noise relay ciphertext exceeds reorder window".toList
def pendingBufferFull : Str := "Noise relay pending ciphertext buffer is full".toList
def sequenceExhausted : Str := "Noise relay sequence number exhausted".toList
def messageExceedsMaximum : Str := "Noise relay JSON-RPC message exceeds maximum length".toList
def recordExceedsMaximum : Str := "Noise relay plaintext record exceeds maximum length".toList
def messageInvalidLength : Str := "Noise relay JSON-RPC message has invalid length".toList
def reassemblyExceedsMaximum : Str := "Noise relay JSON-RPC reassembly buffer exceeds maximum length".toList
def decryptionFailed (error : Str) : Str := "Noise relay decryption failed: ".toList ++ error
def inboundQueueFull : Str := "Noise virtual stream inbound queue is full or closed".toList

/-! ## Order -/

structure OrderedCiphertextFrames where
  nextSeq : Nat := 0
  pending : Table Nat (List UInt8) := []
  pendingBytes : Nat := 0

namespace OrderedCiphertextFrames

def advance (frames : OrderedCiphertextFrames) : Except Str OrderedCiphertextFrames :=
  if frames.nextSeq + 1 < seqLimit then .ok { frames with nextSeq := frames.nextSeq + 1 } else .error sequenceExhausted

def takePending (frames : OrderedCiphertextFrames) (payload : List UInt8) : OrderedCiphertextFrames :=
  { frames with
    pending := frames.pending.erase frames.nextSeq
    pendingBytes := frames.pendingBytes - payload.length }

def release : Nat → OrderedCiphertextFrames → List (List UInt8) →
    OrderedCiphertextFrames × Except Str (List (List UInt8))
  | 0, frames, ready => (frames, .ok ready)
  | fuel + 1, frames, ready =>
    match frames.pending.get frames.nextSeq with
    | none => (frames, .ok ready)
    | some payload =>
      match (frames.takePending payload).advance with
      | .error e => (frames.takePending payload, .error e)
      | .ok next => release fuel next (ready ++ [payload])

def push (frames : OrderedCiphertextFrames) (seq : Nat) (payload : List UInt8) :
    OrderedCiphertextFrames × Except Str (List (List UInt8)) :=
  if seq < frames.nextSeq ∨ (frames.pending.get seq).isSome then (frames, .ok [])
  else if frames.nextSeq < seq then
    if maxReorderDistance < seq - frames.nextSeq then (frames, .error exceedsReorderWindow)
    else if maxPendingBytes < frames.pendingBytes + payload.length then (frames, .error pendingBufferFull)
    else
      ({ frames with
          pending := frames.pending.put seq payload
          pendingBytes := frames.pendingBytes + payload.length }, .ok [])
  else
    match frames.advance with
    | .error e => (frames, .error e)
    | .ok next => release frames.pending.length next [payload]

/-- One record after another, up to the first that is refused; what was released in all. -/
def pushAll : OrderedCiphertextFrames → List (Nat × List UInt8) → OrderedCiphertextFrames × Except Str (List (List UInt8))
  | frames, [] => (frames, .ok [])
  | frames, (seq, payload) :: arrivals =>
    match frames.push seq payload with
    | (next, .error e) => (next, .error e)
    | (next, .ok ready) =>
      let rest := pushAll next arrivals
      (rest.1, rest.2.map (ready ++ ·))

end OrderedCiphertextFrames

/-! ## Messages -/

variable {Message : Type}

def frameJsonrpcMessage (crypto : Crypto Message) (message : Message) : Except Str (List UInt8) :=
  if maxJsonrpcMessageLen < (crypto.toVec message).length then .error messageExceedsMaximum
  else .ok (Framing.frame (crypto.toVec message))

def reader (crypto : Crypto Message) : Framing.Reader Str Message where
  parse := crypto.fromSlice
  invalidLength := messageInvalidLength
  maxLength := maxJsonrpcMessageLen

/-- `JsonRpcMessageDecoder::push`: the messages, and what stays buffered. -/
def decoderPush (crypto : Crypto Message) (buffered plaintextRecord : List UInt8) : Except Str (List Message × List UInt8) :=
  if recordPlaintextLen < plaintextRecord.length then .error recordExceedsMaximum
  else
    let buffered := buffered ++ plaintextRecord
    match Framing.drain (reader crypto) buffered.length buffered with
    | .error e => .error e
    | .ok (messages, left) =>
      if 4 + maxJsonrpcMessageLen < left.length then .error reassemblyExceedsMaximum else .ok (messages, left)

/-! ## The stream -/

/-- The receiving half: the order, the receive nonce, the decoder's buffer, and what was queued for the connection. -/
structure NoiseVirtualStream (Message : Type) where
  inboundCiphertexts : OrderedCiphertextFrames := {}
  receiveNonce : Nat := 0
  buffered : List UInt8 := []
  incoming : List Message := []

def queueAll (hasRoom : List Message → Bool) : List Message → List Message → Except Str (List Message)
  | incoming, [] => .ok incoming
  | incoming, message :: messages =>
    if hasRoom incoming then queueAll hasRoom (incoming ++ [message]) messages else .error inboundQueueFull

def receiveCiphertext (crypto : Crypto Message) (hasRoom : List Message → Bool) (stream : NoiseVirtualStream Message)
    (ciphertext : List UInt8) : Except Str (NoiseVirtualStream Message) :=
  match crypto.decrypt stream.receiveNonce ciphertext with
  | .error e => .error (decryptionFailed e)
  | .ok plaintext =>
    match decoderPush crypto stream.buffered plaintext with
    | .error e => .error e
    | .ok (messages, left) =>
      match queueAll hasRoom stream.incoming messages with
      | .error e => .error e
      | .ok incoming => .ok { stream with receiveNonce := stream.receiveNonce + 1, buffered := left, incoming := incoming }

def receiveCiphertexts (crypto : Crypto Message) (hasRoom : List Message → Bool) :
    NoiseVirtualStream Message → List (List UInt8) → Except Str (NoiseVirtualStream Message)
  | stream, [] => .ok stream
  | stream, ciphertext :: ciphertexts =>
    match receiveCiphertext crypto hasRoom stream ciphertext with
    | .error e => .error e
    | .ok next => receiveCiphertexts crypto hasRoom next ciphertexts

def receiveData (crypto : Crypto Message) (hasRoom : List Message → Bool) (stream : NoiseVirtualStream Message)
    (seq : Nat) (payload : List UInt8) : Except Str (NoiseVirtualStream Message) :=
  match stream.inboundCiphertexts.push seq payload with
  | (_, .error e) => .error e
  | (frames, .ok ready) => receiveCiphertexts crypto hasRoom { stream with inboundCiphertexts := frames } ready

/-- A stream is reset at its first error. -/
def receiveAll (crypto : Crypto Message) (hasRoom : List Message → Bool) :
    NoiseVirtualStream Message → List (Nat × List UInt8) → Except Str (NoiseVirtualStream Message)
  | stream, [] => .ok stream
  | stream, (seq, payload) :: arrivals =>
    match receiveData crypto hasRoom stream seq payload with
    | .error e => .error e
    | .ok next => receiveAll crypto hasRoom next arrivals

/-! ## The writer -/

def takeNextSequence (nextSeq : Nat) : Except Str (Nat × Nat) :=
  if nextSeq + 1 < seqLimit then .ok (nextSeq, nextSeq + 1) else .error sequenceExhausted

/-- Numbers and encrypts records, each under the next nonce; the frames, and where it stands if it did not break off. -/
def writeRecords (crypto : Crypto Message) : Nat × Nat → List (List UInt8) → List (Nat × List UInt8) × Option (Nat × Nat)
  | state, [] => ([], some state)
  | (nextSeq, sendNonce), record :: records =>
    match takeNextSequence nextSeq with
    | .error _ => ([], none)
    | .ok (seq, nextSeq) =>
      match crypto.encrypt sendNonce record with
      | none => ([], none)
      | some ciphertext =>
        let rest := writeRecords crypto (nextSeq, sendNonce + 1) records
        ((seq, ciphertext) :: rest.1, rest.2)

def writeMessages (crypto : Crypto Message) : Nat × Nat → List Message → List (Nat × List UInt8) × Option (Nat × Nat)
  | state, [] => ([], some state)
  | state, message :: messages =>
    match frameJsonrpcMessage crypto message with
    | .error _ => ([], none)
    | .ok framed =>
      match writeRecords crypto state (Chunks.chunksOf recordPlaintextLen framed) with
      | (frames, none) => (frames, none)
      | (frames, some state) =>
        let rest := writeMessages crypto state messages
        (frames ++ rest.1, rest.2)

end Owc.Noise
