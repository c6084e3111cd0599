import OpenWebCodex.NoiseRelayOrder
/-!
# NoiseRelayDeliver — the messages that were sent are the messages that are received

The records are a cut of the framed messages, whatever cut; the receiver's decoder has read from the records it was given what
can be read from their bytes.
-/
namespace Owc.Noise

open List Framing Nat
open Arrivals OrderedCiphertextFrames

variable {Message : Type}

/-! ## Records -/

/-- **A cut of framed messages into records** of at most the length of a record. -/
structure Cut (crypto : Crypto Message) (messages : List Message) (records : List (List UInt8)) : Prop where
  bytes : records.flatten = (messages.map (fun message => Framing.frame (crypto.toVec message))).flatten
  messageMax : ∀ message ∈ messages, (crypto.toVec message).length ≤ maxJsonrpcMessageLen
  recordMax : ∀ record ∈ records, record.length ≤ recordPlaintextLen

def Sealed (crypto : Crypto Message) (records ciphertexts : List (List UInt8)) : Prop :=
  ciphertexts.length = records.length ∧
    ∀ i record, records[i]? = some record → ∃ ciphertext, ciphertexts[i]? = some ciphertext ∧
      crypto.encrypt i record = some ciphertext

def readAll (crypto : Crypto Message) (bytes : List UInt8) : Except Str (List Message × List UInt8) :=
  Framing.drain (reader crypto) bytes.length bytes

section ReadAll

variable {crypto : Crypto Message}

theorem readAll_append (first second : List UInt8) : readAll crypto (first ++ second) = (readAll crypto first).bind fun texts =>
      (readAll crypto (texts.2 ++ second)).map fun later => (texts.1 ++ later.1, later.2) := by
  unfold readAll
  rw [drain_append (reader crypto) first second (le_refl _),
    drain_fuel (reader crypto) first (length_append ▸ le_add_right _ _) (le_refl _)]
  cases hfirst : drain (reader crypto) first.length first with
  | error => rfl
  | ok texts =>
    have hleft := (left_of_drain (reader crypto) (le_refl _) hfirst).1
    simp only [Except.bind]
    rw [drain_fuel (reader crypto) (texts.2 ++ second) _ (le_refl _)]
    rw [length_append, length_append]
    omega

theorem readAll_left
    (h : readAll crypto (first ++ second) = .ok texts) : ∃ before, readAll crypto first = .ok before := by
  rw [readAll_append] at h
  cases hfirst : readAll crypto first with
  | error => simp [hfirst, Except.bind] at h
  | ok before => exact ⟨before, rfl⟩

theorem Cut.readAll (h : Cut crypto messages records)
    (hlawful : crypto.Lawful) : readAll crypto records.flatten = .ok (messages, []) := by
  have hbytes : records.flatten = ((messages.map crypto.toVec).map frame).flatten := by
    rw [h.bytes, map_map]
    rfl
  rw [hbytes]
  refine drain_frames (reader crypto) (show maxJsonrpcMessageLen < 4294967296 by decide) ?_ (le_refl _)
  rw [forall₂_map_left_iff, forall₂_same]
  intro message hmessage
  exact ⟨length_pos_iff.2 (hlawful.toVec_ne_nil message), h.messageMax message hmessage, hlawful.fromSlice_toVec message⟩

theorem decoderPush_eq {bytes record before after}
    (hbefore : readAll crypto bytes = .ok before) (hafter : readAll crypto (bytes ++ record) = .ok after)
    (hrecord : record.length ≤ recordPlaintextLen) :
    ∃ messages, decoderPush crypto before.2 record = .ok (messages, after.2) ∧ after.1 = before.1 ++ messages := by
  rw [readAll_append, hbefore] at hafter
  simp only [Except.bind] at hafter
  cases hread : readAll crypto (before.2 ++ record) with
  | error =>
    rw [hread] at hafter
    cases hafter
  | ok read =>
    rw [hread] at hafter
    cases hafter
    have hleft := (left_of_drain (reader crypto) (le_refl _) hread).2
    refine ⟨read.1, ?_, rfl⟩
    unfold decoderPush
    rw [if_neg (not_lt.2 hrecord)]
    dsimp only
    rw [readAll] at hread
    rw [hread]
    exact if_neg (not_lt.2 (le_of_lt hleft))

end ReadAll

theorem queueAll_eq {hasRoom : List Message → Bool} (hroom : ∀ queued, hasRoom queued)
    (incoming messages : List Message) : queueAll hasRoom incoming messages = .ok (incoming ++ messages) := by
  induction messages generalizing incoming with
  | nil => rw [append_nil]; rfl
  | cons message messages ih =>
    rw [queueAll, if_pos (hroom incoming), ih, append_assoc]
    rfl

/-! ## The receiver -/

structure Received (crypto : Crypto Message) (records : List (List UInt8)) (count : Nat)
    (stream : NoiseVirtualStream Message) : Prop where
  nonce : stream.receiveNonce = count
  read : readAll crypto (records.take count).flatten = .ok (stream.incoming, stream.buffered)

section Receive

variable {crypto : Crypto Message} {hasRoom : List Message → Bool} {messages : List Message}
  {records ciphertexts : List (List UInt8)}

variable {stream : NoiseVirtualStream Message}

section

variable (hlawful : crypto.Lawful) (hroom : ∀ queued, hasRoom queued = true) (hcut : Cut crypto messages records)
  (hsealed : Sealed crypto records ciphertexts) {count : Nat} (h : Received crypto records count stream)
include hlawful hroom hcut hsealed h

theorem Received.step {ciphertext} (hciphertext : ciphertexts[count]? = some ciphertext) :
    ∃ next, receiveCiphertext crypto hasRoom stream ciphertext = .ok next ∧ Received crypto records (count + 1) next ∧
      next.inboundCiphertexts = stream.inboundCiphertexts := by
  have hlt : count < records.length := by
    rw [← hsealed.1]
    exact (List.getElem?_eq_some_iff.1 hciphertext).1
  obtain ⟨record, hrecord⟩ : ∃ record, records[count]? = some record := ⟨_, getElem?_eq_getElem hlt⟩
  obtain ⟨sealedRecord, hsealedRecord, hencrypt⟩ := hsealed.2 count record hrecord
  obtain rfl : sealedRecord = ciphertext := Option.some.inj (hsealedRecord.symm.trans hciphertext)
  have htake : (records.take (count + 1)).flatten = (records.take count).flatten ++ record := by
    rw [take_add_one, hrecord, flatten_append]
    simp
  -- what was read so far is a first part of what can be read in all
  have hall := hcut.readAll hlawful
  rw [← take_append_drop (count + 1) records, flatten_append] at hall
  obtain ⟨after, hafter⟩ := readAll_left hall
  rw [htake] at hafter
  obtain ⟨read, hpush, hmessages⟩ := decoderPush_eq h.read hafter (hcut.recordMax record (mem_of_getElem? hrecord))
  refine ⟨{ stream with receiveNonce := stream.receiveNonce + 1, buffered := after.2, incoming := stream.incoming ++ read },
    ?_, ⟨by rw [h.nonce], ?_⟩, rfl⟩
  · unfold receiveCiphertext
    rw [h.nonce, hlawful.decrypt_encrypt count record sealedRecord hencrypt]
    dsimp only at hpush ⊢
    rw [hpush]
    dsimp only
    rw [queueAll_eq hroom]
  · rw [htake, hafter, ← hmessages]

theorem Received.steps
    (hready : ∀ i ciphertext, ready[i]? = some ciphertext → ciphertexts[count + i]? = some ciphertext) :
    ∃ next, receiveCiphertexts crypto hasRoom stream ready = .ok next ∧ Received crypto records (count + ready.length) next ∧
      next.inboundCiphertexts = stream.inboundCiphertexts := by
  induction ready generalizing count stream with
  | nil => exact ⟨stream, rfl, h, rfl⟩
  | cons ciphertext ready ih =>
    obtain ⟨_, hreceive, hnext, hsame⟩ := h.step hlawful hroom hcut hsealed (hready 0 ciphertext rfl)
    obtain ⟨last, hlast, hfinal, hsameLast⟩ := ih hnext fun i other hother => by
      rw [add_assoc, add_comm 1 i]
      exact hready (i + 1) other hother
    refine ⟨last, ?_, ?_, hsameLast.trans hsame⟩
    · rw [receiveCiphertexts, hreceive]
      exact hlast
    · rw [length_cons, add_comm ready.length 1, ← add_assoc]
      exact hfinal

end

variable {arrivals : List (Nat × List UInt8)}

section

variable {start count : Nat} (hsome : ∀ seq < start + count, (firstCopy arrivals seq).isSome)
include hsome

theorem getElem?_copies (hgenuine : ∀ seq payload, firstCopy arrivals seq = some payload → ciphertexts[seq]? = some payload)
    (i : Nat) (h : (copies arrivals start count)[i]? = some ciphertext) :
    ciphertexts[start + i]? = some ciphertext := by
  induction count generalizing start i with
  | zero => cases h
  | succ count ih =>
    obtain ⟨first, hfirst⟩ := Option.isSome_iff_exists.1 (hsome start (by omega))
    rw [copies_succ hfirst] at h
    cases i with
    | zero =>
      cases h
      exact hgenuine start _ hfirst
    | succ i =>
      have hrest := ih (fun seq hlt => hsome seq (by omega)) i h
      rwa [add_assoc, add_comm 1 i] at hrest

theorem length_copies : (copies arrivals start count).length = count := by
  induction count generalizing start with
  | zero => rfl
  | succ count ih =>
    obtain ⟨first, hfirst⟩ := Option.isSome_iff_exists.1 (hsome start (by omega))
    rw [copies_succ hfirst, length_cons, ih fun seq hlt => hsome seq (by omega)]

end

/-- **A stream after some arrivals**: what they put in order is read. -/
structure StreamAfter (crypto : Crypto Message) (records : List (List UInt8)) (arrivals : List (Nat × List UInt8))
    (stream : NoiseVirtualStream Message) : Prop where
  order : After arrivals stream.inboundCiphertexts
  received : Received crypto records stream.inboundCiphertexts.nextSeq stream

section

variable (hlawful : crypto.Lawful) (hroom : ∀ queued, hasRoom queued = true) (hcut : Cut crypto messages records)
  (hsealed : Sealed crypto records ciphertexts)
include hlawful hroom hcut hsealed

theorem StreamAfter.receiveData (h : StreamAfter crypto records arrivals stream)
    (hlimit : ∀ arrival ∈ arrivals ++ [(seq, payload)], arrival.1 + 1 < seqLimit) (hfits : FrameFits arrivals seq payload)
    (hgenuine : ∀ number copy, firstCopy (arrivals ++ [(seq, payload)]) number = some copy → ciphertexts[number]? = some copy) :
    ∃ next, receiveData crypto hasRoom stream seq payload = .ok next ∧
      StreamAfter crypto records (arrivals ++ [(seq, payload)]) next := by
  obtain ⟨count, hready, hseq, hafter⟩ := h.order.push hlimit hfits
  unfold Noise.receiveData
  cases hpush : stream.inboundCiphertexts.push seq payload with
  | mk frames =>
    rw [hpush] at hready hseq hafter
    subst hready
    have hsome : ∀ number < stream.inboundCiphertexts.nextSeq + count,
        (firstCopy (arrivals ++ [(seq, payload)]) number).isSome := hseq ▸ hafter.next.below
    have hstream : Received crypto records stream.inboundCiphertexts.nextSeq
        { stream with inboundCiphertexts := frames } := ⟨h.received.nonce, h.received.read⟩
    obtain ⟨next, hreceive, hreceived, hsame⟩ :=
      hstream.steps hlawful hroom hcut hsealed fun i _ => getElem?_copies hsome hgenuine i
    refine ⟨next, hreceive, hsame ▸ hafter, ?_⟩
    rw [hsame, hseq]
    rwa [length_copies hsome] at hreceived

theorem StreamAfter.receiveAll (h : StreamAfter crypto records before stream)
    (hwindow : InWindow (before ++ arrivals))
    (hgenuine : ∀ number copy, firstCopy (before ++ arrivals) number = some copy → ciphertexts[number]? = some copy) :
    ∃ last, receiveAll crypto hasRoom stream arrivals = .ok last ∧ StreamAfter crypto records (before ++ arrivals) last := by
  induction arrivals generalizing before stream with
  | nil => exact ⟨stream, rfl, by rwa [append_nil]⟩
  | cons arrival arrivals ih =>
    obtain ⟨seq, payload⟩ := arrival
    have hsplit : before ++ (seq, payload) :: arrivals = before ++ [(seq, payload)] ++ arrivals := by simp
    have hlimit : ∀ other ∈ before ++ [(seq, payload)], other.1 + 1 < seqLimit :=
      fun other hmem => hwindow.limit other (by rw [hsplit]; exact mem_append_left _ hmem)
    have hfits := hwindow.fits before seq payload arrivals rfl
    rw [hsplit] at hwindow hgenuine ⊢
    obtain ⟨_, hreceive, hnext⟩ := h.receiveData hlawful hroom hcut hsealed hlimit hfits fun number copy hcopy => by
      apply hgenuine
      rw [firstCopy_append_of_isSome (by rw [hcopy]; rfl), hcopy]
    obtain ⟨last, hlast, hafter⟩ := ih hnext hwindow hgenuine
    refine ⟨last, ?_, hafter⟩
    rw [Noise.receiveAll, hreceive]
    exact hlast

end

end Receive

/-! ## The writer -/

def numbered (start : Nat) (ciphertexts : List (List UInt8)) : List (Nat × List UInt8) :=
  (ciphertexts.zipIdx start).map Prod.swap

def recordsOf (crypto : Crypto Message) (messages : List Message) : List (List UInt8) :=
  messages.flatMap (fun message => Chunks.chunksOf recordPlaintextLen (Framing.frame (crypto.toVec message)))

section Write

variable {crypto : Crypto Message}

theorem cut_recordsOf (h : ∀ message ∈ messages, (crypto.toVec message).length ≤ maxJsonrpcMessageLen) :
    Cut crypto messages (recordsOf crypto messages) where
  bytes := by
    clear h
    induction messages with
    | nil => rfl
    | cons message messages ih =>
      rw [recordsOf, flatMap_cons, flatten_append, Chunks.flatten_chunksOf (by decide), map_cons, flatten_cons, ← ih]
      rfl
  messageMax := h
  recordMax := by
    intro record hrecord
    obtain ⟨_, -, hmem⟩ := mem_flatMap.1 hrecord
    exact Chunks.length_le_of_mem_chunksOf hmem

variable {frames : List (Nat × List UInt8)}

theorem writeRecords_append (h : writeRecords crypto state first = (frames, some middle)) :
    writeRecords crypto state (first ++ second) =
      (frames ++ (writeRecords crypto middle second).1, (writeRecords crypto middle second).2) := by
  induction first generalizing state frames with
  | nil =>
    cases h
    rfl
  | cons record first ih =>
    obtain ⟨nextSeq, sendNonce⟩ := state
    rw [cons_append, writeRecords]
    rw [writeRecords] at h
    cases hseq : takeNextSequence nextSeq with
    | error => simp [hseq] at h
    | ok taken =>
      cases hencrypt : crypto.encrypt sendNonce record with
      | none => simp [hseq, hencrypt] at h
      | some =>
        simp only [hseq, hencrypt, Prod.mk.injEq] at h ⊢
        obtain ⟨rfl, hmiddle⟩ := h
        rw [ih (Prod.ext rfl hmiddle)]
        exact ⟨rfl, rfl⟩

theorem frameJsonrpcMessage_ok (h : frameJsonrpcMessage crypto message = .ok framed) :
    (crypto.toVec message).length ≤ maxJsonrpcMessageLen ∧ framed = frame (crypto.toVec message) := by
  unfold frameJsonrpcMessage at h
  split at h
  · cases h
  · next hlong => exact ⟨not_lt.1 hlong, (Except.ok.inj h).symm⟩

theorem writeMessages_eq (h : writeMessages crypto state messages = (frames, some last)) :
    (∀ message ∈ messages, (crypto.toVec message).length ≤ maxJsonrpcMessageLen) ∧
      writeRecords crypto state (recordsOf crypto messages) = (frames, some last) := by
  induction messages generalizing state frames with
  | nil => exact ⟨fun _ hmem => absurd hmem not_mem_nil, h⟩
  | cons message messages ih =>
    rw [writeMessages] at h
    unfold recordsOf at ih ⊢
    -- else the kernel would count the records of any length
    obtain ⟨cut, hcut⟩ : ∃ cut : List UInt8 → _, Chunks.chunksOf recordPlaintextLen = cut := ⟨_, rfl⟩
    rw [hcut] at h ih ⊢
    split at h
    · cases h
    · next framed hframe =>
      obtain ⟨hmax, rfl⟩ := frameJsonrpcMessage_ok hframe
      split at h
      · cases h
      · next first middle hwrite =>
        obtain ⟨rfl, hlast⟩ := Prod.mk.inj h
        obtain ⟨hmessages, hrecords⟩ := ih (Prod.ext rfl hlast)
        refine ⟨forall_mem_cons.2 ⟨hmax, hmessages⟩, ?_⟩
        rw [flatMap_cons, writeRecords_append hwrite, hrecords]

/-- Each record is encrypted under the next nonce and gets the next number, and the numbers do not run out. -/
theorem writeRecords_sealed {records nextSeq sendNonce last}
    (h : writeRecords crypto (nextSeq, sendNonce) records = (frames, some last))
    (hlimit : nextSeq < seqLimit) :
    ∃ ciphertexts, frames = numbered nextSeq ciphertexts ∧ nextSeq + ciphertexts.length < seqLimit ∧
      ciphertexts.length = records.length ∧
      ∀ i record, records[i]? = some record → ∃ ciphertext, ciphertexts[i]? = some ciphertext ∧
        crypto.encrypt (sendNonce + i) record = some ciphertext := by
  induction records generalizing nextSeq sendNonce frames with
  | nil =>
    cases h
    exact ⟨[], rfl, hlimit, rfl, nofun⟩
  | cons record records ih =>
    rw [writeRecords, takeNextSequence] at h
    by_cases hnext : nextSeq + 1 < seqLimit
    · rw [if_pos hnext] at h
      cases hencrypt : crypto.encrypt sendNonce record with
      | none =>
        rw [hencrypt] at h
        cases h
      | some ciphertext =>
        rw [hencrypt] at h
        dsimp only at h
        cases hrest : writeRecords crypto (nextSeq + 1, sendNonce + 1) records with
        | mk rest final =>
          rw [hrest] at h
          cases h
          obtain ⟨ciphertexts, rfl, hbound, hlength, hsealed⟩ := ih hrest hnext
          refine ⟨ciphertext :: ciphertexts, rfl, ?_, congrArg (· + 1) hlength, fun i other hother => ?_⟩
          · rw [length_cons]
            omega
          · cases i with
            | zero =>
              cases hother
              exact ⟨ciphertext, rfl, hencrypt⟩
            | succ i =>
              obtain ⟨sealedRecord, hget, heq⟩ := hsealed i other hother
              refine ⟨sealedRecord, hget, ?_⟩
              rwa [add_assoc, add_comm 1 i] at heq
    · rw [if_neg hnext] at h
      cases h

end Write

/-- **One stream.**  The reorder buffer counts its bytes and holds only numbers of the window above the next, whatever arrives.
As long as frames stay within the window and the budget it releases the first copies of the frames in order, each once.  And from
any cut of the framed messages into records, sealed record by record and arriving in any order with copies, the receiver gets the
messages in order with nothing left; what the writer sends is such a cut. -/
theorem relay_stream_delivers (crypto : Crypto Message) (hlawful : crypto.Lawful) :
    (∀ arrivals, (pushAll {} arrivals).1.Bounded) ∧
    (∀ arrivals, InWindow arrivals → ∃ next, IsNext arrivals next ∧ (pushAll {} arrivals).2 = .ok (copies arrivals 0 next)) ∧
    (∀ messages records ciphertexts arrivals (hasRoom : List Message → Bool), Cut crypto messages records →
      Sealed crypto records ciphertexts → InWindow arrivals → (∀ queued, hasRoom queued = true) →
      (∀ seq payload, firstCopy arrivals seq = some payload → ciphertexts[seq]? = some payload) →
      (∀ seq < ciphertexts.length, (firstCopy arrivals seq).isSome) →
      (pushAll {} arrivals).2 = .ok ciphertexts ∧
        ∃ stream, receiveAll crypto hasRoom {} arrivals = .ok stream ∧ stream.incoming = messages ∧ stream.buffered = []) ∧
    ∀ messages frames last, writeMessages crypto (0, 0) messages = (frames, some last) →
      ∃ records ciphertexts, Cut crypto messages records ∧ Sealed crypto records ciphertexts ∧
        frames = numbered 0 ciphertexts ∧ ciphertexts.length < seqLimit := by
  have hreleased : ∀ arrivals, InWindow arrivals →
      ∃ next, IsNext arrivals next ∧ (pushAll {} arrivals).2 = .ok (copies arrivals 0 next) := by
    intro arrivals hwindow
    obtain ⟨count, hok, hnext⟩ := after_nil.pushAll hwindow
    rw [zero_add] at hnext
    exact ⟨count, hnext, hok⟩
  refine ⟨fun arrivals => pushAll_bounded bounded_empty arrivals, hreleased, ?_, ?_⟩
  · intro messages records ciphertexts arrivals hasRoom hcut hsealed hwindow hroom hgenuine hall
    have hend : IsNext arrivals ciphertexts.length := by
      refine ⟨hall, ?_⟩
      cases hcopy : firstCopy arrivals ciphertexts.length with
      | none => rfl
      | some => exact absurd (List.getElem?_eq_some_iff.1 (hgenuine _ _ hcopy)).1 (lt_irrefl _)
    constructor
    · obtain ⟨next, hnext, hok⟩ := hreleased arrivals hwindow
      obtain rfl := hnext.unique hend
      rw [hok, copies_eq]
      intro seq hlt
      obtain ⟨copy, hcopy⟩ := Option.isSome_iff_exists.1 (hall seq hlt)
      rw [hcopy, hgenuine seq copy hcopy]
    · have hstart : StreamAfter crypto records [] ({} : NoiseVirtualStream Message) := ⟨after_nil, rfl, rfl⟩
      obtain ⟨stream, hreceive, hafter⟩ := hstart.receiveAll hlawful hroom hcut hsealed hwindow hgenuine
      refine ⟨stream, hreceive, ?_⟩
      have hread := hafter.received.read
      rw [hafter.order.next.unique hend, hsealed.1, take_length, hcut.readAll hlawful] at hread
      have hpair := Except.ok.inj hread
      exact ⟨(congrArg Prod.fst hpair).symm, (congrArg Prod.snd hpair).symm⟩
  · intro messages frames last hwrite
    obtain ⟨hmessages, hrecords⟩ := writeMessages_eq hwrite
    obtain ⟨ciphertexts, hframes, hbound, hlength, hsealed⟩ := writeRecords_sealed hrecords (by decide)
    refine ⟨_, ciphertexts, cut_recordsOf hmessages, ⟨hlength, fun i record hrecord => ?_⟩, hframes, by omega⟩
    obtain ⟨ciphertext, hget, hencrypt⟩ := hsealed i record hrecord
    exact ⟨ciphertext, hget, by rwa [zero_add] at hencrypt⟩

def tagCrypto : Crypto Bool where
  encrypt nonce plaintext := some (plaintext ++ List.replicate 16 (UInt8.ofNat nonce))
  decrypt nonce ciphertext :=
    if ciphertext.drop (ciphertext.length - 16) = List.replicate 16 (UInt8.ofNat nonce) then
      .ok (ciphertext.take (ciphertext.length - 16))
    else .error []
  toVec message := if message then [116, 114, 117, 101] else [102, 97, 108, 115, 101]
  fromSlice bytes :=
    if bytes = [116, 114, 117, 101] then .ok true else if bytes = [102, 97, 108, 115, 101] then .ok false else .error []

theorem tagCrypto_lawful : tagCrypto.Lawful where
  decrypt_encrypt nonce plaintext ciphertext h := by
    obtain rfl := Option.some.inj h
    simp [tagCrypto]
  fromSlice_toVec message := by cases message <;> rfl
  toVec_ne_nil message := by cases message <;> simp [tagCrypto]

def swappedArrivals : List (Nat × List UInt8) :=
  [(1, [4, 116, 114, 117, 101] ++ List.replicate 16 1), (0, [0, 0, 0] ++ List.replicate 16 0),
    (1, [4, 116, 114, 117, 101] ++ List.replicate 16 1)]

theorem swappedArrivals_inWindow : InWindow swappedArrivals where
  fits := by
    intro before seq payload later hsplit next hnext hlt hnone
    have hseq : seq ≤ 1 := by
      have hmem : (seq, payload) ∈ swappedArrivals := by rw [hsplit]; simp
      simp only [swappedArrivals, mem_cons, Prod.mk.injEq, not_mem_nil, or_false] at hmem
      omega
    obtain rfl : next = 0 := by omega
    obtain rfl : seq = 1 := by omega
    -- the first copy of number one comes first of all
    match before, hsplit with
    | [], hsplit =>
      cases hsplit
      exact ⟨by decide, by decide⟩
    | first :: before, hsplit =>
      have hfirst : first = (1, [4, 116, 114, 117, 101] ++ replicate 16 1) := (cons.inj hsplit).1.symm
      rw [hfirst] at hnone
      cases hnone
  limit := by decide

theorem swapped_records_delivered : tagCrypto.Lawful ∧
    ∃ stream, receiveAll tagCrypto (fun _ => true) {} swappedArrivals = .ok stream ∧ stream.incoming = [true] ∧
      stream.buffered = [] := by
  refine ⟨tagCrypto_lawful, ?_⟩
  have hcut : Cut tagCrypto [true] [[0, 0, 0], [4, 116, 114, 117, 101]] := ⟨by decide, by decide, by decide⟩
  have hsealed : Sealed tagCrypto [[0, 0, 0], [4, 116, 114, 117, 101]]
      [[0, 0, 0] ++ replicate 16 0, [4, 116, 114, 117, 101] ++ replicate 16 1] := by
    refine ⟨rfl, fun i record hrecord => ?_⟩
    match i, hrecord with
    | 0, hrecord | 1, hrecord =>
      cases hrecord
      exact ⟨_, rfl, rfl⟩
  refine ((relay_stream_delivers tagCrypto tagCrypto_lawful).2.2.1 _ _ _ _ _ hcut hsealed swappedArrivals_inWindow
    (fun _ => rfl) ?_ ?_).2
  · intro seq payload hcopy
    match seq, hcopy with
    | 0, hcopy | 1, hcopy =>
      cases hcopy
      rfl
  · decide

end Owc.Noise
