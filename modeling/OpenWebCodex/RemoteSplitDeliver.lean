import OpenWebCodex.RemoteSplitSearch
/-!
# RemoteSplitDeliver — what is sent for a message, and when it is dropped

The segments of a message are put together again by whoever reassembles them in order.  A message is dropped if no chunk size
that is tried fits, and so also where one fits that is not tried.
-/
namespace Owc.Remote

open List Base64 Nat
open Chunks

variable {Message : Type}

/-! ## The length of a chunk -/

theorem jsonStringLen_encode (bytes : List UInt8) : jsonStringLen (encode bytes) = (bytes.length + 2) / 3 * 4 + 2 := by
  have hone : ∀ c ∈ '=' :: letters, escapedLen c = 1 := all_iff_forall_prop.1 (by decide)
  have hmap : (encode bytes).map escapedLen = (encode bytes).map (fun _ => 1) :=
    map_congr_left fun c hc => hone c (mem_encode hc)
  rw [jsonStringLen, hmap, map_const', sum_replicate_nat, length_encode, mul_one, add_comm]

theorem serializedLen_chunkEnvelope (serializer : Serializer Message) (envelope : ServerEnvelope Message)
    (segmentId segmentCount size : Nat) (chunk : List UInt8) :
    serializedLen serializer (chunkEnvelope envelope segmentId segmentCount size (encode chunk)) =
      addressLen envelope + 109 + decimalLen segmentId + decimalLen segmentCount + decimalLen size +
        (chunk.length + 2) / 3 * 4 := by
  have haddress : addressLen (chunkEnvelope envelope segmentId segmentCount size (encode chunk)) = addressLen envelope :=
    rfl
  have htype : "\x7b\"type\":\"server_message_chunk\",\"segment_id\":".length = 44 := rfl
  have hcount : ",\"segment_count\":".length = 17 := rfl
  have hsize : ",\"message_size_bytes\":".length = 22 := rfl
  have htext : ",\"message_chunk_base64\":".length = 24 := rfl
  rw [serializedLen, haddress]
  simp only [chunkEnvelope, jsonStringLen_encode, htype, hcount, hsize, htext]
  omega

theorem decimalLen_le_iff {n digits} (hdigits : 0 < digits) : decimalLen n ≤ digits ↔ n < 10 ^ digits :=
  length_toDigits_le_iff (by decide) hdigits

theorem decimalLen_pos (n : Nat) : 0 < decimalLen n := by
  rcases Nat.eq_zero_or_pos (decimalLen n) with hzero | hpos
  · exact absurd (length_eq_zero_iff.1 hzero) Nat.toDigits_ne_nil
  · exact hpos

theorem decimalLen_mono {n m} (h : n ≤ m) : decimalLen n ≤ decimalLen m := by
  have hm := (decimalLen_le_iff (decimalLen_pos m)).1 (le_refl (decimalLen m))
  exact (decimalLen_le_iff (decimalLen_pos m)).2 (lt_of_le_of_lt h hm)

theorem lt_decimalLen {n digits} (hdigits : 0 < digits) (h : 10 ^ digits ≤ n) : digits < decimalLen n :=
  not_le.1 (mt (decimalLen_le_iff hdigits).1 (not_lt.2 h))

section ChunksFit

variable {serializer : Serializer Message} {envelope : ServerEnvelope Message} {raw : List UInt8} {chunkSize : Nat}

theorem ChunksFit.chunk_le (h : ChunksFit serializer envelope raw chunkSize) (hi : i < divCeil raw.length chunkSize) :
    addressLen envelope + 109 + decimalLen i + decimalLen (divCeil raw.length chunkSize) + decimalLen raw.length +
      (min chunkSize (raw.length - i * chunkSize) + 2) / 3 * 4 ≤ segmentMaxBytes := by
  have hchunk := h.2 _ (mk_mem_zipIdx_iff_getElem?.2 (getElem?_chunksOf raw hi))
  rwa [serializedLen_chunkEnvelope, length_chunksOf, length_take, length_drop] at hchunk

theorem chunksFit_of_le (hcount : divCeil raw.length chunkSize ≤ segmentCountMax)
    (h : addressLen envelope + 109 + decimalLen (divCeil raw.length chunkSize) + decimalLen (divCeil raw.length chunkSize) +
      decimalLen raw.length + (chunkSize + 2) / 3 * 4 ≤ segmentMaxBytes) :
    ChunksFit serializer envelope raw chunkSize := by
  refine ⟨by rwa [length_chunksOf], fun ⟨chunk, i⟩ hmem => ?_⟩
  have hget := mk_mem_zipIdx_iff_getElem?.1 hmem
  have hi := (List.getElem?_eq_some_iff.1 hget).1
  rw [length_chunksOf] at hi
  have hid := decimalLen_mono (le_of_lt hi)
  have hlength := length_le_of_mem_chunksOf (mem_of_getElem? hget)
  have htext := Nat.mul_le_mul_right 4 (Nat.div_le_div_right (c := 3) (Nat.add_le_add_right hlength 2))
  rw [serializedLen_chunkEnvelope, length_chunksOf]
  dsimp only
  omega

end ChunksFit

/-! ## What is sent -/

/-- **A message sent in segments**: numbered chunks of these texts, which all fit and are not too many, and which decode and
reassemble to the message. -/
structure SentAs (serializer : Serializer Message) (envelope : ServerEnvelope Message) (message : Message) (texts : List Str)
    (segments : List (ServerEnvelope Message)) : Prop where
  numbered : segments = texts.zipIdx.map (fun text =>
    chunkEnvelope envelope text.2 texts.length (serializer.toVec message).length text.1)
  ne_nil : segments ≠ []
  count : segments.length ≤ segmentCountMax
  fit : ∀ segment ∈ segments, serializedLen serializer segment ≤ segmentMaxBytes
  decodes : ∃ chunks, texts.mapM Base64.decode = some chunks ∧ chunks.flatten = serializer.toVec message
  reassembles : ∀ (codec : Codec Message) (order : MapOrder) (later : List (Input Message)),
    (∀ bytes, codec.decode (Base64.encode bytes) = some bytes) → codec.parse (serializer.toVec message) = some message →
    Arrives envelope.clientId envelope.streamId ⟨envelope.seqId, texts.length, (serializer.toVec message).length⟩ 0 texts later →
    Undisturbed codec order envelope.clientId [] later →
    ∃ cursor, some (.forward ⟨.clientMessage message, envelope.clientId, some envelope.streamId, some envelope.seqId, cursor⟩) ∈
      (runAll codec order [] later).2

section SentAs

variable {serializer : Serializer Message} {envelope : ServerEnvelope Message} {message : Message} {chunkSize : Nat}

theorem mapM_decode_encode (chunks : List (List UInt8)) : (chunks.map encode).mapM decode = some chunks := by
  rw [mapM_map]
  have hdecode : decode ∘ encode = fun bytes => pure (id bytes) := by
    funext bytes
    exact decode_encode bytes
  rw [hdecode, mapM_pure, map_id]
  rfl

section

variable (hpos : 0 < chunkSize) (hmax : (serializer.toVec message).length ≤ reassembledMaxBytes)
  (hfits : ChunksFit serializer envelope (serializer.toVec message) chunkSize)
include hpos hmax hfits

theorem carries_of_fits (codec : Codec Message) (seqId : Nat) (hdecode : ∀ bytes, codec.decode (encode bytes) = some bytes)
    (hparse : codec.parse (serializer.toVec message) = some message) :
    Carries codec ⟨seqId, (chunksOf chunkSize (serializer.toVec message)).length, (serializer.toVec message).length⟩
      ((chunksOf chunkSize (serializer.toVec message)).map encode) message where
  count := length_map _
  countMax := hfits.1
  size_pos := length_pos_iff.2 (serializer.toVec_ne_nil message)
  sizeMax := hmax
  ne_nil := by
    intro text htext
    obtain ⟨chunk, hchunk, rfl⟩ := mem_map.1 htext
    exact encode_ne_nil (ne_nil_of_mem_chunksOf hpos hchunk)
  decodes := by
    refine ⟨chunksOf chunkSize (serializer.toVec message), ?_, ?_, ?_⟩
    · rw [forall₂_map_left_iff]
      exact forall₂_same.2 fun chunk _ => hdecode chunk
    · rw [flatten_chunksOf hpos]
    · rwa [flatten_chunksOf hpos]

theorem sentAs_of_fits : SentAs serializer envelope message ((chunksOf chunkSize (serializer.toVec message)).map encode)
      (segmentsOf envelope (serializer.toVec message) chunkSize) where
  numbered := by
    rw [zipIdx_map, map_map, length_map]
    rfl
  ne_nil := by
    have hsize := length_pos_iff.2 (serializer.toVec_ne_nil message)
    rw [← length_pos_iff, segmentsOf, length_map, length_zipIdx, length_chunksOf]
    exact divCeil_pos hsize hpos
  count := by
    rw [segmentsOf, length_map, length_zipIdx]
    exact hfits.1
  fit := by
    intro segment hsegment
    obtain ⟨chunk, hchunk, rfl⟩ := mem_map.1 hsegment
    exact hfits.2 chunk hchunk
  decodes := ⟨_, mapM_decode_encode _, flatten_chunksOf hpos _⟩
  reassembles := by
    intro codec order later hdecode hparse harrives hundisturbed
    rw [length_map] at harrives
    have hcarries := carries_of_fits hpos hmax hfits codec envelope.seqId hdecode hparse
    exact (forwarded_iff good_nil hcarries harrives hundisturbed fun _ hget => (nomatch hget)).2
      (fun _ hget => (nomatch hget))

end

end SentAs

/-! ## When a message is dropped -/

section Drop

variable (serializer : Serializer Message) (envelope : ServerEnvelope Message)

/-- **A message that cannot be sent**: it is too long, or no chunk size fits. -/
def Unsendable : Prop :=
  ∃ message, envelope.event = .serverMessage message ∧
    (reassembledMaxBytes < (serializer.toVec message).length ∨
      ∀ chunkSize, 0 < chunkSize → ¬ChunksFit serializer envelope (serializer.toVec message) chunkSize)

/-- The chunk of one byte, one of as many as there are bytes or may be segments, fits. -/
def MinimalChunkFits (raw : List UInt8) : Prop :=
  serializedLen serializer (chunkEnvelope envelope 0 (min raw.length segmentCountMax) raw.length (Base64.encode (raw.take 1))) ≤
    segmentMaxBytes

/-- **The search misses nothing**: where an envelope needs splitting and some chunk size fits, so does one of the sizes that are
searched. -/
def SearchFinds : Prop :=
  ∀ message, envelope.event = .serverMessage message → segmentMaxBytes < serializedLen serializer envelope →
    (serializer.toVec message).length ≤ reassembledMaxBytes →
    (∃ chunkSize, 0 < chunkSize ∧ ChunksFit serializer envelope (serializer.toVec message) chunkSize) →
    ∃ chunkSize, Searched (serializer.toVec message).length chunkSize ∧
      ChunksFit serializer envelope (serializer.toVec message) chunkSize

instance (raw : List UInt8) : Decidable (MinimalChunkFits serializer envelope raw) :=
  inferInstanceAs (Decidable (_ ≤ _))

theorem minimalChunkFits_eq (hraw : 0 < raw.length) :
    minimalChunkFits serializer envelope raw = .ok (decide (MinimalChunkFits serializer envelope raw)) := by
  have hmax : max raw.length 1 = raw.length := max_eq_left hraw
  rw [minimalChunkFits, serializedChunkLen, hmax, buildChunkEnvelope_of_le envelope (min_le_right _ _)]
  rfl

section

variable {message : Message} (hevent : envelope.event = .serverMessage message)
  (hlong : segmentMaxBytes < serializedLen serializer envelope)
include hevent hlong

/-- The whole search: the segments of a searched size that fits, or none where the minimal chunk or every such size does
not fit. -/
theorem split_cases (hmax : (serializer.toVec message).length ≤ reassembledMaxBytes) :
    (MinimalChunkFits serializer envelope (serializer.toVec message) ∧
      ∃ chunkSize, 0 < chunkSize ∧ Searched (serializer.toVec message).length chunkSize ∧
        ChunksFit serializer envelope (serializer.toVec message) chunkSize ∧
        splitServerEnvelopeForTransport serializer envelope =
          some (.ok (segmentsOf envelope (serializer.toVec message) chunkSize))) ∨
    ¬(MinimalChunkFits serializer envelope (serializer.toVec message) ∧
      ∃ chunkSize, Searched (serializer.toVec message).length chunkSize ∧
        ChunksFit serializer envelope (serializer.toVec message) chunkSize) ∧
      splitServerEnvelopeForTransport serializer envelope = some (.ok []) := by
  have hraw := length_pos_iff.2 (serializer.toVec_ne_nil message)
  have hinit := two_le_initialSegmentCount (serializer.toVec message).length
  rw [splitServerEnvelopeForTransport, hevent]
  dsimp only
  rw [if_neg (not_le.2 hlong), if_neg (not_lt.2 hmax), minimalChunkFits_eq serializer envelope hraw]
  by_cases hminimal : MinimalChunkFits serializer envelope (serializer.toVec message)
  · rw [decide_eq_true hminimal]
    have hfuel : chunkSizeFor (serializer.toVec message).length (initialSegmentCount (serializer.toVec message).length) ≤
        (serializer.toVec message).length + 1 := by
      rw [chunkSizeFor_eq hraw (by omega), divCeil_le_iff (by omega)]
      exact Nat.le_trans (Nat.le_succ _) (Nat.le_mul_of_pos_right _ (by omega))
    rcases splitLoop_eq serializer envelope _ hraw _ _ hfuel with ⟨chunkSize, htried, hfits, heq⟩ | ⟨hnone, heq⟩
    · exact .inl ⟨hminimal, chunkSize, htried.chunkSize_pos, (tried_iff hraw).1 htried, hfits, heq⟩
    · refine .inr ⟨?_, heq⟩
      rintro ⟨-, chunkSize, hsearched, hfits⟩
      exact hnone chunkSize ((tried_iff hraw).2 hsearched) hfits
  · rw [decide_eq_false hminimal]
    exact .inr ⟨fun h => hminimal h.1, rfl⟩

/-- The minimal chunk of a message that does not fit whole is no longer than the chunks of a size that fits: what it saves in
its own number it pays in the number of segments. -/
theorem minimalChunkFits_of_fits {chunkSize} (hpos : 0 < chunkSize)
    (hfits : ChunksFit serializer envelope (serializer.toVec message) chunkSize) :
    MinimalChunkFits serializer envelope (serializer.toVec message) := by
  have hraw := length_pos_iff.2 (serializer.toVec_ne_nil message)
  have hframe : "\x7b\"type\":\"server_message\",\"message\":".length = 35 := rfl
  rw [serializedLen, hevent] at hlong
  dsimp only at hlong
  rw [hframe] at hlong
  rw [MinimalChunkFits, serializedLen_chunkEnvelope, length_take]
  generalize serializer.toVec message = raw at *
  have hcountPos := divCeil_pos hraw hpos
  have hfirst := hfits.chunk_le hcountPos
  have hlast := hfits.chunk_le (sub_lt hcountPos one_pos)
  have hhold := le_divCeil_mul (n := raw.length) hpos
  have hrest : (divCeil raw.length chunkSize - 1) * chunkSize < raw.length := by
    by_contra hle
    have hless := (divCeil_le_iff (m := divCeil raw.length chunkSize - 1) hpos).2 (not_lt.1 hle)
    omega
  have hzero : decimalLen 0 = 1 := rfl
  have hdigit := decimalLen_pos (divCeil raw.length chunkSize)
  have hdigitLast := decimalLen_pos (divCeil raw.length chunkSize - 1)
  have hsegments : decimalLen (min raw.length segmentCountMax) ≤ 4 :=
    (decimalLen_le_iff (by decide)).2 (lt_of_le_of_lt (min_le_right _ _) (by decide))
  have hdigitSize := decimalLen_pos raw.length
  rw [hzero] at hfirst ⊢
  rcases lt_or_ge 3 chunkSize with hlarge | hsmall
  · -- the first chunk has four letters more
    omega
  have htriple : divCeil raw.length chunkSize * chunkSize ≤ divCeil raw.length chunkSize * 3 :=
    mul_le_mul_left _ hsmall
  have htwo : 1 < decimalLen (divCeil raw.length chunkSize - 1) := lt_decimalLen (by decide) (by omega)
  have hmono := decimalLen_mono (sub_le (divCeil raw.length chunkSize) 1)
  rcases lt_or_ge raw.length 1000 with hthree | hfour
  · have hdigits : decimalLen (min raw.length segmentCountMax) ≤ 3 :=
      (decimalLen_le_iff (by decide)).2 (lt_of_le_of_lt (min_le_left _ _) hthree)
    omega
  · have hdigits : 2 < decimalLen (divCeil raw.length chunkSize - 1) := lt_decimalLen (by decide) (by omega)
    omega

end

end Drop

/-- **Every server envelope**: splitting ends with the envelope itself, with segments of its message that all fit and reassemble
to it, or with none; and it ends with none only for a message that cannot be sent exactly if the search misses nothing. -/
theorem split_server_envelope_for_transport (serializer : Serializer Message) (envelope : ServerEnvelope Message) :
    ∃ segments, splitServerEnvelopeForTransport serializer envelope = some (.ok segments) ∧
      (segments = [envelope] ∨
        (∃ message texts, envelope.event = .serverMessage message ∧ SentAs serializer envelope message texts segments) ∨
        segments = []) ∧
      ((segments = [] → Unsendable serializer envelope) ↔ SearchFinds serializer envelope) := by
  by_cases hshort : ∀ message, envelope.event = .serverMessage message → serializedLen serializer envelope ≤ segmentMaxBytes
  · refine ⟨[envelope], ?_, .inl rfl, iff_of_true (fun h => (nomatch h)) ?_⟩
    · unfold splitServerEnvelopeForTransport
      cases hevent : envelope.event with
      | serverMessage message => exact if_pos (hshort message hevent)
      | serverMessageChunk | ack | pong => rfl
    · intro message hevent hlong
      exact absurd (hshort message hevent) (not_le.2 hlong)
  · obtain ⟨message, hevent, hlong⟩ : ∃ message, envelope.event = .serverMessage message ∧
        segmentMaxBytes < serializedLen serializer envelope := by
      simpa only [not_forall, not_le, exists_prop] using hshort
    have hunique : ∀ other, envelope.event = .serverMessage other → other = message := by
      intro other hother
      rw [hevent] at hother
      exact (ServerEvent.serverMessage.inj hother).symm
    by_cases hmax : (serializer.toVec message).length ≤ reassembledMaxBytes
    · rcases split_cases serializer envelope hevent hlong hmax with
        ⟨hminimal, chunkSize, hpos, hsearched, hfits, heq⟩ | ⟨hnone, heq⟩
      · have hsent := sentAs_of_fits hpos hmax hfits
        refine ⟨_, heq, .inr (.inl ⟨message, _, hevent, hsent⟩), iff_of_true (fun h => absurd h hsent.ne_nil) ?_⟩
        intro other hother _ _ _
        obtain rfl := hunique other hother
        exact ⟨chunkSize, hsearched, hfits⟩
      · refine ⟨[], heq, .inr (.inr rfl), ?_, ?_⟩
        · intro hunsendable other hother _ _ hsome
          obtain ⟨chunkSize, hpos, hfits⟩ := hsome
          obtain rfl := hunique other hother
          obtain ⟨again, hagain, hlarge | hnever⟩ := hunsendable rfl
          · obtain rfl := hunique again hagain
            omega
          · obtain rfl := hunique again hagain
            exact absurd hfits (hnever chunkSize hpos)
        · intro hfinds _
          refine ⟨message, hevent, .inr fun chunkSize hpos hfits => hnone ?_⟩
          exact ⟨minimalChunkFits_of_fits serializer envelope hevent hlong hpos hfits,
            hfinds message hevent hlong hmax ⟨chunkSize, hpos, hfits⟩⟩
    · refine ⟨[], ?_, .inr (.inr rfl), iff_of_true (fun _ => ⟨message, hevent, .inl (not_le.1 hmax)⟩) ?_⟩
      · rw [splitServerEnvelopeForTransport, hevent]
        dsimp only
        rw [if_neg (not_le.2 hlong), if_pos (not_le.1 hmax)]
      · intro other hother _ hle _
        obtain rfl := hunique other hother
        exact absurd hle hmax

def responseSerializer : Serializer Unit where
  toVec _ := ("\x7b\"id\":1,\"result\":\"".toList ++ List.replicate 80 'a' ++ "\"\x7d".toList).map
    (fun c => UInt8.ofNat c.toNat)
  toVec_ne_nil _ := by simp

def addressed (n : Nat) : ServerEnvelope Unit := ⟨.serverMessage (), ⟨List.replicate n 'c'⟩, ⟨['s']⟩, 1⟩

theorem jsonStringLen_replicate (n : Nat) (hc : escapedLen c = 1) : jsonStringLen (List.replicate n c) = n + 2 := by
  rw [jsonStringLen, map_replicate, hc, sum_replicate_nat, mul_one, add_comm]

theorem addressLen_addressed (n : Nat) : addressLen (addressed n) = n + 43 := by
  have hclient : ",\"client_id\":".length = 13 := rfl
  have hstream : ",\"stream_id\":".length = 13 := rfl
  have hseq : ",\"seq_id\":".length = 10 := rfl
  have hstreamText : jsonStringLen ['s'] = 3 := rfl
  have hdigit : decimalLen 1 = 1 := rfl
  simp only [addressLen, addressed, jsonStringLen_replicate n (show escapedLen 'c' = 1 from rfl), hclient, hstream, hseq,
    hstreamText, hdigit]
  omega

/-- Of a hundred bytes, the sizes from fifty down to ten are searched, and one byte. -/
theorem le_of_searched_hundred (h : Searched 100 chunkSize) : chunkSize = 1 ∨ 10 ≤ chunkSize := by
  have hinit : initialSegmentCount 100 = 2 := rfl
  have hten : divCeil 100 10 = 10 := rfl
  rcases h with rfl | ⟨n, hn, rfl, rfl | hall⟩
  · exact .inl rfl
  · exact .inr (by decide)
  right
  rw [hinit] at hn hall
  have hle : n ≤ 10 := by
    by_contra hlt
    exact absurd (hall 11 (by decide) (by omega)) (by decide)
  have hmono := divCeil_anti (n := 100) (show 0 < n by omega) hle
  omega

/-- The address leaves room for chunks of three bytes if their numbers have two digits: the response is dropped although they
fit. -/
theorem fitting_message_dropped : splitServerEnvelopeForTransport responseSerializer (addressed 153437) = some (.ok []) ∧
      ChunksFit responseSerializer (addressed 153437) (responseSerializer.toVec ()) 3 ∧
      ¬Unsendable responseSerializer (addressed 153437) := by
  have hlength : (responseSerializer.toVec ()).length = 100 := by decide
  have hthree : ChunksFit responseSerializer (addressed 153437) (responseSerializer.toVec ()) 3 := by
    refine chunksFit_of_le ?_ ?_ <;> rw [hlength]
    · decide
    · rw [addressLen_addressed]
      decide
  have hlong : segmentMaxBytes < serializedLen responseSerializer (addressed 153437) := by
    have hevent : (addressed 153437).event = .serverMessage () := rfl
    rw [serializedLen, hevent, addressLen_addressed]
    dsimp only
    rw [hlength]
    decide
  refine ⟨?_, hthree, ?_⟩
  · rcases split_cases responseSerializer (addressed 153437) rfl hlong (by rw [hlength]; decide) with
      ⟨-, chunkSize, hpos, hsearched, hfits, -⟩ | ⟨-, heq⟩
    · exfalso
      have hcountPos : 0 < divCeil (responseSerializer.toVec ()).length chunkSize := divCeil_pos (by rw [hlength]; decide) hpos
      rw [hlength] at hsearched hcountPos
      rcases le_of_searched_hundred hsearched with rfl | hten
      · have hlast := hfits.chunk_le (i := 99) (by rw [hlength]; decide)
        rw [hlength, addressLen_addressed] at hlast
        exact absurd hlast (by decide)
      · have hfirst := hfits.chunk_le (i := 0) (by rwa [hlength])
        have hdigits : decimalLen 100 = 3 := rfl
        rw [hlength, addressLen_addressed, hdigits] at hfirst
        unfold segmentMaxBytes at hfirst
        omega
    · exact heq
  · rintro ⟨message, -, hlarge | hnone⟩
    · rw [hlength] at hlarge
      exact absurd hlarge (by decide)
    · exact hnone 3 (by decide) hthree

end Owc.Remote
