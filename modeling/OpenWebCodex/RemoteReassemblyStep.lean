import OpenWebCodex.RemoteReassembly
/-!
# RemoteReassemblyStep — what one chunk does to the assemblies

A chunk is taken if its assembly waits for it, or if it is the first and its client assembles nothing for its stream; what it
decodes to must fit.  Anything else is dropped, and then no assembly changes but by being dropped.
-/
namespace Owc.Remote

open Nat Table

structure Shrinks (before after : Assemblies) : Prop where
  length_le : after.length ≤ before.length
  get_of_get : ∀ {clientId assembly}, after.get clientId = some assembly → before.get clientId = some assembly

theorem Shrinks.refl (assemblies : Assemblies) : Shrinks assemblies assemblies := ⟨le_refl _, id⟩

theorem Shrinks.trans (h : Shrinks before middle) (h' : Shrinks middle after) : Shrinks before after :=
  ⟨le_trans h'.length_le h.length_le, fun hget => h.get_of_get (h'.get_of_get hget)⟩

theorem shrinks_erase (assemblies : Assemblies) (clientId : ClientId) : Shrinks assemblies (assemblies.erase clientId) :=
  ⟨length_erase_le _ _, get_of_get_erase⟩

theorem shrinks_removeAssembly (assemblies : Assemblies) (clientId : ClientId) (streamId : StreamId) :
    Shrinks assemblies (removeAssembly assemblies clientId streamId) := by
  unfold removeAssembly
  split
  · exact shrinks_erase assemblies clientId
  · exact Shrinks.refl assemblies

theorem shrinks_evict (order : MapOrder) : ∀ fuel assemblies, Shrinks assemblies (evictAssembliesIfFull order fuel assemblies)
  | 0, assemblies => Shrinks.refl assemblies
  | fuel + 1, assemblies => by
    unfold evictAssembliesIfFull
    split
    · cases order.oldest assemblies with
      | none => exact Shrinks.refl assemblies
      | some clientId => exact (shrinks_erase assemblies clientId).trans (shrinks_evict order fuel _)
    · exact Shrinks.refl assemblies

theorem length_evict_lt (order : MapOrder) : ∀ fuel assemblies, assemblies.length ≤ fuel →
    (evictAssembliesIfFull order fuel assemblies).length < segmentAssemblyMaxCount
  | 0, assemblies, h => lt_of_le_of_lt h (by decide)
  | fuel + 1, assemblies, h => by
    unfold evictAssembliesIfFull
    split
    · next hfull =>
      have hne : assemblies ≠ [] := by
        rintro rfl
        exact absurd hfull (by decide)
      obtain ⟨clientId, assembly, holdest, hget, _⟩ := order.oldest_spec assemblies hne
      rw [holdest]
      refine length_evict_lt order fuel _ ?_
      have hlt := length_erase_lt (t := assemblies) (k := clientId) (by rw [hget]; rfl)
      omega
    · next hfull =>
      exact Nat.lt_of_not_le hfull

theorem prepareAssembly_cases (order : MapOrder) (now : Nat) (assemblies : Assemblies) (clientId : ClientId)
    (streamId : StreamId) (metadata : ClientSegmentMetadata) :
    (∃ assembly, assemblies.get clientId = some assembly ∧ assembly.streamId = streamId ∧
      prepareAssembly order now assemblies clientId streamId metadata = assemblies) ∨
    ((∀ assembly, assemblies.get clientId = some assembly → assembly.streamId ≠ streamId) ∧ ∃ room, Shrinks assemblies room ∧
        prepareAssembly order now assemblies clientId streamId metadata = room.put clientId ⟨streamId, metadata, [], 0, now⟩ ∧
        ((room.get clientId).isSome ∨ room.length < segmentAssemblyMaxCount)) := by
  unfold prepareAssembly
  cases hget : assemblies.get clientId with
  | none =>
    exact .inr ⟨fun _ h => (nomatch h), _, shrinks_evict order _ _, rfl, .inr (length_evict_lt order _ _ (le_refl _))⟩
  | some assembly =>
    by_cases hstream : assembly.streamId = streamId
    · refine .inl ⟨assembly, rfl, hstream, ?_⟩
      dsimp only
      rw [if_neg (by simp [hstream])]
    · refine .inr ⟨fun _ h => Option.some_inj.1 h ▸ hstream, assemblies, Shrinks.refl _, ?_, .inl (by rw [hget]; rfl)⟩
      dsimp only
      rw [if_pos (by simp [hstream])]

/-- The bytes that stand before a chunk: those of the assembly that waits for it, or none if it is a first chunk. -/
def Awaits (assemblies : Assemblies) (clientId : ClientId) (streamId : StreamId) (metadata : ClientSegmentMetadata)
    (segmentId : Nat) (raw : List UInt8) : Prop :=
  (∃ assembly, assemblies.get clientId = some assembly ∧ assembly.streamId = streamId ∧ assembly.metadata = metadata ∧
    assembly.nextSegmentId = segmentId ∧ assembly.raw = raw) ∨
  (segmentId = 0 ∧ raw = [] ∧ ∀ assembly, assemblies.get clientId = some assembly → assembly.streamId ≠ streamId)

section Observe

variable {Message : Type} {codec : Codec Message} {order : MapOrder}

structure Fits (codec : Codec Message) (metadata : ClientSegmentMetadata) (segmentId : Nat) (text : Str)
    (raw bytes : List UInt8) : Prop where
  valid : invalidChunk metadata segmentId text = false
  decodes : codec.decode text = some bytes
  room : raw.length + bytes.length ≤ metadata.messageSizeBytes
  whole : metadata.segmentCount ≤ segmentId + 1 →
    (raw ++ bytes).length = metadata.messageSizeBytes ∧ (codec.parse (raw ++ bytes)).isSome

variable {metadata : ClientSegmentMetadata}

theorem decodeInto_eq_some (hraw : raw.length ≤ metadata.messageSizeBytes) :
    decodeInto codec metadata raw text = some bytes ↔
      codec.decode text = some bytes ∧ raw.length + bytes.length ≤ metadata.messageSizeBytes := by
  unfold decodeInto
  rw [Option.filter_eq_some_iff, decide_eq_true_eq]
  refine and_congr_right fun hdecode => ?_
  have hestimate := codec.length_decode_le text bytes hdecode
  omega

theorem invalidChunk_eq_false : invalidChunk metadata segmentId text = false ↔
      0 < metadata.segmentCount ∧ metadata.segmentCount ≤ segmentCountMax ∧ segmentId < metadata.segmentCount ∧
        0 < metadata.messageSizeBytes ∧ metadata.messageSizeBytes ≤ reassembledMaxBytes ∧ text ≠ [] := by
  unfold invalidChunk
  simp only [Bool.or_eq_false_iff, beq_eq_false_iff_ne, decide_eq_false_iff_not, not_lt, not_le, ne_eq,
    List.isEmpty_eq_false_iff, pos_iff_ne_zero, and_assoc]

/-- **What a chunk does to the assembly it finds**: it is appended if it is awaited and fits, else it drops the assembly. -/
theorem advanceAssembly_cases (codec : Codec Message) (now : Nat) (assembly : ClientSegmentAssembly)
 (hvalid : invalidChunk metadata segmentId text = false)
    (hstale : ¬ (metadata.seqId < assembly.metadata.seqId ∨
      metadata.seqId = assembly.metadata.seqId ∧ segmentId < assembly.nextSegmentId))
    (hraw : assembly.raw.length ≤ assembly.metadata.messageSizeBytes) :
    (advanceAssembly codec now assembly metadata segmentId text = .drop ∧
      (assembly.metadata = metadata → assembly.nextSegmentId = segmentId →
        ∀ bytes, ¬ Fits codec metadata segmentId text assembly.raw bytes)) ∨
    (assembly.metadata = metadata ∧ assembly.nextSegmentId = segmentId ∧
      ∃ bytes, Fits codec metadata segmentId text assembly.raw bytes ∧
        ((segmentId + 1 < metadata.segmentCount ∧ advanceAssembly codec now assembly metadata segmentId text =
            .pending ⟨assembly.streamId, metadata, assembly.raw ++ bytes, segmentId + 1, now⟩) ∨
          (segmentId + 1 = metadata.segmentCount ∧ ∃ message, codec.parse (assembly.raw ++ bytes) = some message ∧
            advanceAssembly codec now assembly metadata segmentId text = .complete message))) := by
  obtain ⟨_, _, hcount, _, _, _⟩ := invalidChunk_eq_false.1 hvalid
  unfold advanceAssembly
  rw [if_neg fun h => hstale (.inl h)]
  by_cases hmetadata : assembly.metadata = metadata
  · subst hmetadata
    rw [if_neg (not_not.2 rfl), if_neg fun h => hstale (.inr ⟨rfl, h⟩)]
    by_cases hnext : segmentId = assembly.nextSegmentId
    · subst hnext
      rw [if_neg (not_not.2 rfl)]
      cases hdecode : decodeInto codec assembly.metadata assembly.raw text with
      | none =>
        refine .inl ⟨rfl, fun _ _ bytes hfits => ?_⟩
        cases hdecode.symm.trans ((decodeInto_eq_some hraw).2 ⟨hfits.decodes, hfits.room⟩)
      | some bytes =>
        obtain ⟨hdecodes, hroom⟩ := (decodeInto_eq_some hraw).1 hdecode
        dsimp only
        split
        · next hmore =>
          exact .inr ⟨rfl, rfl, bytes, ⟨hvalid, hdecodes, hroom, fun h => absurd hmore (not_lt.2 h)⟩, .inl ⟨hmore, rfl⟩⟩
        have hlast : assembly.nextSegmentId + 1 = assembly.metadata.segmentCount := by omega
        have hdropped : ∀ other, Fits codec assembly.metadata assembly.nextSegmentId text assembly.raw other →
            (assembly.raw ++ bytes).length = assembly.metadata.messageSizeBytes ∧
              (codec.parse (assembly.raw ++ bytes)).isSome := by
          intro other hfits
          cases hdecodes.symm.trans hfits.decodes
          exact hfits.whole (le_of_eq hlast.symm)
        by_cases hsize : (assembly.raw ++ bytes).length = assembly.metadata.messageSizeBytes
        · rw [if_neg (not_not.2 hsize)]
          cases hparse : codec.parse (assembly.raw ++ bytes) with
          | none =>
            refine .inl ⟨rfl, fun _ _ other hfits => ?_⟩
            have hsome := (hdropped other hfits).2
            rw [hparse] at hsome
            cases hsome
          | some message =>
            refine .inr ⟨rfl, rfl, bytes, ⟨hvalid, hdecodes, hroom, fun _ => ⟨hsize, by rw [hparse]; rfl⟩⟩, .inr ⟨hlast, message, hparse, rfl⟩⟩
        · rw [if_pos hsize]
          exact .inl ⟨rfl, fun _ _ other hfits => hsize (hdropped other hfits).1⟩
    · rw [if_pos hnext]
      exact .inl ⟨rfl, fun _ h => absurd h.symm hnext⟩
  · rw [if_pos hmetadata]
    exact .inl ⟨rfl, fun h => absurd h hmetadata⟩

variable {assemblies : Assemblies}

theorem shouldIgnoreChunk_iff :
    shouldIgnoreChunk assemblies clientId streamId seqId segmentId ↔
      ∃ assembly, assemblies.get clientId = some assembly ∧ assembly.streamId = streamId ∧
        (seqId < assembly.metadata.seqId ∨ seqId = assembly.metadata.seqId ∧ segmentId < assembly.nextSegmentId) := by
  unfold shouldIgnoreChunk
  cases assemblies.get clientId <;> simp

theorem not_awaits_of_stale
    (h : shouldIgnoreChunk assemblies clientId streamId metadata.seqId segmentId) :
    ¬ Awaits assemblies clientId streamId metadata segmentId raw := by
  obtain ⟨assembly, hget, hstream, hstale⟩ := shouldIgnoreChunk_iff.1 h
  rintro (⟨other, hother, _, rfl, rfl, _⟩ | ⟨_, _, hnone⟩)
  · cases hget.symm.trans hother
    omega
  · exact hnone assembly hget hstream

/-- **What a chunk does to the assemblies**: it is taken if it is awaited and fits, else dropped. -/
theorem observeChunk_cases (codec : Codec Message) (order : MapOrder) (now : Nat)
    (envelope : ClientEnvelope Message) (streamId : StreamId) (metadata : ClientSegmentMetadata) (segmentId : Nat) (text : Str)
    (hraw : ∀ assembly, assemblies.get envelope.clientId = some assembly →
      assembly.raw.length ≤ assembly.metadata.messageSizeBytes) :
    (∃ after, Shrinks assemblies after ∧
      observeChunk codec order now assemblies envelope streamId metadata segmentId text = (after, .dropped) ∧
      ∀ raw bytes, Awaits assemblies envelope.clientId streamId metadata segmentId raw →
        ¬ Fits codec metadata segmentId text raw bytes) ∨
    ∃ raw bytes, Awaits assemblies envelope.clientId streamId metadata segmentId raw ∧
      Fits codec metadata segmentId text raw bytes ∧
      ((segmentId + 1 < metadata.segmentCount ∧ ∃ room, Shrinks assemblies room ∧
          ((room.get envelope.clientId).isSome ∨ room.length < segmentAssemblyMaxCount) ∧
          observeChunk codec order now assemblies envelope streamId metadata segmentId text =
            (room.put envelope.clientId ⟨streamId, metadata, raw ++ bytes, segmentId + 1, now⟩, .pending)) ∨
        (segmentId + 1 = metadata.segmentCount ∧ ∃ after message, Shrinks assemblies after ∧
          codec.parse (raw ++ bytes) = some message ∧
          observeChunk codec order now assemblies envelope streamId metadata segmentId text =
            (after, .forward { envelope with event := .clientMessage message }))) := by
  unfold observeChunk
  by_cases hignore : shouldIgnoreChunk assemblies envelope.clientId streamId metadata.seqId segmentId
  · rw [if_pos hignore]
    exact .inl ⟨assemblies, Shrinks.refl _, rfl, fun raw bytes hawaits => absurd hawaits (not_awaits_of_stale hignore)⟩
  rw [if_neg hignore]
  by_cases hinvalid : invalidChunk metadata segmentId text
  · rw [if_pos hinvalid]
    refine .inl ⟨_, shrinks_removeAssembly _ _ _, rfl, fun raw bytes _ hfits => ?_⟩
    cases hinvalid.symm.trans hfits.valid
  rw [if_neg hinvalid]
  have hvalid := Bool.eq_false_iff.2 hinvalid
  rcases prepareAssembly_cases order now assemblies envelope.clientId streamId metadata with
    ⟨assembly, hget, hstream, hprepared⟩ | ⟨hnew, room, hshrinks, hprepared, hlength⟩
  · -- The client assembles a message of this stream.
    have hstale : ¬ (metadata.seqId < assembly.metadata.seqId ∨
        metadata.seqId = assembly.metadata.seqId ∧ segmentId < assembly.nextSegmentId) :=
      fun h => hignore (shouldIgnoreChunk_iff.2 ⟨assembly, hget, hstream, h⟩)
    dsimp only
    rw [hprepared, hget]
    dsimp only
    rcases advanceAssembly_cases codec now assembly hvalid hstale (hraw assembly hget) with
      ⟨hdrop, hnot⟩ | ⟨hmetadata, hnext, bytes, hfits, ⟨hmore, hpending⟩ | ⟨hlast, message, hparse, hcomplete⟩⟩
    · rw [hdrop]
      refine .inl ⟨_, shrinks_removeAssembly _ _ _, rfl, ?_⟩
      rintro raw bytes (⟨other, hother, _, hmetadata, hnext, rfl⟩ | ⟨_, _, hnone⟩) hfits
      · cases hget.symm.trans hother
        exact hnot hmetadata hnext bytes hfits
      · exact hnone assembly hget hstream
    · rw [hpending, hstream]
      exact .inr ⟨_, bytes, .inl ⟨assembly, hget, hstream, hmetadata, hnext, rfl⟩, hfits,
        .inl ⟨hmore, assemblies, Shrinks.refl _, .inl (by rw [hget]; rfl), rfl⟩⟩
    · rw [hcomplete]
      exact .inr ⟨_, bytes, .inl ⟨assembly, hget, hstream, hmetadata, hnext, rfl⟩, hfits,
        .inr ⟨hlast, _, message, shrinks_removeAssembly _ _ _, hparse, rfl⟩⟩
  · -- A new assembly, for the first chunk of a message.
    have hremoved : removeAssembly (room.put envelope.clientId ⟨streamId, metadata, [], 0, now⟩) envelope.clientId streamId =
        room.erase envelope.clientId := by
      unfold removeAssembly
      rw [get_put_self, if_pos (by simp), erase_put]
    have hstale : ¬ (metadata.seqId < metadata.seqId ∨ metadata.seqId = metadata.seqId ∧ segmentId < 0) := by omega
    dsimp only
    rw [hprepared, get_put_self]
    dsimp only
    rcases advanceAssembly_cases codec now ⟨streamId, metadata, [], 0, now⟩ hvalid hstale (zero_le _) with
      ⟨hdrop, hnot⟩ | ⟨_, hnext, bytes, hfits, ⟨hmore, hpending⟩ | ⟨hlast, message, hparse, hcomplete⟩⟩
    · rw [hdrop]
      rw [hremoved]
      refine .inl ⟨_, hshrinks.trans (shrinks_erase _ _), rfl, ?_⟩
      rintro raw bytes (⟨other, hother, hstream, _⟩ | ⟨rfl, rfl, _⟩) hfits
      · exact hnew other hother hstream
      · exact hnot rfl rfl bytes hfits
    · rw [hpending]
      dsimp only
      rw [put_put]
      exact .inr ⟨_, bytes, .inr ⟨hnext.symm, rfl, hnew⟩, hfits, .inl ⟨hmore, room, hshrinks, hlength, rfl⟩⟩
    · rw [hcomplete]
      rw [hremoved]
      exact .inr ⟨_, bytes, .inr ⟨hnext.symm, rfl, hnew⟩, hfits,
        .inr ⟨hlast, _, message, hshrinks.trans (shrinks_erase _ _), hparse, rfl⟩⟩

end Observe

end Owc.Remote
