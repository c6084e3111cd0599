import OpenWebCodex.Base64
import OpenWebCodex.RemoteReassemblyRun
/-!
# RemoteReassemblyDeliver — messages whose chunks arrive in order

A message whose chunks arrive in order is forwarded exactly if its client assembles nothing else for its stream when the
first one arrives: a chunk that finds another message in assembly drops it, and is dropped with it.
-/
namespace Owc.Remote

open List

def Input.clientId {Message : Type} : Input Message → ClientId
  | .observe _ envelope => envelope.clientId
  | .invalidateStream clientId _ => clientId
  | .invalidateClient clientId => clientId

section Deliver

variable {Message : Type} {codec : Codec Message} {order : MapOrder} {clientId : ClientId} {streamId : StreamId}
  {metadata : ClientSegmentMetadata}

/-- The chunks of a message from number `segmentId` on arrive in order, among inputs for other clients. -/
inductive Arrives (clientId : ClientId) (streamId : StreamId) (metadata : ClientSegmentMetadata) :
    Nat → List Str → List (Input Message) → Prop
  | done (segmentId : Nat) : Arrives clientId streamId metadata segmentId [] []
  | chunk {segmentId : Nat} {texts : List Str} {inputs : List (Input Message)} (now : Nat) (text : Str) (cursor : Option Str) :
      Arrives clientId streamId metadata (segmentId + 1) texts inputs →
      Arrives clientId streamId metadata segmentId (text :: texts)
        (.observe now ⟨.clientMessageChunk segmentId metadata.segmentCount metadata.messageSizeBytes text, clientId,
          some streamId, some metadata.seqId, cursor⟩ :: inputs)
  | other {segmentId : Nat} {texts : List Str} {inputs : List (Input Message)} {input : Input Message} :
      input.clientId ≠ clientId → Arrives clientId streamId metadata segmentId texts inputs →
      Arrives clientId streamId metadata segmentId texts (input :: inputs)

/-- No input for another client evicts the client's assembly. -/
def Undisturbed (codec : Codec Message) (order : MapOrder) (clientId : ClientId) : Assemblies → List (Input Message) → Prop
  | _, [] => True
  | assemblies, input :: inputs =>
    (input.clientId ≠ clientId → (Remote.step codec order assemblies input).1.get clientId = assemblies.get clientId) ∧
      Undisturbed codec order clientId (Remote.step codec order assemblies input).1 inputs

structure Carries (codec : Codec Message) (metadata : ClientSegmentMetadata) (texts : List Str) (message : Message) : Prop where
  count : texts.length = metadata.segmentCount
  countMax : metadata.segmentCount ≤ segmentCountMax
  size_pos : 0 < metadata.messageSizeBytes
  sizeMax : metadata.messageSizeBytes ≤ reassembledMaxBytes
  ne_nil : ∀ text ∈ texts, text ≠ []
  decodes : ∃ chunks, List.Forall₂ (fun text bytes => codec.decode text = some bytes) texts chunks ∧
    chunks.flatten.length = metadata.messageSizeBytes ∧ codec.parse chunks.flatten = some message

variable {segmentId : Nat} {assemblies : Assemblies}

theorem Awaits.unique (h : Awaits assemblies clientId streamId metadata segmentId raw)
    (h' : Awaits assemblies clientId streamId metadata segmentId other) : raw = other := by
  rcases h with ⟨assembly, hget, hstream, _, _, rfl⟩ | ⟨_, rfl, hnone⟩ <;>
    rcases h' with ⟨assembly', hget', hstream', _, _, rfl⟩ | ⟨_, rfl, hnone'⟩
  · cases hget.symm.trans hget'
    rfl
  · exact absurd hstream (hnone' assembly hget)
  · exact absurd hstream' (hnone assembly' hget')
  · rfl

/-- The client's assembly holds no more than its message is said to be. -/
def HasRoom (assemblies : Assemblies) (clientId : ClientId) : Prop :=
  ∀ assembly, assemblies.get clientId = some assembly → assembly.raw.length ≤ assembly.metadata.messageSizeBytes

variable {inputs : List (Input Message)}

/-- **An awaited message is forwarded**: from the chunk that is awaited on, each is taken. -/
theorem forwarded_of_awaits (hcountMax : metadata.segmentCount ≤ segmentCountMax)
    (hsizeMax : metadata.messageSizeBytes ≤ reassembledMaxBytes) (hsize : 0 < metadata.messageSizeBytes)

    (harrives : Arrives clientId streamId metadata segmentId texts inputs) :
    ∀ {assemblies : Assemblies} {raw : List UInt8} {chunks : List (List UInt8)}, texts ≠ [] →
      Awaits assemblies clientId streamId metadata segmentId raw → HasRoom assemblies clientId →
      (∀ text ∈ texts, text ≠ []) → segmentId + texts.length = metadata.segmentCount →
      List.Forall₂ (fun text bytes => codec.decode text = some bytes) texts chunks →
      (raw ++ chunks.flatten).length = metadata.messageSizeBytes → codec.parse (raw ++ chunks.flatten) = some message →
      Undisturbed codec order clientId assemblies inputs →
      ∃ cursor, some (.forward ⟨.clientMessage message, clientId, some streamId, some metadata.seqId, cursor⟩) ∈
        (runAll codec order assemblies inputs).2 := by
  induction harrives with
  | done => exact fun h => absurd rfl h
  | other hother _ ih =>
    intro assemblies raw chunks hne hawaits hroom htexts hcount hdecodes hlength hparse hundisturbed
    have hget := hundisturbed.1 hother
    unfold Awaits at hawaits
    rw [← hget] at hawaits
    obtain ⟨cursor, hmem⟩ := ih hne hawaits (fun assembly h => hroom assembly (hget ▸ h)) htexts hcount hdecodes hlength
      hparse hundisturbed.2
    exact ⟨cursor, mem_cons_of_mem _ hmem⟩
  | @chunk segmentId texts inputs now text cursor _ ih =>
    intro assemblies raw chunks _ hawaits hroom htexts hcount hdecodes hlength hparse hundisturbed
    cases hdecodes with
    | @cons _ bytes _ chunks hdecode hdecodes =>
      rw [length_cons] at hcount
      rw [flatten_cons, ← append_assoc] at hlength hparse
      have hfits : Fits codec metadata segmentId text raw bytes := by
        refine ⟨invalidChunk_eq_false.2 ⟨by omega, hcountMax, by omega, hsize, hsizeMax, htexts text mem_cons_self⟩,
          hdecode, ?_, fun hlast => ?_⟩
        · simp only [length_append] at hlength
          omega
        · -- The last chunk: nothing is left to decode.
          have hnil : texts = [] := length_eq_zero_iff.1 (by omega)
          subst hnil
          cases hdecodes
          rw [flatten_nil, append_nil] at hlength hparse
          exact ⟨hlength, by rw [hparse]; rfl⟩
      have hundisturbed' := hundisturbed.2
      unfold runAll
      dsimp only [step, observe] at hundisturbed' ⊢
      rcases observeChunk_cases codec order now ⟨.clientMessageChunk segmentId metadata.segmentCount
          metadata.messageSizeBytes text, clientId, some streamId, some metadata.seqId, cursor⟩ streamId metadata segmentId
          text hroom with
        ⟨_, _, _, hnot⟩ | ⟨raw', bytes', hawaits', hfits', hresult⟩
      · exact absurd hfits (hnot raw bytes hawaits)
      · have hraw := hawaits'.unique hawaits
        cases hraw
        cases hfits'.decodes.symm.trans hdecode
        rcases hresult with ⟨hmore, room, _, _, heq⟩ | ⟨hlast, after, message', _, hparse', heq⟩
        · rw [heq] at hundisturbed' ⊢
          have hget : Table.get (room.put clientId ⟨streamId, metadata, raw ++ bytes, segmentId + 1, now⟩) clientId = _ :=
            Table.get_put_self _ _ _
          obtain ⟨cursor, hmem⟩ := ih (by rintro rfl; simp at hcount; omega) (.inl ⟨_, hget, rfl, rfl, rfl, rfl⟩)
            (fun assembly h => by
              cases hget.symm.trans h
              rw [length_append]
              exact hfits.room)
            (fun text htext => htexts text (mem_cons_of_mem _ htext)) (by omega) hdecodes hlength hparse hundisturbed'
          exact ⟨cursor, mem_cons_of_mem _ hmem⟩
        · rw [heq]
          have hnil : texts = [] := length_eq_zero_iff.1 (by omega)
          subst hnil
          cases hdecodes
          rw [flatten_nil, append_nil] at hparse
          cases hparse'.symm.trans hparse
          exact ⟨cursor, mem_cons_self⟩

/-- The message cannot be forwarded any more: another one of its stream is in assembly, or chunks of it are gone. -/
def Lost (assemblies : Assemblies) (clientId : ClientId) (streamId : StreamId) (metadata : ClientSegmentMetadata)
    (segmentId : Nat) : Prop :=
  (∃ assembly, assemblies.get clientId = some assembly ∧ assembly.streamId = streamId ∧
    assembly.metadata.seqId ≠ metadata.seqId) ∨
  (0 < segmentId ∧ assemblies.get clientId = none)

theorem Lost.not_awaits (h : Lost assemblies clientId streamId metadata segmentId) :
    ¬ Awaits assemblies clientId streamId metadata segmentId raw := by
  rcases h with ⟨assembly, hget, hstream, hseq⟩ | ⟨hpos, hnone⟩
  · rintro (⟨other, hother, _, hmetadata, _⟩ | ⟨_, _, hother⟩)
    · cases hget.symm.trans hother
      exact hseq (congrArg _ hmetadata)
    · exact hother assembly hget hstream
  · rintro (⟨other, hother, _⟩ | ⟨rfl, _⟩)
    · cases hnone.symm.trans hother
    · exact Nat.lt_irrefl 0 hpos

theorem Lost.shrinks {assemblies after}
    (h : Lost assemblies clientId streamId metadata segmentId) (hshrinks : Shrinks assemblies after) :
    Lost after clientId streamId metadata (segmentId + 1) := by
  cases hget : after.get clientId with
  | none => exact .inr ⟨Nat.succ_pos _, hget⟩
  | some =>
    have hold := hshrinks.get_of_get hget
    rcases h with ⟨other, hother, hrest⟩ | ⟨_, hnone⟩
    · cases hold.symm.trans hother
      exact .inl ⟨_, hget, hrest⟩
    · cases hnone.symm.trans hold

theorem clientId_of_forward (h : Good codec history assemblies)
    (hforward : (step codec order assemblies input).2 = some (.forward forwarded)) : forwarded.clientId = input.clientId := by
  cases input with
  | observe now envelope =>
    rcases (h.observe order now envelope).2 forwarded (Option.some_inj.1 hforward) with
      ⟨_, rfl⟩ | ⟨_, _, _, _, _, _, _, _, _, rfl⟩
    · rfl
    · rfl
  | _ => cases hforward

/-- **A lost message is not forwarded**, nor anything else for its client. -/
theorem not_forwarded_of_lost {texts} (harrives : Arrives clientId streamId metadata segmentId texts inputs) :
    ∀ {history : List (ClientEnvelope Message)} {assemblies : Assemblies}, Good codec history assemblies →
      Lost assemblies clientId streamId metadata segmentId → Undisturbed codec order clientId assemblies inputs →
      ∀ forwarded, some (.forward forwarded) ∈ (runAll codec order assemblies inputs).2 → forwarded.clientId ≠ clientId := by
  induction harrives with
  | done => exact fun _ _ _ _ h => absurd h not_mem_nil
  | @other segmentId texts inputs input hother _ ih =>
    intro history assemblies hgood hlost hundisturbed forwarded hmem
    rcases mem_cons.1 hmem with hhead | hmem
    · rw [clientId_of_forward hgood hhead.symm]
      exact hother
    have hget := hundisturbed.1 hother
    refine ih (hgood.step order input) ?_ hundisturbed.2 forwarded hmem
    unfold Lost at hlost ⊢
    rwa [hget]
  | @chunk segmentId texts inputs now text cursor _ ih =>
    intro history assemblies hgood hlost hundisturbed forwarded hmem
    have hgood' := hgood.step order (.observe now ⟨.clientMessageChunk segmentId metadata.segmentCount
      metadata.messageSizeBytes text, clientId, some streamId, some metadata.seqId, cursor⟩)
    have hundisturbed' := hundisturbed.2
    unfold runAll at hmem
    dsimp only [step, observe] at hgood' hundisturbed' hmem
    rcases observeChunk_cases codec order now ⟨.clientMessageChunk segmentId metadata.segmentCount
        metadata.messageSizeBytes text, clientId, some streamId, some metadata.seqId, cursor⟩ streamId metadata segmentId
        text (fun assembly hget => (hgood.held clientId assembly hget).room) with
      ⟨after, hshrinks, heq, _⟩ | ⟨raw, bytes, hawaits, _⟩
    · rw [heq] at hgood' hundisturbed' hmem
      rcases mem_cons.1 hmem with hhead | hmem
      · cases hhead
      · exact ih hgood' (hlost.shrinks hshrinks) hundisturbed' forwarded hmem
    · exact absurd hawaits hlost.not_awaits

/-- A new message whose chunks arrive in order is forwarded exactly if its client assembles nothing for its stream. -/
theorem forwarded_iff (hgood : Good codec history assemblies)
 (hcarries : Carries codec metadata texts message)
    (harrives : Arrives clientId streamId metadata 0 texts inputs)
    (hundisturbed : Undisturbed codec order clientId assemblies inputs)
    (hnew : ∀ assembly, assemblies.get clientId = some assembly → assembly.streamId = streamId →
      assembly.metadata.seqId ≠ metadata.seqId) :
    (∃ cursor, some (.forward ⟨.clientMessage message, clientId, some streamId, some metadata.seqId, cursor⟩) ∈
        (runAll codec order assemblies inputs).2) ↔
      ∀ assembly, assemblies.get clientId = some assembly → assembly.streamId ≠ streamId := by
  constructor
  · rintro ⟨cursor, hmem⟩ assembly hget hstream
    exact not_forwarded_of_lost harrives hgood (.inl ⟨assembly, hget, hstream, hnew assembly hget hstream⟩) hundisturbed _ hmem
      rfl
  · intro hnone
    obtain ⟨_, hdecodes, hlength, hparse⟩ := hcarries.decodes
    refine forwarded_of_awaits hcarries.countMax hcarries.sizeMax hcarries.size_pos harrives ?_
      (.inr ⟨rfl, rfl, hnone⟩) (fun assembly hget => (hgood.held clientId assembly hget).room) hcarries.ne_nil
      (by rw [Nat.zero_add]; exact hcarries.count) hdecodes hlength hparse hundisturbed
    rintro rfl
    cases hdecodes
    exact absurd hlength (Nat.ne_of_lt hcarries.size_pos)

end Deliver

def braceCodec : Codec (List UInt8) where
  decode := Base64.decode
  decodedLenEstimate n := (n + 3) / 4 * 3
  parse bytes := if bytes.head? = some 123 ∧ bytes.getLast? = some 125 then some bytes else none
  length_decode_le text bytes h := by
    have hdecode := Base64.length_decode_le h
    have hlength := Str.length_le_utf8Len text
    omega

def braceChunk (streamId : StreamId) (seqId segmentId : Nat) (text : Str) : Input (List UInt8) :=
  .observe seqId ⟨.clientMessageChunk segmentId 2 2 text, ⟨['c']⟩, some streamId, some seqId, none⟩

end Owc.Remote
