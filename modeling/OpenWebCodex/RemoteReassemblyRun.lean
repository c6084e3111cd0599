import OpenWebCodex.RemoteReassemblyStep
/-!
# RemoteReassemblyRun — every run of the reassembler

What an assembly holds was decoded from chunks that were observed, in their order, and is never more than the message is
said to be.
-/
namespace Owc.Remote

open List

section Run

variable {Message : Type} {codec : Codec Message} {order : MapOrder}

def IsChunk (codec : Codec Message) (clientId : ClientId) (streamId : StreamId) (metadata : ClientSegmentMetadata)
    (segmentId : Nat) (envelope : ClientEnvelope Message) (bytes : List UInt8) : Prop :=
  ∃ text, codec.decode text = some bytes ∧
    envelope.event = .clientMessageChunk segmentId metadata.segmentCount metadata.messageSizeBytes text ∧
    envelope.clientId = clientId ∧ envelope.streamId = some streamId ∧ envelope.seqId = some metadata.seqId

/-- The first `count` chunks of a message were observed in their order, and decode to `raw`. -/
def Collected (codec : Codec Message) (history : List (ClientEnvelope Message)) (clientId : ClientId) (streamId : StreamId)
    (metadata : ClientSegmentMetadata) (count : Nat) (raw : List UInt8) : Prop :=
  ∃ parts : List (ClientEnvelope Message × List UInt8), (parts.map Prod.fst).Sublist history ∧ parts.length = count ∧
    (∀ segmentId part, parts[segmentId]? = some part → IsChunk codec clientId streamId metadata segmentId part.1 part.2) ∧
    (parts.map Prod.snd).flatten = raw

theorem Collected.nil (history : List (ClientEnvelope Message)) (clientId : ClientId) (streamId : StreamId)
    (metadata : ClientSegmentMetadata) : Collected codec history clientId streamId metadata 0 [] :=
  ⟨[], nil_sublist _, rfl, fun _ _ h => (nomatch h), rfl⟩

variable {history : List (ClientEnvelope Message)} {metadata : ClientSegmentMetadata} {streamId : StreamId}

section

variable {clientId : ClientId} {count : Nat} {raw : List UInt8}
  (h : Collected codec history clientId streamId metadata count raw)
include h

theorem Collected.mono (more : List (ClientEnvelope Message)) :
    Collected codec (history ++ more) clientId streamId metadata count raw := by
  obtain ⟨parts, hsublist, hrest⟩ := h
  exact ⟨parts, hsublist.trans (sublist_append_left _ _), hrest⟩

theorem Collected.snoc (hchunk : IsChunk codec clientId streamId metadata count envelope bytes) :
    Collected codec (history ++ [envelope]) clientId streamId metadata (count + 1) (raw ++ bytes) := by
  obtain ⟨parts, hsublist, rfl, hparts, rfl⟩ := h
  refine ⟨parts ++ [(envelope, bytes)], ?_, by simp, fun segmentId part hpart => ?_, by simp⟩
  · rw [map_append]
    exact hsublist.append (List.Sublist.refl _)
  · rw [getElem?_append] at hpart
    split at hpart
    · exact hparts segmentId part hpart
    obtain ⟨hlt, heq⟩ := List.getElem?_eq_some_iff.1 hpart
    rw [List.length_singleton] at hlt
    have hzero : segmentId - parts.length = 0 := by omega
    have hsegment : segmentId = parts.length := by omega
    rw [hsegment]
    simp only [hzero, getElem_cons_zero] at heq
    exact heq ▸ hchunk

end

structure Held (codec : Codec Message) (history : List (ClientEnvelope Message)) (clientId : ClientId)
    (assembly : ClientSegmentAssembly) : Prop where
  collected : Collected codec history clientId assembly.streamId assembly.metadata assembly.nextSegmentId assembly.raw
  room : assembly.raw.length ≤ assembly.metadata.messageSizeBytes
  size : assembly.metadata.messageSizeBytes ≤ reassembledMaxBytes
  count : assembly.metadata.segmentCount ≤ segmentCountMax
  unfinished : assembly.nextSegmentId < assembly.metadata.segmentCount

/-- What holds in every run, after `history` was observed. -/
structure Good (codec : Codec Message) (history : List (ClientEnvelope Message)) (assemblies : Assemblies) : Prop where
  length : assemblies.length ≤ segmentAssemblyMaxCount
  held : ∀ clientId assembly, assemblies.get clientId = some assembly → Held codec history clientId assembly

theorem Good.shrinks {before after} (h : Good codec history before)
    (hshrinks : Shrinks before after) (more : List (ClientEnvelope Message)) : Good codec (history ++ more) after := by
  refine ⟨Nat.le_trans hshrinks.length_le h.length, fun clientId assembly hget => ?_⟩
  obtain ⟨hcollected, hroom, hsize, hcount, hunfinished⟩ := h.held clientId assembly (hshrinks.get_of_get hget)
  exact ⟨hcollected.mono more, hroom, hsize, hcount, hunfinished⟩

variable {assemblies : Assemblies}

theorem Good.collected_of_awaits
    (h : Good codec history assemblies) (hawaits : Awaits assemblies clientId streamId metadata segmentId raw) :
    Collected codec history clientId streamId metadata segmentId raw := by
  rcases hawaits with ⟨assembly, hget, rfl, rfl, rfl, rfl⟩ | ⟨rfl, rfl, _⟩
  · exact (h.held clientId assembly hget).collected
  · exact Collected.nil _ _ _ _

section

variable (h : Good codec history assemblies) (order : MapOrder)
include h

theorem Good.observeChunk (now : Nat) {envelope} (metadata : ClientSegmentMetadata) {segmentId text}
    (hevent : envelope.event = .clientMessageChunk segmentId metadata.segmentCount metadata.messageSizeBytes text)
    (hstream : envelope.streamId = some streamId) (hseq : envelope.seqId = some metadata.seqId) :
    Good codec (history ++ [envelope]) (observeChunk codec order now assemblies envelope streamId metadata segmentId text).1 ∧
    ∀ forwarded, (Remote.observeChunk codec order now assemblies envelope streamId metadata segmentId text).2 =
        .forward forwarded →
      ∃ raw message, Collected codec (history ++ [envelope]) envelope.clientId streamId metadata metadata.segmentCount raw ∧
        raw.length = metadata.messageSizeBytes ∧ codec.parse raw = some message ∧
        forwarded = { envelope with event := .clientMessage message } := by
  rcases observeChunk_cases codec order now envelope streamId metadata segmentId text
      (fun assembly hget => (h.held envelope.clientId assembly hget).room) with
    ⟨after, hshrinks, heq, _⟩ | ⟨raw, bytes, hawaits, hfits, hresult⟩
  · rw [heq]
    exact ⟨h.shrinks hshrinks _, fun _ hforward => (nomatch hforward)⟩
  · have hcollected := (h.collected_of_awaits hawaits).snoc
      (⟨text, hfits.decodes, hevent, rfl, hstream, hseq⟩ : IsChunk codec envelope.clientId streamId metadata segmentId envelope bytes)
    obtain ⟨_, hcount, _, _, hsize, _⟩ := invalidChunk_eq_false.1 hfits.valid
    rcases hresult with ⟨hmore, room, hshrinks, hlength, heq⟩ | ⟨hlast, after, message, hshrinks, hparse, heq⟩ <;> rw [heq]
    · refine ⟨⟨?_, fun clientId assembly hget => ?_⟩, fun _ hforward => (nomatch hforward)⟩
      · rcases hlength with hsome | hlt
        · rw [Table.length_put_of_get _ _ hsome]
          exact Nat.le_trans hshrinks.length_le h.length
        · exact Nat.le_trans (Table.length_put_le _ _ _) hlt
      · rcases Table.get_put_some hget with ⟨rfl, rfl⟩ | ⟨_, hold⟩
        · exact ⟨hcollected, by rw [length_append]; exact hfits.room, hsize, hcount, hmore⟩
        · exact (h.shrinks hshrinks [envelope]).held clientId assembly hold
    · refine ⟨h.shrinks hshrinks _, fun forwarded hforward => ?_⟩
      cases hforward
      exact ⟨raw ++ bytes, message, hlast ▸ hcollected, (hfits.whole (Nat.le_of_eq hlast.symm)).1, hparse, rfl⟩

theorem Good.observe (now : Nat) (envelope : ClientEnvelope Message) :
    Good codec (history ++ [envelope]) (observe codec order now assemblies envelope).1 ∧
    ∀ forwarded, (Remote.observe codec order now assemblies envelope).2 = .forward forwarded →
      ((∀ segmentId count size text, envelope.event ≠ .clientMessageChunk segmentId count size text) ∧ forwarded = envelope) ∨
      ∃ streamId metadata raw message,
        Collected codec (history ++ [envelope]) envelope.clientId streamId metadata metadata.segmentCount raw ∧
        envelope.streamId = some streamId ∧ envelope.seqId = some metadata.seqId ∧
        raw.length = metadata.messageSizeBytes ∧ codec.parse raw = some message ∧
        forwarded = { envelope with event := .clientMessage message } := by
  have hsame : Good codec (history ++ [envelope]) assemblies := h.shrinks (Shrinks.refl _) _
  unfold Remote.observe
  cases hevent : envelope.event with
  | clientMessageChunk segmentId count size =>
    cases hseq : envelope.seqId with
    | none => exact ⟨hsame, fun _ hforward => (nomatch hforward)⟩
    | some seqId =>
      cases hstream : envelope.streamId with
      | none => exact ⟨hsame, fun _ hforward => (nomatch hforward)⟩
      | some streamId =>
        obtain ⟨hgood, hforward⟩ := h.observeChunk order now ⟨seqId, count, size⟩ hevent hstream hseq
        refine ⟨hgood, fun forwarded hforwarded => .inr ?_⟩
        obtain ⟨raw, message, hcollected, hrest⟩ := hforward forwarded hforwarded
        rw [hstream, hseq] at hrest
        exact ⟨streamId, ⟨seqId, count, size⟩, raw, message, hcollected, rfl, rfl, hrest⟩
  | _ =>
    refine ⟨hsame, fun forwarded hforward => .inl ⟨fun _ _ _ _ h => (nomatch h), ?_⟩⟩
    cases hforward
    rfl

def envelopes : List (Input Message) → List (ClientEnvelope Message) :=
  List.filterMap (fun input => match input with
    | .observe _ envelope => some envelope
    | _ => none)

theorem Good.step (input : Input Message) :
    Good codec (history ++ envelopes [input]) (step codec order assemblies input).1 := by
  cases input with
  | observe now envelope => exact (h.observe order now envelope).1
  | invalidateStream => exact h.shrinks (shrinks_removeAssembly _ _ _) _
  | invalidateClient => exact h.shrinks (shrinks_erase _ _) _

end

theorem Good.runAll (order : MapOrder) : ∀ (inputs : List (Input Message)) {history : List (ClientEnvelope Message)}
    {assemblies : Assemblies}, Good codec history assemblies →
    Good codec (history ++ envelopes inputs) (runAll codec order assemblies inputs).1
  | [], history, _, h => by
    rw [show envelopes ([] : List (Input Message)) = [] from rfl, append_nil]
    exact h
  | input :: inputs, history, _, h => by
    have hrest := Good.runAll order inputs (h.step order input)
    rw [append_assoc, show envelopes [input] ++ envelopes inputs = envelopes (input :: inputs) from
      (filterMap_append (l := [input])).symm] at hrest
    exact hrest

theorem good_nil : Good codec [] [] := ⟨Nat.zero_le _, fun _ _ h => (nomatch h)⟩

end Run

end Owc.Remote
