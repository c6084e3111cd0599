import OpenWebCodex.RemoteTracker
/-!
# RemoteOutbound — envelopes that are kept until they are acknowledged

`BoundedOutboundBuffer` of `websocket.rs`: a queue for each stream, and a counter of the envelopes in all of them.  A run
of inserts, acknowledgements and reconnects is compared with what was inserted and not acknowledged since.
-/
namespace Owc.Remote

open List

variable {Message : Type}

def ServerEvent.segmentId : ServerEvent Message → Option Nat
  | .serverMessageChunk segmentId _ _ _ => some segmentId
  | .serverMessage _ | .ack | .pong _ => none

def ServerEnvelope.streamKey (envelope : ServerEnvelope Message) : ClientKey :=
  (envelope.clientId, envelope.streamId)

def usizeMax : Nat := 2 ^ 64 - 1

/-- The cursor of the envelope, the pair of its sequence number and segment, is at most the acknowledged one. -/
def isAcked (ackedSeqId : Nat) (ackedSegmentId : Option Nat) (envelope : ServerEnvelope Message) : Bool :=
  decide (envelope.seqId < ackedSeqId) || envelope.seqId == ackedSeqId &&
    decide (envelope.event.segmentId.getD 0 ≤ ackedSegmentId.getD usizeMax)

structure BoundedOutboundBuffer (Message : Type) where
  bufferByStream : Table ClientKey (List (ServerEnvelope Message)) := []
  used : Nat := 0

/-- The order in which a map lists its streams. -/
structure StreamOrder where
  arrange : List ClientKey → List ClientKey
  perm : ∀ keys, (arrange keys).Perm keys

namespace BoundedOutboundBuffer

def queue (buffer : BoundedOutboundBuffer Message) (key : ClientKey) : List (ServerEnvelope Message) :=
  (buffer.bufferByStream.get key).getD []

def insert (buffer : BoundedOutboundBuffer Message) (envelope : ServerEnvelope Message) : BoundedOutboundBuffer Message where
  bufferByStream := buffer.bufferByStream.put envelope.streamKey (buffer.queue envelope.streamKey ++ [envelope])
  used := buffer.used + 1

/-- The envelopes that stay, and the counter, which each of the others takes down by one: `none` where it would underflow. -/
def retain (acked : ServerEnvelope Message → Bool) :
    List (ServerEnvelope Message) → Nat → Option (List (ServerEnvelope Message) × Nat)
  | [], used => some ([], used)
  | envelope :: queue, used =>
    if acked envelope then if used = 0 then none else retain acked queue (used - 1)
    else (retain acked queue used).map (fun kept => (envelope :: kept.1, kept.2))

def ack (buffer : BoundedOutboundBuffer Message) (clientId : ClientId) (streamId : StreamId) (ackedSeqId : Nat)
    (ackedSegmentId : Option Nat) : Option (BoundedOutboundBuffer Message) :=
  match buffer.bufferByStream.get (clientId, streamId) with
  | none => some buffer
  | some queue => (retain (isAcked ackedSeqId ackedSegmentId) queue buffer.used).map (fun kept =>
      if kept.1.isEmpty then ⟨buffer.bufferByStream.erase (clientId, streamId), kept.2⟩
      else ⟨buffer.bufferByStream.put (clientId, streamId) kept.1, kept.2⟩)

def serverEnvelopes (order : StreamOrder) (buffer : BoundedOutboundBuffer Message) : List (ServerEnvelope Message) :=
  (order.arrange (buffer.bufferByStream.map Prod.fst)).flatMap buffer.queue

end BoundedOutboundBuffer

inductive OutboundStep (Message : Type)
  | insert (envelope : ServerEnvelope Message)
  | ack (clientId : ClientId) (streamId : StreamId) (seqId : Nat) (segmentId : Option Nat)
  | reconnect

namespace OutboundStep

def apply (buffer : BoundedOutboundBuffer Message) : OutboundStep Message → Option (BoundedOutboundBuffer Message)
  | .insert envelope => some (buffer.insert envelope)
  | .ack clientId streamId seqId segmentId => buffer.ack clientId streamId seqId segmentId
  | .reconnect => some buffer

def acks (envelope : ServerEnvelope Message) : OutboundStep Message → Bool
  | .ack clientId streamId seqId segmentId => decide (envelope.streamKey = (clientId, streamId)) && isAcked seqId segmentId envelope
  | .insert _ | .reconnect => false

/-- **The envelopes that no later step acknowledges**, in the order of their inserts. -/
def unacknowledged : List (OutboundStep Message) → List (ServerEnvelope Message)
  | [] => []
  | .insert envelope :: later =>
    if later.any (acks envelope) then unacknowledged later else envelope :: unacknowledged later
  | .ack _ _ _ _ :: later | .reconnect :: later => unacknowledged later

def inserted : OutboundStep Message → List (ServerEnvelope Message)
  | .insert envelope => [envelope]
  | .ack _ _ _ _ | .reconnect => []

theorem unacknowledged_concat (steps : List (OutboundStep Message)) (last : OutboundStep Message) :
    unacknowledged (steps ++ [last]) = (unacknowledged steps).filter (!acks · last) ++ last.inserted := by
  induction steps with
  | nil => cases last <;> rfl
  | cons step steps ih =>
    cases step with
    | insert envelope =>
      simp only [cons_append, unacknowledged, any_append, any_cons, any_nil, Bool.or_false]
      cases steps.any (acks envelope) <;> cases hlast : acks envelope last <;> simp [ih, hlast]
    | _ => exact ih

end OutboundStep

/-! ## One step -/

open BoundedOutboundBuffer OutboundStep

theorem retain_eq (acked : ServerEnvelope Message → Bool) (queue : List (ServerEnvelope Message)) {used}
    (h : queue.countP acked ≤ used) : retain acked queue used = some (queue.filter (!acked ·), used - queue.countP acked) := by
  induction queue generalizing used with
  | nil => rfl
  | cons envelope queue ih =>
    rw [retain]
    by_cases hacked : acked envelope = true
    · rw [countP_cons_of_pos hacked] at h ⊢
      rw [if_pos hacked, if_neg (by omega), ih (by omega)]
      simp only [filter_cons, hacked, Bool.not_true, Bool.false_eq_true, if_false]
      congr 2
      omega
    · rw [countP_cons_of_neg hacked] at h ⊢
      rw [if_neg hacked, ih h]
      simp [hacked]

/-- **The buffer holds the envelopes**, each stream's in their order. -/
structure Holds (buffer : BoundedOutboundBuffer Message) (kept : List (ServerEnvelope Message)) : Prop where
  distinct : buffer.bufferByStream.Distinct
  queue_eq : ∀ key, buffer.queue key = kept.filter (decide <| ·.streamKey = key)
  used_eq : buffer.used = kept.length

variable {buffer : BoundedOutboundBuffer Message} {kept : List (ServerEnvelope Message)}

theorem Holds.insert (h : Holds buffer kept) (envelope : ServerEnvelope Message) :
    Holds (buffer.insert envelope) (kept ++ [envelope]) where
  distinct := h.distinct.put _ _
  queue_eq key := by
    rw [filter_append, ← h.queue_eq key, queue, BoundedOutboundBuffer.insert, Table.get_put]
    by_cases hkey : key = envelope.streamKey
    · simp [hkey]
    · simp [queue, hkey, Ne.symm hkey]
  used_eq := by simp [BoundedOutboundBuffer.insert, h.used_eq]

section Ack

variable (h : Holds buffer kept) (clientId : ClientId) (streamId : StreamId) (seqId : Nat) (segmentId : Option Nat)

include h

theorem Holds.filter_acks (key : ClientKey) :
    (kept.filter (!acks · (.ack clientId streamId seqId segmentId))).filter (decide <| ·.streamKey = key) =
      if key = (clientId, streamId) then (buffer.queue key).filter (!isAcked seqId segmentId ·) else buffer.queue key := by
  rw [h.queue_eq, filter_filter, filter_filter, ← apply_ite (List.filter · kept)]
  refine filter_congr fun envelope _ => ?_
  by_cases henvelope : envelope.streamKey = key
  · by_cases hkey : key = (clientId, streamId) <;> simp [acks, henvelope, hkey]
  · split <;> simp [henvelope]

/-- The counter does not underflow, and the queue of the stream keeps what is behind the cursor. -/
theorem Holds.ack : ∃ after, buffer.ack clientId streamId seqId segmentId = some after ∧
    Holds after (kept.filter (!acks · (.ack clientId streamId seqId segmentId))) := by
  have hcount : (buffer.queue (clientId, streamId)).countP (isAcked seqId segmentId) =
      kept.countP (acks · (.ack clientId streamId seqId segmentId)) := by
    rw [h.queue_eq, countP_filter]
    simp only [acks, Bool.and_comm]
  have hle : (buffer.queue (clientId, streamId)).countP (isAcked seqId segmentId) ≤ buffer.used := by
    rw [hcount, h.used_eq]
    exact countP_le_length
  have hlength : buffer.used - (buffer.queue (clientId, streamId)).countP (isAcked seqId segmentId) =
      (kept.filter (!acks · (.ack clientId streamId seqId segmentId))).length := by
    have := kept.length_eq_countP_add_countP (acks · (.ack clientId streamId seqId segmentId))
    rw [h.used_eq, hcount, ← countP_eq_length_filter]
    simp only [Bool.not_eq_true, Bool.decide_eq_false] at this
    omega
  unfold BoundedOutboundBuffer.ack
  rw [queue] at hle hlength
  cases hget : buffer.bufferByStream.get (clientId, streamId) with
  | none =>
    rw [hget] at hlength
    refine ⟨buffer, rfl, h.distinct, fun key => ?_, hlength⟩
    rw [h.filter_acks]
    split
    · next hkey => rw [hkey, queue, hget]; rfl
    · rfl
  | some envelopes =>
    rw [hget, Option.getD_some] at hle hlength
    dsimp only
    rw [retain_eq _ _ hle, Option.map_some]
    refine ⟨_, rfl, ?_⟩
    have henvelopes : envelopes = buffer.queue (clientId, streamId) := by rw [queue, hget]; rfl
    dsimp only
    split
    · next hempty =>
      refine ⟨h.distinct.filter _, fun key => ?_, hlength⟩
      rw [h.filter_acks, queue, Table.get_erase]
      split
      · next hkey => rw [hkey, ← henvelopes]; exact (List.isEmpty_iff.1 hempty).symm
      · rfl
    · refine ⟨h.distinct.put _ _, fun key => ?_, hlength⟩
      rw [h.filter_acks, queue, Table.get_put]
      split
      · next hkey => rw [hkey, ← henvelopes]; rfl
      · rfl

end Ack

theorem Holds.apply (h : Holds buffer kept) (step : OutboundStep Message) :
    ∃ after, step.apply buffer = some after ∧ Holds after (kept.filter (!acks · step) ++ step.inserted) := by
  have hnone : kept.filter (fun _ => !false) = kept := filter_eq_self.2 fun _ _ => rfl
  cases step with
  | insert envelope =>
    refine ⟨_, rfl, ?_⟩
    simp only [acks, hnone]
    exact h.insert envelope
  | ack clientId streamId seqId segmentId =>
    obtain ⟨after, hack, hafter⟩ := h.ack clientId streamId seqId segmentId
    exact ⟨after, hack, by simpa only [inserted, append_nil] using hafter⟩
  | reconnect =>
    refine ⟨_, rfl, ?_⟩
    simp only [acks, hnone, inserted, append_nil]
    exact h

/-! ## Runs -/

theorem holds_run (steps : List (OutboundStep Message)) :
    ∃ buffer, steps.foldlM OutboundStep.apply {} = some buffer ∧ Holds buffer (unacknowledged steps) := by
  induction steps using List.reverseRecOn with
  | nil => exact ⟨_, rfl, nodup_nil, fun _ => rfl, rfl⟩
  | append_singleton steps step ih =>
    obtain ⟨_, hrun, h⟩ := ih
    obtain ⟨after, hafter, hholds⟩ := h.apply step
    rw [← unacknowledged_concat] at hholds
    exact ⟨after, by simp [foldlM_append, hrun, hafter], hholds⟩

theorem filter_flatMap {K α : Type} [DecidableEq K] {f : α → K} {q : K → List α} (hq : ∀ k, ∀ a ∈ q k, f a = k) (k : K)
    {keys : List K} (hkeys : keys.Nodup) : (keys.flatMap q).filter (decide <| f · = k) = if k ∈ keys then q k else [] := by
  have hall : ∀ j, (q j).filter (decide <| f · = k) = if j = k then q j else [] := by
    intro j
    split
    · next hj => exact filter_eq_self.2 fun a ha => by simp [hq j a ha, hj]
    · next hj => exact filter_eq_nil_iff.2 fun a ha => by simp [hq j a ha, hj]
  induction keys with
  | nil => rfl
  | cons j keys ih =>
    rw [nodup_cons] at hkeys
    rw [flatMap_cons, filter_append, hall, ih hkeys.2]
    by_cases hj : j = k
    · subst hj
      simp [hkeys.1]
    · simp [hj, Ne.symm hj]

theorem perm_of_filter_eq {K α : Type} [DecidableEq K] {f : α → K} {as bs : List α}
    (h : ∀ k, as.filter (decide <| f · = k) = bs.filter (decide <| f · = k)) : as.Perm bs := by
  classical
  refine perm_iff_count.2 fun a => ?_
  rw [← count_filter (p := (decide <| f · = f a)) (by simp), h, count_filter (by simp)]

theorem Holds.filter_serverEnvelopes (h : Holds buffer kept) (order : StreamOrder) (key : ClientKey) :
    (buffer.serverEnvelopes order).filter (decide <| ·.streamKey = key) = kept.filter (decide <| ·.streamKey = key) := by
  have hperm := order.perm (buffer.bufferByStream.map Prod.fst)
  have hkeyed : ∀ key, ∀ envelope ∈ buffer.queue key, envelope.streamKey = key := by
    intro key envelope hmem
    rw [h.queue_eq, mem_filter, decide_eq_true_eq] at hmem
    exact hmem.2
  rw [serverEnvelopes, filter_flatMap hkeyed key (hperm.nodup_iff.2 h.distinct), ← h.queue_eq]
  split
  · rfl
  · next hnot =>
    rw [queue, Table.get_eq_none_iff.2 fun hmem => hnot (hperm.mem_iff.2 hmem)]
    rfl

/-- **No envelope is lost before it is acknowledged.**  After any inserts, acknowledgements and reconnects the counter has
not underflown and is the number of envelopes in the queues; a reconnect sends again what was not acknowledged, each stream
in its order; and an acknowledgement takes from the queue of its stream the envelopes up to its cursor, and no others. -/
theorem outbound_buffer_keeps (steps : List (OutboundStep Message)) :
    ∃ buffer, steps.foldlM OutboundStep.apply {} = some buffer ∧
      (∀ key, buffer.queue key = (unacknowledged steps).filter (decide <| ·.streamKey = key)) ∧
      (∀ order, buffer.used = (buffer.serverEnvelopes order).length ∧
        (buffer.serverEnvelopes order).Perm (unacknowledged steps) ∧
        ∀ key, (buffer.serverEnvelopes order).filter (decide <| ·.streamKey = key) = buffer.queue key) ∧
      ∀ clientId streamId seqId segmentId, ∃ after, buffer.ack clientId streamId seqId segmentId = some after ∧
        ∀ key, after.queue key = if key = (clientId, streamId) then (buffer.queue key).filter (!isAcked seqId segmentId ·)
          else buffer.queue key := by
  obtain ⟨buffer, hrun, h⟩ := holds_run steps
  refine ⟨buffer, hrun, h.queue_eq, fun order => ?_, fun clientId streamId seqId segmentId => ?_⟩
  · have hperm : (buffer.serverEnvelopes order).Perm (unacknowledged steps) :=
      perm_of_filter_eq (h.filter_serverEnvelopes order)
    refine ⟨h.used_eq.trans hperm.length_eq.symm, hperm, fun key => ?_⟩
    rw [h.filter_serverEnvelopes, h.queue_eq]
  · obtain ⟨after, hack, hafter⟩ := h.ack clientId streamId seqId segmentId
    exact ⟨after, hack, fun key => (hafter.queue_eq key).trans (h.filter_acks ..)⟩

end Owc.Remote
