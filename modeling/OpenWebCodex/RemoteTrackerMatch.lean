import OpenWebCodex.RemoteTrackerRun
/-!
# RemoteTrackerMatch — connections are closed once, and whose task closes them

Whatever the reader does, every connection that was opened is open under one key or was closed once, and its numbered messages
are forwarded in order.  That a task closes only its own connection is kept for a connection that is opened when no task of its
key is left.
-/
namespace Owc.Remote

open List Nat Option

variable {Payload : Type}

/-! ## Opened and closed -/

/-- **The connections match what was forwarded.** -/
structure Matched (tracker : ClientTracker) (log : List (TransportEvent Payload)) : Prop where
  opened_nodup : (openedIds log).Nodup
  closed_nodup : (closedIds log).Nodup
  opened_lt : ∀ connectionId ∈ openedIds log, connectionId < tracker.nextConnectionId
  opened_of_closed : ∀ connectionId ∈ closedIds log, connectionId ∈ openedIds log
  open_iff : ∀ connectionId, (∃ key, tracker.connectionAt key = some connectionId) ↔
    connectionId ∈ openedIds log ∧ connectionId ∉ closedIds log
  key_unique : ∀ key other connectionId, tracker.connectionAt key = some connectionId →
    tracker.connectionAt other = some connectionId → key = other
  task_lt : ∀ task ∈ tracker.joinSet, task.connectionId < tracker.nextConnectionId
  task_key : ∀ task ∈ tracker.joinSet, ∀ key, tracker.connectionAt key = some task.connectionId → task.key = key

theorem matched_nil : Matched ({} : ClientTracker) ([] : List (TransportEvent Payload)) where
  opened_nodup := nodup_nil
  closed_nodup := nodup_nil
  opened_lt _ h := absurd h not_mem_nil
  opened_of_closed _ h := absurd h not_mem_nil
  open_iff _ := iff_of_false (fun ⟨_, h⟩ => (nomatch h)) fun h => absurd h.1 not_mem_nil
  key_unique _ _ _ h := (nomatch h)
  task_lt _ h := absurd h not_mem_nil
  task_key _ h := absurd h not_mem_nil

section Matched

variable {tracker after : ClientTracker} {log events : List (TransportEvent Payload)}

section

variable (h : Matched tracker log)
include h

theorem Matched.quiet (hquiet : Quiet tracker events after) : Matched after (log ++ events) where
  opened_nodup := by simpa [hquiet.opened] using h.opened_nodup
  closed_nodup := by simpa [hquiet.closed] using h.closed_nodup
  opened_lt connectionId hmem :=
    lt_of_lt_of_le (h.opened_lt connectionId (by simpa [hquiet.opened] using hmem)) hquiet.next
  opened_of_closed connectionId hmem := by
    have hclosed : connectionId ∈ closedIds log := by simpa [hquiet.closed] using hmem
    simpa [hquiet.opened] using h.opened_of_closed connectionId hclosed
  open_iff connectionId := by
    simp only [hquiet.connectionAt, openedIds_append, closedIds_append, hquiet.opened, hquiet.closed, append_nil]
    exact h.open_iff connectionId
  key_unique key other connectionId hkey hother :=
    h.key_unique key other connectionId (hquiet.connectionAt key ▸ hkey) (hquiet.connectionAt other ▸ hother)
  task_lt task htask := lt_of_lt_of_le (h.task_lt task (hquiet.joinSet task htask)) hquiet.next
  task_key task htask key hkey := h.task_key task (hquiet.joinSet task htask) key (hquiet.connectionAt key ▸ hkey)

theorem Matched.close (hkey : tracker.connectionAt key = some connectionId)
    (hat : ∀ other, after.connectionAt other = if other = key then none else tracker.connectionAt other)
    (hnext : after.nextConnectionId = tracker.nextConnectionId) (hjoinSet : after.joinSet = tracker.joinSet) :
    Matched after (log ++ [.connectionClosed connectionId]) := by
  have hopen := (h.open_iff connectionId).1 ⟨key, hkey⟩
  have hopened : openedIds (log ++ [.connectionClosed connectionId]) = openedIds log := by
    rw [openedIds_append]
    exact append_nil _
  have hclosed : closedIds (log ++ [.connectionClosed connectionId]) = closedIds log ++ [connectionId] :=
    closedIds_append _ _
  have hback : ∀ {other c}, after.connectionAt other = some c → other ≠ key ∧ tracker.connectionAt other = some c := by
    intro other c hc
    rw [hat] at hc
    split at hc
    · cases hc
    · exact ⟨‹_›, hc⟩
  refine ⟨hopened ▸ h.opened_nodup, ?_, fun c hc => ?_, fun c hc => ?_, fun c => ?_, fun first other c hfirst hother => ?_,
    fun task htask => ?_, fun task htask other hother => ?_⟩
  · rw [hclosed]
    exact nodup_append.2 ⟨h.closed_nodup, nodup_singleton _, fun a ha b hb hab =>
      hopen.2 (mem_singleton.1 hb ▸ hab ▸ ha)⟩
  · rw [hnext]
    exact h.opened_lt c (hopened ▸ hc)
  · rw [hopened]
    rw [hclosed, mem_append, mem_singleton] at hc
    rcases hc with hc | rfl
    · exact h.opened_of_closed c hc
    · exact hopen.1
  · rw [hopened, hclosed, mem_append, mem_singleton, not_or]
    constructor
    · rintro ⟨other, hother⟩
      obtain ⟨hne, hbefore⟩ := hback hother
      obtain ⟨hc, hnot⟩ := (h.open_iff c).1 ⟨other, hbefore⟩
      exact ⟨hc, hnot, fun heq => hne (h.key_unique other key connectionId (heq ▸ hbefore) hkey)⟩
    · rintro ⟨hc, hnot, hne⟩
      obtain ⟨other, hother⟩ := (h.open_iff c).2 ⟨hc, hnot⟩
      refine ⟨other, ?_⟩
      rw [hat, if_neg]
      · exact hother
      · rintro rfl
        exact hne (some.inj (hother.symm.trans hkey))
  · exact h.key_unique first other c (hback hfirst).2 (hback hother).2
  · rw [hnext]
    exact h.task_lt task (hjoinSet ▸ htask)
  · exact h.task_key task (hjoinSet ▸ htask) other (hback hother).2

theorem Matched.open (hkey : tracker.connectionAt key = none)
    (hat : ∀ other, after.connectionAt other = if other = key then some tracker.nextConnectionId else tracker.connectionAt other)
    (hnext : after.nextConnectionId = tracker.nextConnectionId + 1)
    (hjoinSet : after.joinSet = ⟨key, tracker.nextConnectionId⟩ :: tracker.joinSet) :
    Matched after (log ++ [.connectionOpened tracker.nextConnectionId]) := by
  have hnew : tracker.nextConnectionId ∉ openedIds log := fun hmem => absurd (h.opened_lt _ hmem) (lt_irrefl _)
  have hopened : openedIds (log ++ [.connectionOpened tracker.nextConnectionId]) =
      openedIds log ++ [tracker.nextConnectionId] := openedIds_append _ _
  have hclosed : closedIds (log ++ [.connectionOpened tracker.nextConnectionId]) = closedIds log := by
    rw [closedIds_append]
    exact append_nil _
  have hold : ∀ {other c}, tracker.connectionAt other = some c → c ≠ tracker.nextConnectionId := by
    rintro other c hc rfl
    exact hnew ((h.open_iff _).1 ⟨other, hc⟩).1
  refine ⟨?_, hclosed ▸ h.closed_nodup, fun c hc => ?_, fun c hc => ?_, fun c => ?_, fun first other c hfirst hother => ?_,
    fun task htask => ?_, fun task htask other hother => ?_⟩
  · rw [hopened]
    exact nodup_append.2 ⟨h.opened_nodup, nodup_singleton _, fun a ha b hb hab =>
      hnew (mem_singleton.1 hb ▸ hab ▸ ha)⟩
  · rw [hopened, mem_append, mem_singleton] at hc
    rw [hnext]
    rcases hc with hc | rfl
    · exact lt_succ_of_lt (h.opened_lt c hc)
    · exact lt_succ_self _
  · rw [hopened, mem_append]
    exact .inl (h.opened_of_closed c (hclosed ▸ hc))
  · rw [hopened, hclosed, mem_append, mem_singleton]
    constructor
    · rintro ⟨other, hother⟩
      rw [hat] at hother
      split at hother
      · cases hother
        exact ⟨.inr rfl, fun hmem => hnew (h.opened_of_closed _ hmem)⟩
      · obtain ⟨hc, hnot⟩ := (h.open_iff c).1 ⟨other, hother⟩
        exact ⟨.inl hc, hnot⟩
    · rintro ⟨hc | rfl, hnot⟩
      · obtain ⟨other, hother⟩ := (h.open_iff c).2 ⟨hc, hnot⟩
        refine ⟨other, ?_⟩
        rw [hat, if_neg]
        · exact hother
        · rintro rfl
          exact absurd (hother.symm.trans hkey) (by simp)
      · exact ⟨key, by rw [hat, if_pos rfl]⟩
  · rw [hat] at hfirst hother
    split at hfirst <;> split at hother
    · next heq heq' => rw [heq, heq']
    · exact absurd (some.inj hfirst).symm (hold hother)
    · exact absurd (some.inj hother).symm (hold hfirst)
    · exact h.key_unique first other c hfirst hother
  · rw [hjoinSet] at htask
    rw [hnext]
    rcases mem_cons.1 htask with rfl | htask
    · exact lt_succ_self _
    · exact lt_succ_of_lt (h.task_lt task htask)
  · rw [hjoinSet] at htask
    rw [hat] at hother
    rcases mem_cons.1 htask with rfl | htask
    · split at hother
      · next heq => exact heq.symm
      · exact absurd rfl (hold hother)
    · split at hother
      · exact absurd (some.inj hother).symm (Nat.ne_of_lt (h.task_lt task htask))
      · exact h.task_key task htask other hother

theorem Matched.act (hact : Act tracker events after) : Matched after (log ++ events) := by
  rcases hact.connections with hquiet | ⟨key, connectionId, rfl, hkey, hat, hnext, hjoinSet⟩ |
    ⟨key, rfl, hkey, hat, hnext, hjoinSet⟩
  · exact h.quiet hquiet
  · exact h.close hkey hat hnext hjoinSet
  · exact h.open hkey hat hnext hjoinSet

end

end Matched

/-! ## In order -/

/-- **The numbered messages of each connection are forwarded in order**, and a connection remembers the last. -/
structure Ordered (tracker : ClientTracker) (log : List (TransportEvent Payload)) : Prop where
  pairwise : ∀ connectionId, (inboundSeqIds connectionId log).Pairwise (· < ·)
  last : ∀ key client, tracker.clients.get key = some client → ∀ seqId ∈ inboundSeqIds client.connectionId log,
    ∃ last, client.lastInboundSeqId = some last ∧ seqId ≤ last
  fresh : ∀ connectionId, tracker.nextConnectionId ≤ connectionId → inboundSeqIds connectionId log = []

theorem ordered_nil : Ordered ({} : ClientTracker) ([] : List (TransportEvent Payload)) where
  pairwise _ := List.Pairwise.nil
  last _ _ h := (nomatch h)
  fresh _ _ := rfl

theorem inboundSeqIds_incomingMessage (connectionId forwardedOn : Nat) (message : JsonrpcMessage Payload)
    (seqId : Option Nat) : inboundSeqIds connectionId [.incomingMessage forwardedOn message seqId] =
      if forwardedOn = connectionId ∧ remoteControlMessageStartsConnection message = false then seqId.toList else [] := by
  by_cases h : forwardedOn = connectionId ∧ remoteControlMessageStartsConnection message = false
  · cases seqId <;> simp [inboundSeqIds, h]
  · simp [inboundSeqIds, h]

section Ordered

variable {tracker after : ClientTracker} {log events : List (TransportEvent Payload)}

/-- An act that forwards no numbered message, and leaves each connection the number it remembers. -/
theorem Ordered.silent (h : Ordered tracker log) (hevents : ∀ connectionId, inboundSeqIds connectionId events = [])
    (hlast : ∀ key client, after.clients.get key = some client →
      inboundSeqIds client.connectionId log = [] ∨ ∃ before, tracker.clients.get key = some before ∧
        before.connectionId = client.connectionId ∧ before.lastInboundSeqId = client.lastInboundSeqId)
    (hnext : tracker.nextConnectionId ≤ after.nextConnectionId) : Ordered after (log ++ events) := by
  have heq : ∀ connectionId, inboundSeqIds connectionId (log ++ events) = inboundSeqIds connectionId log := by
    intro connectionId
    rw [inboundSeqIds_append, hevents, append_nil]
  refine ⟨fun connectionId => heq connectionId ▸ h.pairwise connectionId, fun key client hget seqId hseq => ?_,
    fun connectionId hle => heq connectionId ▸ h.fresh connectionId (le_trans hnext hle)⟩
  rw [heq] at hseq
  rcases hlast key client hget with hnil | ⟨before, hbefore, hid, hsame⟩
  · rw [hnil] at hseq
    cases hseq
  · rw [← hid] at hseq
    rw [← hsame]
    exact h.last key before hbefore seqId hseq

theorem Ordered.forward (h : Ordered tracker log) (hmatched : Matched tracker log)
    (hget : tracker.clients.get key = some client) (message : JsonrpcMessage Payload)
    (hseq : InOrder client seqId) :
    Ordered (tracker.recordInboundMessageDelivery key seqId)
      (log ++ [.incomingMessage client.connectionId message seqId]) := by
  have hat : tracker.connectionAt key = some client.connectionId := by rw [ClientTracker.connectionAt, hget]; rfl
  have hlt := hmatched.opened_lt _ ((hmatched.open_iff _).1 ⟨key, hat⟩).1
  have hother : ∀ connectionId, client.connectionId ≠ connectionId →
      inboundSeqIds connectionId (log ++ [.incomingMessage client.connectionId message seqId]) =
        inboundSeqIds connectionId log := by
    intro connectionId hne
    rw [inboundSeqIds_append, inboundSeqIds_incomingMessage, if_neg fun h => hne h.1, append_nil]
  have hmem : ∀ seq ∈ inboundSeqIds client.connectionId [.incomingMessage client.connectionId message seqId],
      seqId = some seq := by
    intro seq hseq
    rw [inboundSeqIds_incomingMessage] at hseq
    split at hseq
    · exact mem_toList.1 hseq
    · cases hseq
  refine ⟨fun connectionId => ?_, fun other state hstate seq hmemSeq => ?_, fun connectionId hle => ?_⟩
  · by_cases heq : client.connectionId = connectionId
    · subst heq
      rw [inboundSeqIds_append, pairwise_append]
      refine ⟨h.pairwise _, ?_, fun first hfirst second hsecond => ?_⟩
      · rw [inboundSeqIds_incomingMessage]
        split
        · cases seqId with
          | none => exact List.Pairwise.nil
          | some => exact pairwise_singleton _ _
        · exact List.Pairwise.nil
      · obtain ⟨last, hlast, hle⟩ := h.last key client hget first hfirst
        exact lt_of_le_of_lt hle (hseq second (hmem second hsecond) last hlast)
    · rw [hother connectionId heq]
      exact h.pairwise connectionId
  · rw [ClientTracker.get_recordInboundMessageDelivery hget] at hstate
    split at hstate
    · cases hstate
      rw [inboundSeqIds_append, mem_append] at hmemSeq
      rcases hmemSeq with hold | hnew
      · obtain ⟨last, hlast, hle⟩ := h.last key client hget seq hold
        cases seqId with
        | none => exact ⟨last, hlast, hle⟩
        | some number => exact ⟨number, rfl, le_of_lt (lt_of_le_of_lt hle (hseq number rfl last hlast))⟩
      · exact ⟨seq, by rw [hmem seq hnew]; rfl, le_refl _⟩
    · next hne =>
      -- another key is another connection
      have hid : client.connectionId ≠ state.connectionId := by
        intro heq
        have hatOther : tracker.connectionAt other = some client.connectionId := by
          rw [ClientTracker.connectionAt, hstate, heq]
          rfl
        exact hne (hmatched.key_unique other key _ hatOther hat)
      rw [hother _ hid] at hmemSeq
      exact h.last other state hstate seq hmemSeq
  · rw [(tracker.joinSet_recordInboundMessageDelivery key seqId).2] at hle
    rw [hother connectionId (by omega)]
    exact h.fresh connectionId hle

theorem Ordered.act (h : Ordered tracker log) (hmatched : Matched tracker log) (hact : Act tracker events after) :
    Ordered after (log ++ events) := by
  cases hact with
  | legacy | join =>
    exact h.silent (fun _ => rfl) (fun key client hget => .inr ⟨client, hget, rfl, rfl⟩) (le_refl _)
  | skip => exact h.silent (fun _ => rfl) (fun key client hget => .inr ⟨client, hget, rfl, rfl⟩) (le_succ _)
  | @touch key client hget now =>
    refine h.silent (fun _ => rfl) (fun other state hstate => .inr ?_) (le_refl _)
    rw [Table.get_put] at hstate
    split at hstate
    · next heq =>
      cases hstate
      exact ⟨client, heq ▸ hget, rfl, rfl⟩
    · exact ⟨state, hstate, rfl, rfl⟩
  | close =>
    exact h.silent (fun _ => rfl) (fun key client hget => .inr ⟨client, Table.get_of_get_erase hget, rfl, rfl⟩) (le_refl _)
  | opened =>
    refine h.silent (fun _ => rfl) (fun other state hstate => ?_) (le_succ _)
    rw [Table.get_put] at hstate
    split at hstate
    · cases hstate
      exact .inl (h.fresh _ (le_refl _))
    · exact .inr ⟨state, hstate, rfl, rfl⟩
  | @forward key client hget message seqId hseq records hrecords =>
    cases records with
    | true => exact h.forward hmatched hget message hseq
    | false =>
      have hstarts : remoteControlMessageStartsConnection message = true := by
        cases hmessage : remoteControlMessageStartsConnection message with
        | true => rfl
        | false => exact absurd (hrecords hmessage) Bool.false_ne_true
      refine h.silent (fun connectionId => ?_) (fun key client hget => .inr ⟨client, hget, rfl, rfl⟩) (le_refl _)
      rw [inboundSeqIds_incomingMessage, if_neg (by simp [hstarts])]

end Ordered

end Owc.Remote
