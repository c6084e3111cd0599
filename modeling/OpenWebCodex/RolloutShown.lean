import OpenWebCodex.Pairing
import OpenWebCodex.RolloutRollback
import OpenWebCodex.ThreadHistoryAgree
/-!
# RolloutShown — the turns clients are shown against the turns the model remembers

Both readers of a rollout pop turns at a rollback marker.  The thread history pops the last turns of any kind; the session
pops user turns, and turns of no instruction with them.  They agree as long as every marker finds, in the turns shown, as
many user turns among the last ones as it pops.
-/
namespace Owc.Rollout

open List Entry
open History
open ThreadHistory (Builder PendingTurn updateTurn upsertTurnItem)

/-! ## The thread history inside a turn -/

/-- The turn `id` is open by its start event, behind finished turns of the given ids. -/
def InTurn (id : Str) (ids : List Str) (b : Builder) : Prop :=
  ∃ turn : PendingTurn, b.currentTurn = some turn ∧ turn.id = id ∧ turn.openedExplicitly = true ∧ b.turns.map (·.id) = ids

section InTurn

variable {id : Str} {ids : List Str} {b : Builder}

section

variable (h : InTurn id ids b)
include h

theorem InTurn.congr (hcurrent : b'.currentTurn = b.currentTurn) (hturns : b'.turns = b.turns) : InTurn id ids b' := by
  obtain ⟨turn, hturn, hid, hopened, hids⟩ := h
  exact ⟨turn, hcurrent.trans hturn, hid, hopened, by rw [hturns, hids]⟩

theorem InTurn.ensureTurn : b.ensureTurn.2 = b ∧ b.currentTurn = some b.ensureTurn.1 := by
  obtain ⟨_, hturn, _⟩ := h
  unfold Builder.ensureTurn
  rw [hturn]
  exact ⟨rfl, rfl⟩

/-- The open turn is changed, and no finished one. -/
theorem InTurn.ensured {b' turn} (hcurrent : b'.currentTurn = some turn)
    (hid : turn.id = b.ensureTurn.1.id) (hopened : turn.openedExplicitly = b.ensureTurn.1.openedExplicitly)
    (hturns : b'.turns = b.ensureTurn.2.turns) : InTurn id ids b' := by
  obtain ⟨hsame, hensured⟩ := h.ensureTurn
  obtain ⟨t, ht, htid, htopened, hids⟩ := h
  cases hensured.symm.trans ht
  exact ⟨turn, hcurrent, hid.trans htid, hopened.trans htopened, by rw [hturns, hsame, hids]⟩

theorem InTurn.push (item : ThreadItem) : InTurn id ids (b.pushItemInCurrentTurn item) :=
  h.ensured rfl rfl rfl rfl

theorem InTurn.upsertCurrent (item : ThreadItem) : InTurn id ids (b.upsertItemInCurrentTurn item) :=
  h.ensured rfl rfl rfl rfl

end

theorem map_id_updateTurn (turnId : Str) (f : ThreadHistory.Turn → ThreadHistory.Turn) (hf : ∀ t, (f t).id = t.id)
    (turns : List ThreadHistory.Turn) : (updateTurn turnId f turns).map (·.id) = turns.map (·.id) := by
  induction turns with
  | nil => rfl
  | cons t turns ih =>
    unfold updateTurn
    split
    · rw [map_cons, map_cons, hf]
    · rw [map_cons, map_cons, ih]

theorem InTurn.upsertTurnId (h : InTurn id ids b) (turnId : Str) (item : ThreadItem) :
    InTurn id ids (b.upsertItemInTurnId turnId item) := by
  obtain ⟨turn, hturn, hid, hopened, hids⟩ := h
  have hfinished : InTurn id ids (b.upsertFinished turnId item) := by
    unfold Builder.upsertFinished
    split
    · refine ⟨turn, hturn, hid, hopened, ?_⟩
      have := map_id_updateTurn turnId (fun t => { t with items := upsertTurnItem t.items item }) (fun _ => rfl) b.turns
      exact this.trans hids
    · exact ⟨turn, hturn, hid, hopened, hids⟩
  unfold Builder.upsertItemInTurnId
  rw [hturn]
  dsimp only
  split
  · exact ⟨_, rfl, hid, hopened, hids⟩
  · exact hfinished

theorem InTurn.upsertTurnOrCurrent (h : InTurn id ids b) (turnId : Str) (item : ThreadItem) :
    InTurn id ids (b.upsertItemInTurnOrCurrent turnId item) := by
  unfold Builder.upsertItemInTurnOrCurrent
  split
  · exact h.upsertCurrent item
  · exact h.upsertTurnId turnId item

theorem InTurn.review (h : InTurn id ids b) (turnId : Option Str) (hid : turnId.all (· == id)) (item : ThreadItem) :
    InTurn id ids (b.upsertReviewModeItem turnId item) := by
  cases turnId with
  | none => exact h.upsertCurrent item
  | some turnId =>
    obtain rfl : turnId = id := by simpa using hid
    have hcurrent : b.isCurrent turnId := by
      obtain ⟨_, hturn, htid, _⟩ := h
      simp [Builder.isCurrent, hturn, htid]
    unfold Builder.upsertReviewModeItem
    dsimp only
    rw [hcurrent]
    exact h.upsertTurnId turnId item

theorem InTurn.extendReasoning (h : InTurn id ids b) (text : Str) (extend : List Str × List Str → List Str × List Str) :
    InTurn id ids (b.extendReasoning text extend) := by
  unfold Builder.extendReasoning
  split
  · exact h
  dsimp only
  split
  · exact h.ensured rfl rfl rfl rfl
  · rw [h.ensureTurn.1]
    exact InTurn.push (b := b.nextItemId.2) (h.congr rfl rfl) _

theorem InTurn.responseItem (env : ThreadHistory.Env) (h : InTurn id ids b) (item : ResponseItem) :
    InTurn id ids (b.handleResponseItem env item) := by
  have hlegacy : ∀ b, InTurn id ids b → ∀ update, InTurn id ids (b.applyLegacyUpdate update) := by
    intro b h update
    have hup : ∀ turnId item, InTurn id ids (b.upsertLegacy turnId item) := by
      intro turnId item
      cases turnId with
      | none => exact h.upsertCurrent item
      | some turnId => exact h.upsertTurnId turnId item
    cases update with
    | started turnId => exact hup turnId _
    | completed turnId =>
      unfold Builder.applyLegacyUpdate
      dsimp only
      split
      · exact h
      · exact hup turnId _
  unfold Builder.handleResponseItem
  split
  · rename_i calls update _
    exact hlegacy { b with calls } (h.congr rfl rfl) update
  split
  · split
    · split
      · exact h.push _
      · exact h
    · exact h
  · exact h

theorem InTurn.event (h : InTurn id ids b) {event} (hbelongs : event.belongs id) : InTurn id ids (b.handleEvent event) := by
  have hnumbered : ∀ item, InTurn id ids (b.nextItemId.2.pushItemInCurrentTurn item) := fun item =>
    InTurn.push (b := b.nextItemId.2) (h.congr rfl rfl) item
  have hreview : ∀ turnId itemId item, turnId.all (· == id) →
      InTurn id ids ((b.itemIdOr itemId).2.upsertReviewModeItem turnId item) := by
    intro turnId itemId item hid
    cases itemId with
    | some => exact h.review turnId hid item
    | none => exact InTurn.review (b := b.nextItemId.2) (h.congr rfl rfl) turnId hid item
  have hlifecycle : ∀ turnId item, (!item.isReviewMode || turnId == id) →
      InTurn id ids (b.handleMaterializedItemLifecycle turnId item) := by
    intro turnId item hid
    unfold Builder.handleMaterializedItemLifecycle
    split
    · split
      · rename_i hmode
        rw [hmode] at hid
        exact h.review (some turnId) hid item
      · exact h.upsertTurnId turnId item
    · exact h
  cases event with
  | turnStarted | turnComplete | turnAborted | threadRolledBack => cases hbelongs
  | userMessage =>
    -- a turn that its start event opened takes the message
    have hopen : b.closesForInput = false := by
      obtain ⟨turn, hturn, _, hopened, _⟩ := h
      simp [Builder.closesForInput, hturn, hopened]
    simp only [Builder.handleEvent, Builder.handleUserMessage, hopen]
    exact hnumbered _
  | agentMessage =>
    simp only [Builder.handleEvent, Builder.handleAgentMessage]
    split
    · exact h
    · exact hnumbered _
  | agentReasoning | agentReasoningRawContent => exact h.extendReasoning _ _
  | inCurrentTurn => exact h.upsertCurrent _
  | inTurn turnEvent =>
    cases turnEvent with
    | execCommandBegin | execCommandEnd => exact h.upsertTurnId _ _
    | _ => exact h.upsertTurnOrCurrent _ _
  | guardianAssessment status turnId targetItemId =>
    cases targetItemId with
    | none => cases status <;> exact h
    | some => cases status <;> first | exact h | exact h.upsertTurnOrCurrent _ _
  | dynamicToolCallRequest | dynamicToolCallResponse => exact h.upsertTurnOrCurrent _ _
  | contextCompacted => exact hnumbered _
  | enteredReviewMode turnId itemId | exitedReviewMode turnId itemId => exact hreview turnId itemId _ hbelongs
  | itemStarted turnId item | itemCompleted turnId item => exact hlifecycle turnId item hbelongs
  | error affects =>
    obtain ⟨turn, hturn, hid, hopened, hids⟩ := h
    unfold Builder.handleEvent Builder.handleError
    cases affects with
    | false => exact ⟨turn, hturn, hid, hopened, hids⟩
    | true =>
      rw [hturn]
      exact ⟨_, rfl, hid, hopened, hids⟩
  | other => exact h

def reading (b : Builder) : Builder :=
  { b with
    activeChangeSet := .empty
    currentRolloutIndex := b.nextRolloutIndex
    nextRolloutIndex := b.nextRolloutIndex + 1 }

theorem InTurn.next (env : ThreadHistory.Env) (h : InTurn id ids b) (hitem : belongs id item) :
    InTurn id ids (b.next env item) := by
  have h' : InTurn id ids (reading b) := h.congr rfl rfl
  refine InTurn.congr (b := ({ b with activeChangeSet := .empty } : Builder).handleRolloutItem env item) ?_ rfl rfl
  cases item with
  | eventMsg => exact h'.event hitem
  | compacted => exact h'.ensured rfl rfl rfl rfl
  | responseItem item => exact h'.responseItem env item
  | _ => exact h'

theorem InTurn.body (env : ThreadHistory.Env) {items : List RolloutItem} (hitems : ∀ item ∈ items, belongs id item)
    (h : InTurn id ids b) : InTurn id ids (items.foldl (Builder.next env) b) := by
  induction items generalizing b with
  | nil => exact h
  | cons item items ih =>
    exact ih (fun i hi => hitems i (mem_cons_of_mem _ hi)) (h.next env (hitems item (by simp)))

/-- Between turns: the ids of the turns shown, the last of which may still be open by its start event. -/
def BetweenTurns (ids : List Str) (b : Builder) : Prop :=
  b.visible.map (·.id) = ids ∧ ∀ turn, b.currentTurn = some turn → turn.openedExplicitly = true

theorem InTurn.between (h : InTurn id ids b) : BetweenTurns (ids ++ [id]) b := by
  obtain ⟨_, hturn, hid, hopened, hids⟩ := h
  refine ⟨?_, fun t ht => ?_⟩
  · rw [ThreadHistory.visible_of_current hturn, map_append, hids]
    simp [hid]
  · rw [hturn] at ht
    cases ht
    exact hopened

theorem BetweenTurns.finish (h : BetweenTurns ids b) :
    b.finishCurrentTurn.turns.map (·.id) = ids ∧ b.finishCurrentTurn.currentTurn = none := by
  obtain ⟨hids, hopened⟩ := h
  unfold Builder.finishCurrentTurn
  cases hcurrent : b.currentTurn with
  | none =>
    rw [ThreadHistory.visible_of_none hcurrent] at hids
    exact ⟨hids, hcurrent⟩
  | some turn =>
    dsimp only
    rw [hopened turn hcurrent, Bool.not_true, Bool.and_false, Bool.false_and, if_neg Bool.false_ne_true]
    rw [ThreadHistory.visible_of_current hcurrent, map_append] at hids
    refine ⟨?_, rfl⟩
    rw [map_append, ← hids]
    rfl

theorem BetweenTurns.of_none (hcurrent : b.currentTurn = none) (hids : b.turns.map (·.id) = ids) : BetweenTurns ids b := by
  refine ⟨by rw [ThreadHistory.visible_of_none hcurrent, hids], fun turn hturn => ?_⟩
  rw [hcurrent] at hturn
  cases hturn

/-- A completed turn is closed; an aborted one stays open until the next turn or marker. -/
theorem InTurn.ending (env : ThreadHistory.Env) (h : InTurn id ids b) (ending : Ending) :
    BetweenTurns (ids ++ [id]) (b.next env (ending.item id)) := by
  have h' : InTurn id ids (reading b) := h.congr rfl rfl
  obtain ⟨turn, hturn, hid, hopened, hids⟩ := h'
  have hcurrent : (reading b).isCurrent id := by simp [Builder.isCurrent, hturn, hid]
  cases ending with
  | complete completedAt durationMs =>
    have hchanged : InTurn id ids ((reading b).changeCurrent (turn.map (Builder.markCompleted completedAt durationMs))) :=
      ⟨_, rfl, hid, hopened, hids⟩
    obtain ⟨hfinished, hnone⟩ := hchanged.between.finish
    have hnext : b.next env ((Ending.complete completedAt durationMs).item id) =
        { ((reading b).changeCurrent (turn.map (Builder.markCompleted completedAt durationMs))).finishCurrentTurn with
          activeChangeSet := .empty } := by
      show ({ (reading b).handleTurnComplete id completedAt durationMs with activeChangeSet := .empty } : Builder) = _
      unfold Builder.handleTurnComplete
      rw [hcurrent, hturn]
      rfl
    rw [hnext]
    exact .of_none hnone hfinished
  | aborted named completedAt durationMs =>
    have hnext : b.next env ((Ending.aborted named completedAt durationMs).item id) =
        { (reading b).changeCurrent (turn.map (Builder.applyAbort completedAt durationMs)) with
          activeChangeSet := .empty } := by
      show ({ (reading b).handleTurnAborted _ completedAt durationMs with activeChangeSet := .empty } : Builder) = _
      unfold Builder.handleTurnAborted
      have hfilter : (if named then some id else none).filter
          (fun id => !(reading b).isCurrent id && (reading b).isFinished id) = none := by
        cases named <;> simp [hcurrent]
      rw [hfilter, hturn]
    have hchanged : InTurn id ids (b.next env ((Ending.aborted named completedAt durationMs).item id)) := by
      rw [hnext]
      exact ⟨_, rfl, hid, hopened, hids⟩
    exact hchanged.between

end InTurn

/-! ## Entries -/

section Entries

variable {env : Env} (histories : ThreadHistory.Env)

/-- The turns shown after an entry: a marker pops the last turns, whatever they are. -/
def Entry.shown (shown : List (Turn env)) : Entry env → List (Turn env)
  | .turn t => shown ++ [t]
  | .rollback numTurns => shown.take (shown.length - numTurns)
  | _ => shown

def shownTurns (entries : List (Entry env)) : List (Turn env) := entries.foldl Entry.shown []

theorem between_entry {b : Builder} {shown} (h : BetweenTurns (shown.map (·.id)) b) (e : Entry env) :
    BetweenTurns ((e.shown shown).map (·.id)) (e.items.foldl (Builder.next histories) b) := by
  cases e with
  | turn t =>
    have hbefore := BetweenTurns.finish (b := reading b) h
    have hstarted : InTurn t.id (shown.map (·.id)) (b.next histories (.eventMsg (.turnStarted t.id t.startedAt))) :=
      ⟨_, rfl, rfl, rfl, hbefore.1⟩
    have hbody : InTurn t.id (shown.map (·.id))
        (t.body.foldl (Builder.next histories) (b.next histories (.eventMsg (.turnStarted t.id t.startedAt)))) :=
      hstarted.body histories t.belongs_of_mem
    show BetweenTurns _ ((t.body ++ [t.ending.item t.id]).foldl _
      (b.next histories (.eventMsg (.turnStarted t.id t.startedAt))))
    rw [foldl_append, Entry.shown, map_append, map_singleton]
    exact hbody.ending histories t.ending
  | rollback n =>
    have hbefore := BetweenTurns.finish (b := reading b) h
    refine BetweenTurns.of_none hbefore.2 ?_
    show ((reading b).finishCurrentTurn.turns.take ((reading b).finishCurrentTurn.turns.length - n)).map (·.id) = _
    have hlen : (reading b).finishCurrentTurn.turns.length = shown.length := by
      rw [← length_map (f := fun t : ThreadHistory.Turn => t.id), hbefore.1, length_map]
    rw [map_take, hbefore.1, hlen, Entry.shown, map_take]
  | _ => exact h

/-- **The turns shown are those that the markers leave, popping turns of any kind.** -/
theorem buildTurns_ids (entries : List (Entry env)) :
    (ThreadHistory.buildTurnsFromRolloutItems histories (rolloutItems entries)).map (·.id) =
      (shownTurns entries).map (·.id) := by
  have hrun : ∀ (entries : List (Entry env)) (shown : List (Turn env)) (b : Builder), BetweenTurns (shown.map (·.id)) b →
      BetweenTurns ((entries.foldl Entry.shown shown).map (·.id)) ((rolloutItems entries).foldl (Builder.next histories) b) := by
    intro entries
    induction entries with
    | nil => exact fun _ _ h => h
    | cons e entries ih =>
      intro shown b h
      have hitems : rolloutItems (e :: entries) = e.items ++ rolloutItems entries := flatMap_cons
      rw [hitems, foldl_append, foldl_cons]
      exact ih _ _ (between_entry histories h e)
  have hstart : BetweenTurns (([] : List (Turn env)).map (·.id)) Builder.new := .of_none rfl rfl
  exact (hrun entries [] .new hstart).finish.1

end Entries

/-! ## The user turns that survive -/

section Survivors

variable {env : Env}

theorem filter_take_eq_iff {turns : List (Turn env)} (p : Turn env → Bool) (n : Nat) :
    (turns.take (turns.length - n)).filter p = (turns.filter p).take ((turns.filter p).length - n) ↔
      (turns.drop (turns.length - n)).countP p = min n (turns.countP p) := by
  have hsplit : turns.filter p = (turns.take (turns.length - n)).filter p ++ (turns.drop (turns.length - n)).filter p := by
    rw [← filter_append, take_append_drop]
  have hlength := congrArg length hsplit
  rw [length_append] at hlength
  rw [countP_eq_length_filter, countP_eq_length_filter]
  generalize (turns.take (turns.length - n)).filter p = kept at *
  generalize (turns.drop (turns.length - n)).filter p = gone at *
  constructor
  · intro h
    have := congrArg length h
    rw [length_take] at this
    omega
  · intro h
    rw [hsplit, length_append]
    have hkept : kept.length + gone.length - n = kept.length := by omega
    rw [hkept, take_left]

/-- The readers agree behind an entry as they did before it, unless it is a marker that pops other turns. -/
theorem agree_step {before : List (Entry env)} (h : (shownTurns before).filter Turn.isUser = before.foldl Entry.remembered [])
    (e : Entry env) :
    (shownTurns (before ++ [e])).filter Turn.isUser = (before ++ [e]).foldl Entry.remembered [] ↔
      ∀ n, e = .rollback n → ((shownTurns before).drop ((shownTurns before).length - n)).countP Turn.isUser =
        min n ((shownTurns before).countP Turn.isUser) := by
  unfold shownTurns at h ⊢
  rw [foldl_append, foldl_append, foldl_cons, foldl_nil, foldl_cons, foldl_nil]
  generalize before.foldl Entry.shown [] = shown at h
  rw [← h]
  cases e with
  | turn t =>
    refine iff_of_true ?_ fun n hn => by cases hn
    rw [Entry.shown, Entry.remembered, filter_append]
    cases hu : t.isUser <;> simp [hu]
  | rollback n =>
    refine Iff.trans (filter_take_eq_iff Turn.isUser n) ⟨fun h k hk => ?_, fun h => h n rfl⟩
    cases hk
    exact h
  | _ => exact iff_of_true rfl fun n hn => by cases hn

end Survivors

/-! ## Agreement -/

section Agreement

variable {env : Env}

def turnIds (entries : List (Entry env)) : List Str := entries.filterMap (fun
  | .turn t => some t.id
  | _ => none)

def userTurnIds (entries : List (Entry env)) : List Str := entries.filterMap (fun
  | .turn t => if t.isUser then some t.id else none
  | _ => none)

def shownIds (histories : ThreadHistory.Env) (entries : List (Entry env)) : List Str :=
  (ThreadHistory.buildTurnsFromRolloutItems histories (rolloutItems entries)).map (·.id)

/-- Of the last turns shown, which a marker pops, as many are user turns as the marker rolls back, or all there are. -/
def PopsUserTurns (users shown : List Str) (n : Nat) : Prop :=
  (shown.drop (shown.length - n)).countP (· ∈ users) = min n (shown.countP (· ∈ users))

section

variable {entries : List (Entry env)}

theorem mem_shownTurns (h : t ∈ shownTurns entries) : turn t ∈ entries := by
  induction entries using reverseRecOn with
  | nil => cases h
  | append_singleton entries e ih =>
    unfold shownTurns at h ih
    rw [foldl_append, foldl_cons, foldl_nil] at h
    rw [mem_append, mem_singleton]
    cases e with
    | turn =>
      rcases mem_append.1 h with h | h
      · exact .inl (ih h)
      · rw [mem_singleton.1 h]
        exact .inr rfl
    | rollback => exact .inl (ih (mem_of_mem_take h))
    | _ => exact .inl (ih h)

theorem eq_of_turnIds_nodup (hids : (turnIds entries).Nodup) (ht : turn t ∈ entries)
    (ht' : turn t' ∈ entries) (hid : t.id = t'.id) : t = t' :=
  turn.inj (Pairing.eq_of_key_eq hids ht ht' (congrArg some hid) rfl)

theorem mem_userTurnIds (hids : (turnIds entries).Nodup) (ht : turn t ∈ entries) :
    t.id ∈ userTurnIds entries ↔ t.isUser := by
  constructor
  · intro h
    obtain ⟨e, he, hsome⟩ := mem_filterMap.1 h
    cases e with
    | turn t' =>
      dsimp only at hsome
      split at hsome
      · rename_i hu
        rw [eq_of_turnIds_nodup hids ht he (Option.some.inj hsome).symm]
        exact hu
      · cases hsome
    | _ => cases hsome
  · intro hu
    exact mem_filterMap.2 ⟨.turn t, ht, by simp [hu]⟩

theorem userIds_of_shown (hids : (turnIds entries).Nodup) {turns : List (Turn env)} (hturns : ∀ t ∈ turns, turn t ∈ entries) :
    (turns.map (·.id)).filter (· ∈ userTurnIds entries) = (turns.filter Turn.isUser).map (·.id) ∧
      (turns.map (·.id)).countP (· ∈ userTurnIds entries) = turns.countP Turn.isUser := by
  have hsame : ∀ t ∈ turns, decide (t.id ∈ userTurnIds entries) = t.isUser := by
    intro t ht
    rw [Bool.eq_iff_iff, decide_eq_true_eq, mem_userTurnIds hids (hturns t ht)]
  refine ⟨?_, ?_⟩
  · rw [filter_map]
    congr 1
    exact filter_congr hsame
  · rw [countP_map]
    exact countP_congr fun t ht => by simp [hsame t ht]

theorem mem_survivors (h : t ∈ survivors entries pending) : turn t ∈ entries := by
  induction entries with
  | nil => cases h
  | cons e entries ih =>
    cases e with
    | turn =>
      rw [survivors, mem_append] at h
      rcases h with h | h
      · split at h
        · rw [mem_singleton.1 h]
          exact mem_cons_self
        · cases h
      · exact mem_cons_of_mem _ (ih h)
    | _ => exact mem_cons_of_mem _ (ih h)

theorem eq_of_ids_eq (hids : (turnIds entries).Nodup) {turns turns' : List (Turn env)}
    (hturns : ∀ t ∈ turns, turn t ∈ entries) (hturns' : ∀ t ∈ turns', turn t ∈ entries)
    (h : turns.map (·.id) = turns'.map (·.id)) : turns = turns' := by
  induction turns generalizing turns' with
  | nil => exact (map_eq_nil_iff.1 h.symm).symm
  | cons t turns ih =>
    cases turns' with
    | nil => cases h
    | cons t' =>
      rw [map_cons, map_cons, cons.injEq] at h
      have hhead := eq_of_turnIds_nodup hids (hturns t mem_cons_self) (hturns' t' mem_cons_self) h.1
      have htail := ih (fun u hu => hturns u (mem_cons_of_mem _ hu)) (fun u hu => hturns' u (mem_cons_of_mem _ hu)) h.2
      rw [hhead, htail]

end

section Prefix

variable (histories : ThreadHistory.Env) {entries before after : List (Entry env)}

theorem mem_of_shown_before (hsplit : entries = before ++ after) (h : t ∈ shownTurns before) : turn t ∈ entries :=
  hsplit ▸ mem_append_left after (mem_shownTurns h)

theorem ids_agree_iff (hids : (turnIds entries).Nodup) (hsplit : entries = before ++ after) :
    (shownIds histories before).filter (· ∈ userTurnIds entries) = (survivors before 0).map (·.id) ↔
      (shownTurns before).filter Turn.isUser = before.foldl Entry.remembered [] := by
  have hshown := userIds_of_shown hids fun t => mem_of_shown_before (t := t) hsplit
  have hsurvivors : ∀ t ∈ survivors before 0, turn t ∈ entries := fun t ht =>
    hsplit ▸ mem_append_left after (mem_survivors ht)
  rw [shownIds, buildTurns_ids, hshown.1, ← survivors_zero]
  constructor
  · exact eq_of_ids_eq hids (fun t ht => mem_of_shown_before hsplit (mem_of_mem_filter ht)) hsurvivors
  · intro h
    rw [h]

theorem popsUserTurns_iff (hids : (turnIds entries).Nodup) (hsplit : entries = before ++ after) (n : Nat) :
    PopsUserTurns (userTurnIds entries) (shownIds histories before) n ↔
      ((shownTurns before).drop ((shownTurns before).length - n)).countP Turn.isUser =
        min n ((shownTurns before).countP Turn.isUser) := by
  have hshown := userIds_of_shown hids fun t => mem_of_shown_before (t := t) hsplit
  have hpopped := userIds_of_shown hids fun t (ht : t ∈ (shownTurns before).drop ((shownTurns before).length - n)) =>
    mem_of_shown_before hsplit (mem_of_mem_drop ht)
  rw [PopsUserTurns, shownIds, buildTurns_ids, length_map, ← map_drop, hshown.2, hpopped.2]

end Prefix

end Agreement

def rolledBackThread : List (Entry plainEnv.toEnv) := [.turn firstTurn, .turn uninstructedTurn, .turn secondTurn, .rollback 1]

end Owc.Rollout
