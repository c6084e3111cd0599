import OpenWebCodex.ThreadHistoryShows
import OpenWebCodex.Transition
/-!
# ThreadHistoryAgree — the changes of a rollout make up its turns

Every handler reports what it does to the turns: a projection that follows the reports shows the finished turns and the open
one.  The one silent change is that closing a turn fails the legacy tool calls in it that are still in progress.
-/
namespace Owc.ThreadHistory

open List Builder
open Rollout (RolloutItem ThreadItem EventMsg)

namespace Builder

def visible (b : Builder) : List Turn := b.turns ++ (b.currentTurn.map (·.toTurn)).toList

/-- No call of a legacy rollout is in progress in the open turn. -/
def settled (b : Builder) : Bool := b.currentTurn.all (fun turn => turn.items.all (!isIncomplete b.calls ·))

def closes (b : Builder) : RolloutItem → Bool
  | .eventMsg (.turnStarted _ _) => true
  | .eventMsg (.threadRolledBack _) => true
  | .eventMsg (.turnComplete turnId _ _) => b.isCurrent turnId || !b.isFinished turnId
  | .eventMsg (.userMessage _ _) => b.closesForInput
  | .eventMsg (.enteredReviewMode (some turnId) _ _) => !b.isCurrent turnId && !b.isFinished turnId
  | .eventMsg (.exitedReviewMode (some turnId) _ _) => !b.isCurrent turnId && !b.isFinished turnId
  | .eventMsg (.itemStarted turnId item) => item.isReviewMode && !b.isCurrent turnId && !b.isFinished turnId
  | .eventMsg (.itemCompleted turnId item) => item.isReviewMode && !b.isCurrent turnId && !b.isFinished turnId
  | _ => false

end Builder

/-- The open turn is not one that closing drops. -/
def Substantial (b : Builder) : Prop :=
  ∀ turn, b.currentTurn = some turn → (turn.items.isEmpty && !turn.openedExplicitly && !turn.sawCompaction) = false

/-- **The projection, with the changes of the item being read, shows the turns.** -/
structure Tracks (P : Projection) (b : Builder) : Prop where
  shown : Shows (P.apply b.activeChangeSet) b.visible
  substantial : Substantial b

variable {P : Projection} {b : Builder}

theorem Tracks.congr (h : Tracks P b) (hturns : b'.turns = b.turns) (hcurrent : b'.currentTurn = b.currentTurn)
    (hchanges : b'.activeChangeSet = b.activeChangeSet) : Tracks P b' := by
  refine ⟨?_, fun turn hturn => h.substantial turn (hcurrent ▸ hturn)⟩
  rw [hchanges, visible, hturns, hcurrent]
  exact h.shown

theorem apply_recordChangedItem (P : Projection) (b : Builder) (turnId : Str) (item : ThreadItem) :
    P.apply (b.recordChangedItem turnId item).activeChangeSet = (P.apply b.activeChangeSet).upsertItems [⟨turnId, item⟩] := by
  simp only [recordChangedItem, Projection.apply, Projection.upsertItems, Latest.writes_append]

theorem apply_recordChangedTurn (P : Projection) (b : Builder) (turn : TurnChange) :
    P.apply (b.recordChangedTurn turn).activeChangeSet = (P.apply b.activeChangeSet).upsertTurns [turn] := by
  simp only [recordChangedTurn, Projection.apply, Projection.upsertItems, Projection.upsertTurns, Latest.writes_append]

variable {turn : PendingTurn}

theorem visible_of_current (h : b.currentTurn = some turn) : b.visible = b.turns ++ [turn.toTurn] := by
  rw [visible, h]
  rfl

theorem visible_of_none (h : b.currentTurn = none) : b.visible = b.turns := by
  rw [visible, h]
  exact append_nil _

section

variable {turns : List Turn} {t : Turn} (h : Distinct (turns ++ [t]))
include h

theorem Distinct.last_not_mem : t.id ∉ turns.map (·.id) := by
  have hids := h.ids
  rw [map_append, map_singleton, nodup_append_comm, singleton_append] at hids
  exact (nodup_cons.1 hids).1

theorem Distinct.item_not_mem (ht : t.items = front ++ [item]) : item.id ∉ front.map (·.id) := by
  have hitems := h.items t (by simp)
  rw [ht, map_append, map_singleton, nodup_append_comm, singleton_append] at hitems
  exact (nodup_cons.1 hitems).1

end

/-! ## Opening and closing -/

theorem ensureTurn_turns (b : Builder) : b.ensureTurn.2.turns = b.turns := by
  unfold ensureTurn
  split <;> rfl

theorem ensureTurn_currentTurn (b : Builder) : b.ensureTurn.2.currentTurn = some b.ensureTurn.1 := by
  unfold ensureTurn
  split
  · rename_i h
    exact h
  · rfl

theorem shows_openTurn (h : Shows (P.apply b.activeChangeSet) b.turns)
    (hid : turn.id ∉ b.turns.map (·.id)) (hitems : turn.items = []) :
    Shows (P.apply (b.openTurn turn).activeChangeSet) (b.turns ++ [turn.toTurn]) := by
  show Shows (P.apply (b.recordChangedTurn turn.change).activeChangeSet) _
  rw [apply_recordChangedTurn]
  exact h.append hid hitems

theorem shows_ensureTurn (h : Shows (P.apply b.activeChangeSet) b.visible) (hid : b.ensureTurn.1.id ∉ b.turns.map (·.id)) :
    Shows (P.apply b.ensureTurn.2.activeChangeSet) (b.turns ++ [b.ensureTurn.1.toTurn]) := by
  unfold ensureTurn at hid ⊢
  cases hcurrent : b.currentTurn with
  | some =>
    rw [visible_of_current hcurrent] at h
    exact h
  | none =>
    rw [hcurrent] at hid
    rw [visible_of_none hcurrent] at h
    exact shows_openTurn h hid rfl

theorem failIncomplete_of_settled (h : b.settled) (hcurrent : b.currentTurn = some turn) :
    failIncomplete b.calls turn.items = turn.items := by
  rw [settled, hcurrent, Option.all_some, all_eq_true] at h
  conv_rhs => rw [← map_id turn.items]
  refine map_congr_left fun item hitem => ?_
  have hitem' := h item hitem
  cases item with
  | dynamicToolCall =>
    rw [Bool.not_eq_true'] at hitem'
    simp [failItem, hitem']
  | _ => rfl

theorem finishCurrentTurn_settled (hsub : Substantial b) (h : b.settled) :
    b.finishCurrentTurn = { b with turns := b.visible, currentTurn := none } := by
  unfold finishCurrentTurn
  cases hcurrent : b.currentTurn with
  | none =>
    rw [visible_of_none hcurrent]
    cases b
    cases hcurrent
    rfl
  | some turn =>
    dsimp only
    rw [failIncomplete_of_settled h hcurrent, hsub turn hcurrent, visible_of_current hcurrent]
    rfl

theorem Tracks.finish (h : Tracks P b) (hs : b.settled) : Tracks P b.finishCurrentTurn := by
  rw [finishCurrentTurn_settled h.substantial hs]
  refine ⟨?_, fun turn hturn => by cases hturn⟩
  show Shows (P.apply b.activeChangeSet) (b.visible ++ [])
  rw [append_nil]
  exact h.shown

/-! ## Items -/

/-- Where no id is used twice the turns are tracked. -/
def Reports (P : Projection) (b : Builder) : Prop := Distinct b.visible → Tracks P b

theorem Tracks.reports (h : Tracks P b) : Reports P b := fun _ => h

variable {item : ThreadItem}

theorem ne_nil_of_writes (h : Writes item items items') : items' ≠ [] := by
  rintro rfl
  have := h item.id
  rw [if_pos rfl] at this
  cases this

theorem reports_withItems (h : Shows (P.apply b.activeChangeSet) (b.turns ++ [turn.toTurn]))
    (hwrites : Writes item turn.items items) : Reports P ((b.withItems turn items).recordChangedItem turn.id item) := by
  have hvisible : ((b.withItems turn items).recordChangedItem turn.id item).visible =
      b.turns ++ [{ turn.toTurn with items }] := rfl
  intro hdistinct
  rw [hvisible] at hdistinct
  refine ⟨?_, fun turn' hturn' => ?_⟩
  · rw [apply_recordChangedItem, hvisible]
    exact h.write (replaces_last { turn.toTurn with items } hdistinct.last_not_mem rfl) rfl hwrites
  · cases hturn'
    have : items.isEmpty = false := by simpa using ne_nil_of_writes hwrites
    rw [this]
    rfl

theorem reports_ensure_withItems (h : Shows (P.apply b.activeChangeSet) b.visible)
    (hwrites : Writes item b.ensureTurn.1.items items) :
    Reports P ((b.ensureTurn.2.withItems b.ensureTurn.1 items).recordChangedItem b.ensureTurn.1.id item) := by
  intro hdistinct
  have hid : b.ensureTurn.1.id ∉ b.ensureTurn.2.turns.map (·.id) :=
    Distinct.last_not_mem (t := { b.ensureTurn.1.toTurn with items }) hdistinct
  refine reports_withItems ?_ hwrites hdistinct
  rw [ensureTurn_turns] at hid ⊢
  exact shows_ensureTurn h hid

theorem reports_push (h : Shows (P.apply b.activeChangeSet) b.visible) : Reports P (b.pushItemInCurrentTurn item) := by
  intro hdistinct
  refine reports_ensure_withItems h (writes_push ?_) hdistinct
  exact Distinct.item_not_mem (t := { b.ensureTurn.1.toTurn with items := b.ensureTurn.1.items ++ [item] }) hdistinct rfl

section

variable (h : Tracks P b)
include h

theorem Tracks.upsertCurrent : Reports P (b.upsertItemInCurrentTurn item) :=
  reports_ensure_withItems h.shown (writes_upsertTurnItem _ item)

theorem Tracks.upsertFinished (turnId : Str) (item : ThreadItem) : Tracks P (b.upsertFinished turnId item) := by
  unfold Builder.upsertFinished
  split
  · rename_i hfinished
    obtain ⟨t, ht⟩ : ∃ t, findTurn b.turns turnId = some t := by
      cases hf : findTurn b.turns turnId with
      | some t => exact ⟨t, rfl⟩
      | none =>
        rw [findTurn_eq_none] at hf
        obtain ⟨t, ht, hid⟩ := any_eq_true.1 hfinished
        exact absurd (mem_map.2 ⟨t, ht, by simpa using hid⟩) hf
    refine ⟨?_, h.substantial⟩
    rw [apply_recordChangedItem]
    exact h.shown.write (replaces_updateTurn ht (fun t => { t with items := upsertTurnItem t.items item }) (fun _ => rfl) _) rfl
      (writes_upsertTurnItem t.items item)
  · exact h

theorem Tracks.upsertTurnId : Reports P (b.upsertItemInTurnId turnId item) := by
  unfold upsertItemInTurnId
  cases hcurrent : b.currentTurn with
  | none => exact (h.upsertFinished turnId item).reports
  | some turn =>
    dsimp only
    split
    · rename_i hid
      obtain rfl : turn.id = turnId := by simpa using hid
      have hshown := h.shown
      rw [visible_of_current hcurrent] at hshown
      exact reports_withItems hshown (writes_upsertTurnItem _ item)
    · exact (h.upsertFinished turnId item).reports

theorem Tracks.upsertTurnOrCurrent : Reports P (b.upsertItemInTurnOrCurrent turnId item) := by
  unfold upsertItemInTurnOrCurrent
  split
  · exact h.upsertCurrent
  · exact h.upsertTurnId

theorem Tracks.pushNumbered (item : Str → ThreadItem) :
    Reports P (b.nextItemId.2.pushItemInCurrentTurn (item b.nextItemId.1)) := reports_push (b := b.nextItemId.2) h.shown

theorem Tracks.extendReasoning {extend : List Str × List Str → List Str × List Str} :
    Reports P (b.extendReasoning text extend) := by
  unfold Builder.extendReasoning
  split
  · exact h.reports
  dsimp only
  have hnumbered (item : ThreadItem) : Reports P (b.ensureTurn.2.nextItemId.2.pushItemInCurrentTurn item) := by
    intro hd
    have hensure : b.ensureTurn.2.nextItemId.2.ensureTurn = (b.ensureTurn.1, b.ensureTurn.2.nextItemId.2) := by
      have := ensureTurn_currentTurn b
      simp_all [ensureTurn, nextItemId]
    refine reports_push ?_ hd
    have hid : b.ensureTurn.1.id ∉ b.turns.map (·.id) := by
      unfold pushItemInCurrentTurn at hd
      rw [hensure] at hd
      rw [← ensureTurn_turns b]
      exact hd.last_not_mem
    have hvisible : b.ensureTurn.2.nextItemId.2.visible = b.turns ++ [b.ensureTurn.1.toTurn] := by
      rw [← ensureTurn_turns b]
      exact visible_of_current (ensureTurn_currentTurn b)
    rw [hvisible]
    exact shows_ensureTurn h.shown hid
  split
  · rename_i id summary content hlast
    obtain ⟨front, hfront⟩ := getLast?_eq_some_iff.1 hlast
    intro hdistinct
    refine reports_ensure_withItems h.shown ?_ hdistinct
    rw [hfront, dropLast_concat] at hdistinct ⊢
    have hid := Distinct.item_not_mem (t := { b.ensureTurn.1.toTurn with items := front ++
      [.reasoning id (extend (summary, content)).1 (extend (summary, content)).2] }) hdistinct rfl
    exact writes_last rfl hid
  · exact hnumbered _

/-! ## Turns -/

theorem Tracks.changeCurrent (hcurrent : b.currentTurn = some turn)
    (hdistinct : Distinct b.visible) (hid : turn'.id = turn.id) (hitems : turn'.items = turn.items)
    (hopened : turn'.openedExplicitly = turn.openedExplicitly) (hsaw : turn'.sawCompaction = turn.sawCompaction) :
    Tracks P (b.changeCurrent turn') := by
  have hshown := h.shown
  rw [visible_of_current hcurrent] at hshown hdistinct
  refine ⟨?_, fun t ht => ?_⟩
  · show Shows (P.apply (({ b with currentTurn := some turn' } : Builder).recordChangedTurn turn'.change).activeChangeSet) _
    rw [apply_recordChangedTurn]
    exact hshown.change (replaces_last turn'.toTurn hdistinct.last_not_mem hid) hid hitems
  · cases ht
    rw [hitems, hopened, hsaw]
    exact h.substantial turn hcurrent

theorem Tracks.changeFinished (turnId : Str) {f : Turn → Turn} (hid : ∀ t, (f t).id = t.id)
    (hitems : ∀ t, (f t).items = t.items) : Tracks P (b.changeFinished turnId f) := by
  unfold Builder.changeFinished
  cases hfind : b.turns.find? (·.id == turnId) with
  | none => exact h
  | some t =>
    have ht : findTurn b.turns turnId = some t := hfind
    refine ⟨?_, h.substantial⟩
    rw [apply_recordChangedTurn]
    exact h.shown.change (replaces_updateTurn ht f hid _) ((hid t).trans (by simpa using find?_some ht)) (hitems t)

theorem Tracks.openTurn (hcurrent : b.currentTurn = none) (turn : PendingTurn) (hitems : turn.items = [])
    (hid : turn.id ∉ b.turns.map (·.id)) : Shows (P.apply (b.openTurn turn).activeChangeSet) (b.openTurn turn).visible := by
  have hshown := h.shown
  rw [visible_of_none hcurrent] at hshown
  exact shows_openTurn hshown hid hitems

theorem Tracks.turnStarted (hs : b.settled) : Reports P (b.handleTurnStarted turnId startedAt) := by
  intro hdistinct
  have hnone : b.finishCurrentTurn.currentTurn = none := by rw [finishCurrentTurn_settled h.substantial hs]
  refine ⟨(h.finish hs).openTurn hnone _ rfl hdistinct.last_not_mem, fun turn ht => ?_⟩
  cases ht
  rfl

theorem Tracks.rollback (hs : b.settled) (hempty : b.activeChangeSet = .empty) (hdistinct : Distinct b.visible)
    (n : Nat) : Tracks P (b.handleThreadRollback n) := by
  have hshown := h.shown
  unfold handleThreadRollback
  rw [finishCurrentTurn_settled h.substantial hs]
  refine ⟨?_, fun turn ht => by cases ht⟩
  show Shows (P.apply { b.activeChangeSet with removedTurnIds := b.activeChangeSet.removedTurnIds ++ _ })
    (b.visible.take _ ++ [])
  rw [hempty] at hshown ⊢
  rw [append_nil]
  exact hshown.take hdistinct.ids _

theorem Tracks.turnComplete
    (hs : b.closes (.eventMsg (.turnComplete turnId completedAt durationMs)) → b.settled)
    (hdistinct : Distinct b.visible) : Tracks P (b.handleTurnComplete turnId completedAt durationMs) := by
  unfold handleTurnComplete
  by_cases hfinished : (!b.isCurrent turnId && b.isFinished turnId)
  · rw [if_pos hfinished]
    exact h.changeFinished turnId (fun _ => rfl) fun _ => rfl
  rw [if_neg hfinished]
  cases hcurrent : b.currentTurn with
  | none => exact h
  | some =>
    have hsettled : b.settled := by
      refine hs ?_
      cases hc : b.isCurrent turnId <;> simp_all [closes]
    refine Tracks.finish (h.changeCurrent hcurrent hdistinct rfl rfl rfl rfl) ?_
    rw [settled, hcurrent] at hsettled
    exact hsettled

theorem Tracks.turnAborted (turnId : Option Str) (completedAt durationMs : Option Int) (hdistinct : Distinct b.visible) :
    Tracks P (b.handleTurnAborted turnId completedAt durationMs) := by
  unfold handleTurnAborted
  split
  · exact h.changeFinished _ (fun _ => rfl) fun _ => rfl
  · cases hcurrent : b.currentTurn with
    | none => exact h
    | some => exact h.changeCurrent hcurrent hdistinct rfl rfl rfl rfl

theorem Tracks.error (affects : Bool) (error : Rollout.TurnError) (hdistinct : Distinct b.visible) :
    Tracks P (b.handleError affects error) := by
  unfold handleError
  cases affects with
  | false => exact h
  | true =>
    cases hcurrent : b.currentTurn with
    | none => exact h
    | some => exact h.changeCurrent hcurrent hdistinct rfl rfl rfl rfl

theorem Tracks.compacted : Reports P b.handleCompacted := by
  intro hdistinct
  have hvisible : b.handleCompacted.visible = b.turns ++ [b.ensureTurn.1.toTurn] := by
    show b.ensureTurn.2.turns ++ _ = _
    rw [ensureTurn_turns]
    rfl
  rw [hvisible] at hdistinct
  refine ⟨?_, fun turn ht => ?_⟩
  · rw [hvisible]
    exact shows_ensureTurn h.shown hdistinct.last_not_mem
  · cases ht
    simp

theorem Tracks.review (hs : ∀ id, turnId = some id → (!b.isCurrent id && !b.isFinished id) → b.settled) :
    Reports P (b.upsertReviewModeItem turnId item) := by
  cases turnId with
  | none => exact h.upsertCurrent
  | some id =>
    unfold upsertReviewModeItem
    dsimp only
    split
    · rename_i hopens
      have hsettled := hs id rfl hopens
      have hnone : b.finishCurrentTurn.currentTurn = none := by rw [finishCurrentTurn_settled h.substantial hsettled]
      have hup : (b.finishCurrentTurn.openTurn (b.finishCurrentTurn.newTurn (some id))).upsertItemInTurnId id item =
          ((b.finishCurrentTurn.openTurn (b.finishCurrentTurn.newTurn (some id))).withItems
            (b.finishCurrentTurn.newTurn (some id)) [item]).recordChangedItem id item := by
        have : ((b.finishCurrentTurn.newTurn (some id)).id == id) := by simp [newTurn]
        exact if_pos this
      rw [hup]
      intro hdistinct
      have hshown := (h.finish hsettled).openTurn hnone (b.finishCurrentTurn.newTurn (some id)) rfl hdistinct.last_not_mem
      exact reports_withItems hshown (writes_upsertTurnItem [] item) hdistinct
    · exact h.upsertTurnId

theorem Tracks.userMessage (hs : b.closesForInput → b.settled) :
    Reports P (b.handleUserMessage clientId content) := by
  unfold handleUserMessage
  split
  · rename_i hcloses
    exact (h.finish (hs hcloses)).pushNumbered fun id => .userMessage id clientId content
  · exact h.pushNumbered fun id => .userMessage id clientId content

theorem Tracks.legacy : Reports P (b.applyLegacyUpdate update) := by
  have hup (turnId : Option Str) (item : ThreadItem) : Reports P (b.upsertLegacy turnId item) := by
    cases turnId with
    | none => exact h.upsertCurrent
    | some => exact h.upsertTurnId
  cases update with
  | started => exact hup _ _
  | completed =>
    unfold applyLegacyUpdate
    dsimp only
    split
    · exact h.reports
    · exact hup _ _

end

theorem Tracks.responseItem (env : Env) (h : Tracks P b) {item} : Reports P (b.handleResponseItem env item) := by
  unfold handleResponseItem
  cases hlegacy : legacyUpdate env b.calls item with
  | mk calls update =>
    cases update with
    | some =>
      have hcalls : Tracks P { b with calls } := h.congr rfl rfl rfl
      exact hcalls.legacy
    | none =>
      cases item with
      | message id role content =>
        dsimp only
        split
        · cases env.parseHookPromptMessage id content with
          | none => exact h.reports
          | some => exact reports_push h.shown
        · exact h.reports
      | _ => exact h.reports

/-! ## Rollouts -/

theorem Tracks.event (h : Tracks P b) (hempty : b.activeChangeSet = .empty) {event}
    (hs : b.closes (.eventMsg event) → b.settled) (hdistinct : Distinct b.visible) :
    Reports P (b.handleEvent event) := by
  have hreview (turnId itemId : Option Str) (item : Str → ThreadItem)
      (hsettled : ∀ id, turnId = some id → (!b.isCurrent id && !b.isFinished id) → b.settled) :
      Reports P ((b.itemIdOr itemId).2.upsertReviewModeItem turnId (item (b.itemIdOr itemId).1)) := by
    cases itemId with
    | some => exact h.review hsettled
    | none => exact Tracks.review (b := b.nextItemId.2) (h.congr rfl rfl rfl) hsettled
  have hlifecycle (turnId : Str) (item : ThreadItem)
      (hsettled : (item.isReviewMode && !b.isCurrent turnId && !b.isFinished turnId) → b.settled) :
      Reports P (b.handleMaterializedItemLifecycle turnId item) := by
    unfold handleMaterializedItemLifecycle
    split
    · split
      · rename_i hmode
        refine h.review ?_
        rintro _ ⟨⟩ hopens
        exact hsettled (by rwa [hmode, Bool.true_and])
      · exact h.upsertTurnId
    · exact h.reports
  cases event with
  | turnStarted => exact h.turnStarted (hs rfl)
  | turnComplete => exact (h.turnComplete hs hdistinct).reports
  | turnAborted => exact (h.turnAborted _ _ _ hdistinct).reports
  | threadRolledBack n => exact (h.rollback (hs rfl) hempty hdistinct n).reports
  | userMessage => exact h.userMessage hs
  | agentMessage text phase =>
    simp only [handleEvent, handleAgentMessage]
    split
    · exact h.reports
    · exact h.pushNumbered fun id => .agentMessage id text phase
  | agentReasoning | agentReasoningRawContent => exact h.extendReasoning
  | inCurrentTurn => exact h.upsertCurrent
  | inTurn turnEvent =>
    cases turnEvent with
    | execCommandBegin | execCommandEnd => exact h.upsertTurnId
    | _ => exact h.upsertTurnOrCurrent
  | guardianAssessment status turnId targetItemId =>
    cases targetItemId with
    | none => cases status <;> exact h.reports
    | some => cases status <;> first | exact h.reports | exact h.upsertTurnOrCurrent
  | dynamicToolCallRequest | dynamicToolCallResponse => exact h.upsertTurnOrCurrent
  | contextCompacted => exact h.pushNumbered .contextCompaction
  | enteredReviewMode turnId itemId =>
    exact hreview turnId itemId (fun id => .enteredReviewMode id _) (by rintro _ rfl; exact hs)
  | exitedReviewMode turnId itemId text =>
    exact hreview turnId itemId (fun id => .exitedReviewMode id text) (by rintro _ rfl; exact hs)
  | itemStarted turnId item | itemCompleted turnId item => exact hlifecycle turnId item hs
  | error => exact (h.error _ _ hdistinct).reports
  | other => exact h.reports

theorem Tracks.handle (env : Env) (h : Tracks P b) (hempty : b.activeChangeSet = .empty) {item}
    (hs : b.closes item → b.settled) (hdistinct : Distinct b.visible) :
    Reports P (b.handleRolloutItem env item) := by
  have h' : Tracks P { b with currentRolloutIndex := b.nextRolloutIndex, nextRolloutIndex := b.nextRolloutIndex + 1 } :=
    h.congr rfl rfl rfl
  cases item with
  | eventMsg => exact h'.event hempty hs hdistinct
  | compacted => exact h'.compacted
  | responseItem => exact h'.responseItem env
  | _ => exact h'.reports

section Run

variable (env : Env)

def Builder.next (b : Builder) (item : RolloutItem) : Builder := (b.handleRolloutItemWithChanges env item).1

/-- What a rollout has to keep to: no id is used twice, and no turn is closed while a legacy call in it is in progress. -/
def Orderly (b : Builder) (item : RolloutItem) : Prop :=
  (b.closes item = true → b.settled = true) ∧ Distinct (b.next env item).visible

instance (b : Builder) (item : RolloutItem) : Decidable (Orderly env b item) := inferInstanceAs (Decidable (_ ∧ _))

def projectBatches (batches : List (List RolloutItem)) : Builder × Projection :=
  batches.foldl (fun s batch =>
    ((s.1.handleRolloutItemsWithChanges env batch).1, s.2.apply (s.1.handleRolloutItemsWithChanges env batch).2))
    (.new, .empty)

theorem projectBatches_eq (batches : List (List RolloutItem)) :
    projectBatches env batches = batches.flatten.foldl (project env) (.new, .empty) := by
  unfold projectBatches
  generalize ((.new, .empty) : Builder × Projection) = s
  induction batches generalizing s with
  | nil => rfl
  | cons batch batches ih =>
    rw [foldl_cons, project_batch, ih, flatten_cons, foldl_append]

theorem fst_foldl_project (items : List RolloutItem) (s : Builder × Projection) :
    (items.foldl (project env) s).1 = items.foldl (Builder.next env) s.1 := by
  induction items generalizing s with
  | nil => rfl
  | cons item items ih => exact ih _

structure Holds (s : Builder × Projection) : Prop where
  tracks : Tracks s.2 s.1
  noChanges : s.1.activeChangeSet = .empty
  distinct : Distinct s.1.visible

theorem apply_empty (P : Projection) : P.apply .empty = P := P.delete_nil

theorem holds_new : Holds (.new, .empty) where
  tracks := ⟨by rw [show new.activeChangeSet = .empty from rfl, apply_empty]; exact shows_empty,
    fun turn hturn => by cases hturn⟩
  noChanges := rfl
  distinct := by decide

variable {s : Builder × Projection}

theorem Holds.step (h : Holds s) {item} (ho : Orderly env s.1 item) : Holds (project env s item) := by
  have hb : ({ s.1 with activeChangeSet := .empty } : Builder) = s.1 := by
    rw [← h.noChanges]
  have hdistinct := ho.2
  rw [Builder.next, Builder.handleRolloutItemWithChanges, hb] at hdistinct
  have htracks := h.tracks.handle env h.noChanges ho.1 h.distinct hdistinct
  have hproject : project env s item = ({ s.1.handleRolloutItem env item with activeChangeSet := .empty },
      s.2.apply (s.1.handleRolloutItem env item).activeChangeSet) := by
    unfold project Builder.handleRolloutItemWithChanges
    rw [hb]
  rw [hproject]
  refine ⟨⟨?_, htracks.substantial⟩, rfl, hdistinct⟩
  rw [apply_empty]
  exact htracks.shown

theorem Holds.run (h : Holds s)
    (ho : Transition.Meets (fun b item => some (b.next env item)) (Orderly env) s.1 items) :
    Holds (items.foldl (project env) s) := by
  induction items generalizing s with
  | nil => exact h
  | cons item items ih => exact ih (h.step env ho.1) (ho.2 _ rfl)

theorem finish_eq (hsub : Substantial b) (hcurrent : b.currentTurn = some turn) :
    b.finish = b.turns ++ [{ turn.toTurn with items := failIncomplete b.calls turn.items }] := by
  have hempty : (failIncomplete b.calls turn.items).isEmpty = turn.items.isEmpty := by
    cases turn.items <;> rfl
  unfold finish finishCurrentTurn
  rw [hcurrent]
  dsimp only
  rw [hempty, hsub turn hcurrent]
  rfl

theorem id_failItem (calls : Calls) (item : ThreadItem) : (failItem calls item).id = item.id := by
  cases item with
  | dynamicToolCall =>
    simp only [failItem]
    split <;> rfl
  | _ => rfl

theorem failItem_ne {calls} (h : isIncomplete calls item) : failItem calls item ≠ item := by
  cases item with
  | dynamicToolCall c =>
    intro heq
    rw [failItem, if_pos h] at heq
    injection heq with heq
    have hstatus := congrArg (·.status) heq
    simp [isIncomplete, ← hstatus] at h
  | _ => cases h

theorem Holds.settled_of_shows (h : Holds s) (hshows : Shows s.2 s.1.finish) : s.1.settled := by
  by_contra hnot
  have hshown := h.tracks.shown
  rw [h.noChanges, apply_empty] at hshown
  cases hcurrent : s.1.currentTurn with
  | none =>
    rw [settled, hcurrent] at hnot
    exact hnot rfl
  | some turn =>
    rw [settled, hcurrent, Option.all_some, Bool.not_eq_true, all_eq_false] at hnot
    obtain ⟨item, hitem, hincomplete⟩ := hnot
    rw [Bool.not_eq_true, Bool.not_eq_false'] at hincomplete
    have hdistinct := h.distinct
    rw [visible_of_current hcurrent] at hshown hdistinct
    rw [finish_eq h.tracks.substantial hcurrent] at hshows
    -- the two lists show the same turn with different items
    have hnone := findTurn_eq_none.2 hdistinct.last_not_mem
    have hitems := hdistinct.items turn.toTurn (by simp)
    have hbefore := hshown.contents turn.id item.id
    have hafter := hshows.contents turn.id item.id
    have hfailed : ((failIncomplete s.1.calls turn.items).map (·.id)).Nodup := by
      simpa [failIncomplete, Function.comp_def, id_failItem] using hitems
    have hmem : failItem s.1.calls item ∈ failIncomplete s.1.calls turn.items := mem_map_of_mem hitem
    have hfound := findItem_of_mem hfailed hmem
    rw [id_failItem] at hfound
    rw [findTurn_append, hnone, Option.none_or, findTurn_singleton, if_pos rfl, Option.bind_some] at hbefore hafter
    rw [findItem_of_mem hitems hitem] at hbefore
    rw [hbefore, hfound] at hafter
    exact failItem_ne hincomplete (Option.some.inj hafter).symm

/-- **The changes of a rollout, batch after batch, make up its turns exactly when no legacy call is left in progress in the
open turn**; turns closed on the way have none, and ids are used once. -/
theorem projection_shows_turns_iff (batches : List (List RolloutItem))
    (horderly : Transition.Meets (fun b item => some (b.next env item)) (Orderly env) .new batches.flatten) :
    Shows (projectBatches env batches).2 (buildTurnsFromRolloutItems env batches.flatten) ↔
      (projectBatches env batches).1.settled = true := by
  have hholds := holds_new.run env horderly
  have hbuild : buildTurnsFromRolloutItems env batches.flatten = (projectBatches env batches).1.finish := by
    rw [projectBatches_eq, fst_foldl_project]
    rfl
  rw [hbuild, projectBatches_eq]
  constructor
  · exact hholds.settled_of_shows
  · intro hsettled
    have hshown := hholds.tracks.shown
    rw [hholds.noChanges, apply_empty] at hshown
    rw [finish, finishCurrentTurn_settled hholds.tracks.substantial hsettled]
    exact hshown

end Run

/-! ## Examples -/

def plainEnv : Env where
  parseJson text := if text == "\x7b\x7d".toList then some (.object []) else none
  parseHookPromptMessage _ _ := none

def toolCall (callId : Str) : RolloutItem := .responseItem (.functionCall none ['f'] none "\x7b\x7d".toList callId (some ['t']))

def toolOutput (callId : Str) : RolloutItem := .responseItem (.functionCallOutput none callId (.fromText ['o']) (some ['t']))

def rolledBackBatches : List (List RolloutItem) :=
  [[.eventMsg (.turnStarted ['t'] none), .eventMsg (.userMessage none [['q']]), toolCall ['c']],
    [toolOutput ['c'], .eventMsg (.turnComplete ['t'] none none), .eventMsg (.turnStarted ['u'] none)],
    [.eventMsg (.agentMessage ['a'] none), .eventMsg (.threadRolledBack 1), .eventMsg (.turnStarted ['v'] none)]]

theorem rolled_back_batches_are_shown :
    Shows (projectBatches plainEnv rolledBackBatches).2 (buildTurnsFromRolloutItems plainEnv rolledBackBatches.flatten) :=
  (projection_shows_turns_iff plainEnv rolledBackBatches (Transition.meets_of_decide (by decide))).2 (by decide)

/-- **A legacy call without its output stays in progress**: closing the turn fails it and reports nothing. -/
theorem incomplete_call_stays_in_progress :
    ¬ Shows (projectBatches plainEnv [[.eventMsg (.turnStarted ['t'] none), toolCall ['c'],
        .eventMsg (.turnComplete ['t'] none none)]]).2
      (buildTurnsFromRolloutItems plainEnv [.eventMsg (.turnStarted ['t'] none), toolCall ['c'],
        .eventMsg (.turnComplete ['t'] none none)]) := by
  intro h
  have := h.contents ['t'] ['c']
  revert this
  decide

end Owc.ThreadHistory
