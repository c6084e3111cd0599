import OpenWebCodex.ProfileHostSound
/-!
# ProfileHostTurns — the turns a restart waits for

While the lifecycle lock is held for writing, the active turns are the turns of the live process whose start was acknowledged and
whose completion was not dispatched.  What has to be assumed is what the host leaves to chance: that a turn is not recorded after
its completion or after its process, that a review is announced before its request returns, and that a replaced process's reader
has nothing left to do with turns.
-/
namespace Owc.ProfileHost

open List Host
open Transition

/-- **A turn of the live process**, acknowledged and not completed. -/
def Host.Running (s : Host) (turn : Turn) : Prop :=
  s.history.live = some turn.process ∧ turn ∈ s.history.acknowledged ∧ turn ∉ s.history.completed

/-- The orders of steps in which the active turns are kept. -/
def orderly (s : Host) : Step → Bool
  -- a start is entered while its process is live
  | .dispatch process =>
    match s.readers process with
    | .checked (.notification (.turnStarted _)) => decide (s.history.live = some process)
    | _ => true
  -- the reader of a replaced process does not clear the turns of the next
  | .close process => decide (s.history.live = none) || decide (s.history.live = some process)
  -- a turn is recorded before it is completed, and while its process is live
  | .record id =>
    match s.caller? id with
    | some ⟨_, _, .answered (some turn)⟩ =>
      decide (s.history.live = some turn.process) && decide (turn ∉ s.history.completed)
    | _ => true
  -- the turn of a review is announced before the request returns
  | .finish id =>
    match s.caller? id with
    | some ⟨_, .reviewStart, .answered (some turn)⟩ =>
      decide (s.history.live ≠ some turn.process) || decide (turn ∈ s.history.noted) || decide (turn ∈ s.history.completed)
    | _ => true
  | _ => true

/-! ## Active turns -/

structure Turns where
  activeTurns : List Turn
  live : Option Nat
  acknowledged : List Turn
  noted : List Turn
  completed : List Turn
  callers : List Caller

def Host.turns (s : Host) : Turns :=
  ⟨s.activeTurns, s.history.live, s.history.acknowledged, s.history.noted, s.history.completed, s.callers⟩

/-- The active turns are those that were entered, and what was acknowledged is entered or its request has yet to return. -/
structure Turns.Tracked (v : Turns) : Prop where
  active : ∀ turn, turn ∈ v.activeTurns ↔ v.live = some turn.process ∧ turn ∈ v.noted ∧ turn ∉ v.completed
  reported : ∀ turn ∈ v.acknowledged, v.live = some turn.process → turn ∉ v.completed →
    turn ∈ v.noted ∨ ∃ caller ∈ v.callers, caller.method ≠ .other ∧ caller.state = .answered (some turn)
  noted : ∀ turn ∈ v.noted, turn ∈ v.acknowledged

theorem mem_insertTurn {turns turn other} : other ∈ insertTurn turns turn ↔ other ∈ turns ∨ other = turn := by
  unfold insertTurn
  split
  · next hmem => exact ⟨.inl, fun h => h.elim id fun heq => heq ▸ hmem⟩
  · rw [mem_append, mem_singleton]

theorem mem_removeTurn {turns turn other} : other ∈ removeTurn turns turn ↔ other ∈ turns ∧ other ≠ turn := by
  unfold removeTurn
  rw [mem_filter, decide_eq_true_eq]

variable {s : Host}

namespace Turns.Tracked

theorem active_insertTurn {v : Turns} (h : v.Tracked) {turn : Turn} (hlive : v.live = some turn.process)
    (hrunning : turn ∉ v.completed) (other : Turn) :
    other ∈ insertTurn v.activeTurns turn ↔
      v.live = some other.process ∧ other ∈ v.noted ++ [turn] ∧ other ∉ v.completed := by
  rw [mem_insertTurn, h.active, mem_append, mem_singleton]
  constructor
  · rintro (⟨hl, hn, hc⟩ | rfl)
    · exact ⟨hl, .inl hn, hc⟩
    · exact ⟨hlive, .inr rfl, hrunning⟩
  · rintro ⟨hl, hn | hn, hc⟩
    · exact .inl ⟨hl, hn, hc⟩
    · exact .inr hn

section

variable (h : s.turns.Tracked) (hrequests : s.requests.Valid)
include h hrequests

theorem recordTurn {id number : Nat} {turn : Turn}
    (hcaller : s.caller? id = some ⟨number, .turnStart, .answered (some turn)⟩) (horderly : orderly s (.record id)) :
    (s.recordTurn id turn).turns.Tracked := by
  obtain ⟨hmem, hid⟩ := of_caller? hcaller
  have hturn : s.history.live = some turn.process ∧ turn ∉ s.history.completed := by
    simpa [orderly, hcaller] using horderly
  refine ⟨h.active_insertTurn hturn.1 hturn.2, ?_, ?_⟩
  · intro other hack hlive hrunning
    rcases h.reported other hack hlive hrunning with hnoted | ⟨caller, hc, hmethod, hstate⟩
    · exact .inl (mem_append_left _ hnoted)
    by_cases heq : caller.id = id
    · rw [hrequests.distinct caller hc _ hmem (heq.trans hid.symm)] at hstate
      cases hstate
      exact .inl (mem_append_right _ (mem_singleton_self turn))
    · exact .inr ⟨caller, mem_setCaller_of_ne .recorded hc heq, hmethod, hstate⟩
  · intro other hnoted
    rcases mem_append.1 hnoted with hnoted | hnew
    · exact h.noted other hnoted
    · rw [mem_singleton.1 hnew]
      exact hrequests.known _ hmem nofun turn rfl

theorem removeCaller {id} (hcaller : s.caller? id = some caller) (hreturns : returns caller)
    (horderly : orderly s (.finish id)) : (s.removeCaller id).turns.Tracked := by
  obtain ⟨hmem, hid⟩ := of_caller? hcaller
  refine ⟨h.active, ?_, h.noted⟩
  intro turn hack hlive hrunning
  rcases h.reported turn hack hlive hrunning with hnoted | ⟨other, hc, hmethod, hstate⟩
  · exact .inl hnoted
  by_cases heq : other.id = id
  · have hsame : other = caller := hrequests.distinct other hc caller hmem (heq.trans hid.symm)
    subst hsame
    obtain ⟨number, method, state⟩ := other
    subst hstate
    cases method with
    | turnStart => cases hreturns
    | reviewStart =>
      have hturn : (s.history.live ≠ some turn.process ∨ turn ∈ s.history.noted) ∨ turn ∈ s.history.completed := by
        simpa [orderly, hcaller] using horderly
      rcases hturn with (hturn | hturn) | hturn
      · exact absurd hlive hturn
      · exact .inl hturn
      · exact absurd hturn hrunning
    | other => exact absurd rfl hmethod
  · exact .inr ⟨other, mem_filter.2 ⟨hc, decide_eq_true heq⟩, hmethod, hstate⟩

theorem deliver (id : Nat) (turn : Option Turn) : (s.deliver id turn).turns.Tracked := by
  unfold Host.deliver
  split
  · next hpending =>
    refine ⟨h.active, ?_, fun other hnoted => mem_append_left _ (h.noted other hnoted)⟩
    intro other hack hlive hrunning
    rcases mem_append.1 hack with hack | hack
    · rcases h.reported other hack hlive hrunning with hnoted | ⟨caller, hc, hmethod, hstate⟩
      · exact .inl hnoted
      refine .inr ⟨caller, mem_setCaller_of_ne _ hc fun heq => ?_, hmethod, hstate⟩
      -- a request that was answered is not pending
      have hwaiting := hrequests.waiting caller hc (heq.symm ▸ hpending)
      rw [hstate] at hwaiting
      cases hwaiting
    · obtain ⟨rfl, _, hc, hid, hmethod⟩ := of_mem_acknowledges hack
      exact .inr ⟨_, mem_map.2 ⟨_, hc, if_pos hid⟩, hmethod, rfl⟩
  · exact h

end

theorem turnStarted (h : s.turns.Tracked) {turn : Turn} (hlive : s.history.live = some turn.process)
    (hrunning : turn ∉ s.history.completed) : (s.updateRuntimeWork (.turnStarted turn)).turns.Tracked := by
  refine ⟨h.active_insertTurn hlive hrunning, ?_, ?_⟩
  · intro other hack hl hr
    rcases mem_append.1 hack with hack | hack
    · exact (h.reported other hack hl hr).imp_left fun hnoted => mem_append_left _ hnoted
    · exact .inl (mem_append_right _ hack)
  · intro other hnoted
    rcases mem_append.1 hnoted with hnoted | hnoted
    · exact mem_append_left _ (h.noted other hnoted)
    · exact mem_append_right _ hnoted

theorem turnCompleted (h : s.turns.Tracked) (turn : Turn) : (s.updateRuntimeWork (.turnCompleted turn)).turns.Tracked := by
  refine ⟨fun other => ?_, fun other hack hl hr => ?_, h.noted⟩
  · show other ∈ removeTurn s.activeTurns turn ↔
      s.history.live = some other.process ∧ other ∈ s.history.noted ∧ other ∉ s.history.completed ++ [turn]
    rw [mem_removeTurn, show other ∈ s.activeTurns ↔ _ from h.active other, mem_append, mem_singleton, not_or]
    exact ⟨fun ⟨⟨hl, hn, hc⟩, hne⟩ => ⟨hl, hn, hc, hne⟩, fun ⟨hl, hn, hc, hne⟩ => ⟨⟨hl, hn, hc⟩, hne⟩⟩
  · exact h.reported other hack hl fun hc => hr (mem_append_left _ hc)

theorem of_live_none {v : Turns} (hactive : v.activeTurns = []) (hlive : v.live = none)
    (hnoted : ∀ turn ∈ v.noted, turn ∈ v.acknowledged) : v.Tracked := by
  refine ⟨fun turn => ?_, fun turn _ hl => ?_, hnoted⟩
  · rw [hactive, hlive]
    exact ⟨fun hmem => absurd hmem not_mem_nil, fun hl => nomatch hl.1⟩
  · rw [hlive] at hl
    cases hl

theorem shutdownUnlocked (h : s.turns.Tracked) : s.shutdownUnlocked.turns.Tracked := by
  unfold Host.shutdownUnlocked
  split
  · exact h
  · exact of_live_none rfl rfl h.noted

theorem spawn (h : s.turns.Tracked) (hsound : Sound s) (hwriter : s.writer = some .renamed) : s.spawn.turns.Tracked := by
  have hlive : s.history.live = none := hsound.halted.2 (.inr hwriter)
  have hother : ∀ turn ∈ s.history.acknowledged, s.processGeneration ≠ turn.process := fun turn hack =>
    Nat.ne_of_gt ((hsound.turnsOld turn hack).2 (.inr (.inr hwriter)))
  refine ⟨fun turn => ⟨fun hmem => ?_, fun hrunning => ?_⟩, fun turn hack hl => ?_, h.noted⟩
  · have hlived := ((h.active turn).1 hmem).1
    rw [show s.turns.live = none from hlive] at hlived
    cases hlived
  · exact absurd (Option.some.inj hrunning.1) (hother turn (h.noted turn hrunning.2.1))
  · exact absurd (Option.some.inj hl) (hother turn hack)

/-- **Every orderly step keeps the active turns.** -/
theorem step {s t : Host} {a : Step} (h : s.turns.Tracked) (hsound : Sound s) (horderly : orderly s a)
    (htaken : Taken s a t) : t.turns.Tracked := by
  cases htaken with
  | beginRequest =>
    refine ⟨h.active, fun turn hack hlive hrunning => ?_, h.noted⟩
    rcases h.reported turn hack hlive hrunning with hnoted | ⟨caller, hc, hstate⟩
    · exact .inl hnoted
    · exact .inr ⟨caller, mem_append_left _ hc, hstate⟩
  | record hcaller => exact h.recordTurn hsound.requests hcaller horderly
  | finish hcaller hreturns => exact h.removeCaller hsound.requests hcaller hreturns horderly
  | respond =>
    unfold respond
    split <;> exact h
  | response => exact h.deliver hsound.requests _ _
  | @notification process message hreader =>
    cases message with
    | turnStarted turn =>
      obtain ⟨hprocess, hnew⟩ := hsound.readings.starting process turn hreader
      have hlive : s.history.live = some turn.process := by
        rw [hprocess]
        simpa [orderly, hreader] using horderly
      exact h.turnStarted hlive fun hdone => hnew (hsound.readings.completed turn hdone)
    | turnCompleted turn => exact h.turnCompleted turn
    | serverRequest | serverRequestResolved | other => exact h
  | @close process _ =>
    have hlive : s.history.live = none ∨ s.history.live = some process := by
      simpa [orderly] using horderly
    exact of_live_none rfl (live_close hlive) h.noted
  | clear | shutdown => exact h.shutdownUnlocked
  | spawn hwriter => exact h.spawn hsound hwriter
  | _ => exact h

end Turns.Tracked

theorem tracked_start : start.turns.Tracked :=
  ⟨fun _ => ⟨fun h => absurd h not_mem_nil, fun h => absurd h.2.1 not_mem_nil⟩, nofun, nofun⟩

/-- With the lock held for writing no request is on its way: what was acknowledged is entered. -/
theorem mem_activeTurns_iff (hsound : Sound s) (h : s.turns.Tracked) (hwriter : s.writer ≠ none) (turn : Turn) :
    turn ∈ s.activeTurns ↔ s.Running turn := by
  refine (h.active turn).trans ⟨fun ⟨hlive, hnoted, hdone⟩ => ⟨hlive, h.noted turn hnoted, hdone⟩, ?_⟩
  rintro ⟨hlive, hack, hdone⟩
  refine ⟨hlive, ?_, hdone⟩
  rcases h.reported turn hack hlive hdone with hnoted | ⟨caller, hc, -⟩
  · exact hnoted
  · have hnone : s.turns.callers = [] := hsound.requests.locked hwriter
    rw [hnone] at hc
    exact absurd hc not_mem_nil

/-- **While the lifecycle lock is held for writing the active turns are the running turns**, in every run of requests, readers,
process exits and restarts whose steps are orderly.  A restart goes on only where no turn runs, and is refused only where one
runs or a server request is open. -/
theorem active_turns_running (steps : List Step) (s : Host) (horderly : Meets step (fun s a => orderly s a = true) start steps)
    (hrun : run step start steps = some s) :
    (s.writer ≠ none → ∀ turn, turn ∈ s.activeTurns ↔ s.Running turn) ∧
      (∀ t, step s .approve = some t → ∀ turn, ¬s.Running turn) ∧
      ∀ t, step s .refuse = some t → (∃ turn, s.Running turn) ∨ s.pendingServerRequests ≠ [] := by
  have hkeeps : ∀ s a t, Sound s ∧ s.turns.Tracked → orderly s a = true → step s a = some t → Sound t ∧ t.turns.Tracked :=
    fun _ _ _ h hmeets hstep => ⟨h.1.step (taken_of_step hstep), h.2.step h.1 hmeets (taken_of_step hstep)⟩
  obtain ⟨hsound, htracked⟩ := run_invariant hkeeps ⟨sound_start, tracked_start⟩ horderly hrun
  have hiff := mem_activeTurns_iff hsound htracked
  refine ⟨hiff, fun t hstep turn hrunning => ?_, fun t hstep => ?_⟩
  · cases taken_of_step hstep with
    | approve hwriter hidle =>
      have hmem := (hiff (by rw [hwriter]; exact nofun) turn).2 hrunning
      have hempty : s.activeTurns = [] := by
        simp only [runtimeIsBusy, Bool.or_eq_false_iff, Bool.not_eq_false', List.isEmpty_iff] at hidle
        exact hidle.1
      rw [hempty] at hmem
      exact absurd hmem not_mem_nil
  · cases taken_of_step hstep with
    | refuse hwriter hbusy =>
      simp only [runtimeIsBusy, Bool.or_eq_true, Bool.not_eq_true', isEmpty_eq_false_iff] at hbusy
      refine hbusy.imp_left fun hactive => ?_
      obtain ⟨turn, hturn⟩ := exists_mem_of_ne_nil _ hactive
      exact ⟨turn, (hiff (by rw [hwriter]; exact nofun) turn).1 hturn⟩

def startedTurn : List Step :=
  [.beginRequest .turnStart, .readLine 1 (.response 0 (some ⟨1, 7⟩)), .dispatch 1, .record 0, .finish 0,
    .readLine 1 (.notification (.turnStarted ⟨1, 7⟩)), .dispatch 1, .recheck 1, .publish 1, .lock true]

def afterStartedTurn : Host := (run step start startedTurn).getD start

theorem started_turn_active :
    afterStartedTurn.writer = some (.locked true) ∧ afterStartedTurn.activeTurns = [⟨1, 7⟩] ∧ afterStartedTurn.Running ⟨1, 7⟩ ∧
      (step afterStartedTurn .refuse).isSome = true :=
  have htracked := (active_turns_running startedTurn afterStartedTurn (meets_of_checks (by decide)) rfl).1 (by decide)
  ⟨by decide, by decide, (htracked ⟨1, 7⟩).1 (by decide), by decide⟩

/-- **A turn that completes before its request records it stays active**: the restart is refused though nothing runs. -/
theorem completed_turn_stays_active : ∃ s, run step start
      [.beginRequest .turnStart, .readLine 1 (.response 0 (some ⟨1, 7⟩)), .dispatch 1,
        .readLine 1 (.notification (.turnStarted ⟨1, 7⟩)), .dispatch 1, .recheck 1, .publish 1,
        .readLine 1 (.notification (.turnCompleted ⟨1, 7⟩)), .dispatch 1, .recheck 1, .publish 1,
        .record 0, .finish 0, .lock true] = some s ∧
    s.activeTurns = [⟨1, 7⟩] ∧ s.history.completed = [⟨1, 7⟩] ∧ ¬s.Running ⟨1, 7⟩ ∧ (step s .approve).isSome = false :=
  ⟨_, rfl, by decide, by decide, fun h => h.2.2 (by decide), by decide⟩

end Owc.ProfileHost
