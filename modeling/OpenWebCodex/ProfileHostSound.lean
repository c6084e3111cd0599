import OpenWebCodex.ProfileHost
/-!
# ProfileHostSound — what holds of a profile host in every run

Whatever the order of its steps: requests have their own numbers and are gone while the lifecycle lock is held for writing, readers
hold lines of their own processes, no turn is known of a process that was not started.
-/
namespace Owc.ProfileHost

open List Host

/-! ## Requests -/

structure Requests where
  callers : List Caller
  pending : List Nat
  nextId : Nat
  writer : Option WriterState
  acknowledged : List Turn

def Host.requests (s : Host) : Requests := ⟨s.callers, s.pending, s.nextId, s.writer, s.history.acknowledged⟩

/-- Requests have their own numbers, wait as long as they are pending, and are gone while the lock is held for writing. -/
structure Requests.Valid (v : Requests) : Prop where
  distinct : ∀ a ∈ v.callers, ∀ b ∈ v.callers, a.id = b.id → a = b
  below : ∀ caller ∈ v.callers, caller.id < v.nextId
  waiting : ∀ caller ∈ v.callers, caller.id ∈ v.pending → caller.state = .waiting
  locked : v.writer ≠ none → v.callers = []
  known : ∀ caller ∈ v.callers, caller.method ≠ .other → ∀ turn, caller.state = .answered (some turn) → turn ∈ v.acknowledged

variable {s : Host} {caller : Caller} {id : Nat}

theorem mem_setCaller (h : caller ∈ (s.setCaller id state).callers) :
    (∃ before ∈ s.callers, before.id = id ∧ caller = { before with state := state }) ∨ (caller ∈ s.callers ∧ caller.id ≠ id) := by
  obtain ⟨before, hbefore, rfl⟩ := mem_map.1 h
  split
  · next hid =>
    exact .inl ⟨before, hbefore, hid, rfl⟩
  · next hid =>
    exact .inr ⟨hbefore, hid⟩

theorem mem_setCaller_of_ne (state : CallerState) (h : caller ∈ s.callers)
    (hid : caller.id ≠ id) : caller ∈ (s.setCaller id state).callers :=
  mem_map.2 ⟨caller, h, if_neg hid⟩

theorem of_caller? (h : s.caller? id = some caller) : caller ∈ s.callers ∧ caller.id = id :=
  ⟨mem_of_find?_eq_some h, by simpa using find?_some h⟩

theorem acknowledges_of_ne_other (h : s.caller? id = some caller)
    (hmethod : caller.method ≠ .other) : s.acknowledges id (some turn) = [turn] := by
  unfold acknowledges
  obtain ⟨_, method, _⟩ := caller
  rw [h]
  cases method with
  | turnStart => rfl
  | reviewStart => rfl
  | other => exact absurd rfl hmethod

theorem of_mem_acknowledges (h : other ∈ s.acknowledges id turn) :
    turn = some other ∧ ∃ caller ∈ s.callers, caller.id = id ∧ caller.method ≠ .other := by
  unfold acknowledges at h
  split at h
  · next hcaller =>
    rw [mem_singleton.1 h]
    obtain ⟨hmem, hid⟩ := of_caller? hcaller
    exact ⟨rfl, _, hmem, hid, nofun⟩
  · next hcaller =>
    rw [mem_singleton.1 h]
    obtain ⟨hmem, hid⟩ := of_caller? hcaller
    exact ⟨rfl, _, hmem, hid, nofun⟩
  · exact absurd h not_mem_nil

variable {a : Step}

namespace Requests.Valid

theorem frame {v w : Requests} (h : v.Valid) (hcallers : w.callers = v.callers) (hpending : ∀ id ∈ w.pending, id ∈ v.pending)
    (hnext : w.nextId = v.nextId) (hlocked : w.writer ≠ none → v.callers = [])
    (hknown : ∀ turn ∈ v.acknowledged, turn ∈ w.acknowledged) : w.Valid := by
  obtain ⟨_, _, _, _, _⟩ := w
  subst hcallers hnext
  exact ⟨h.distinct, h.below, fun caller hc hp => h.waiting caller hc (hpending _ hp), hlocked,
    fun caller hc hm turn ht => hknown turn (h.known caller hc hm turn ht)⟩

section

variable (h : s.requests.Valid)
include h

theorem beginRequest (method : Method) (hwriter : s.writer = none) : (s.beginRequest method).requests.Valid := by
  have hmem : ∀ caller ∈ (s.beginRequest method).callers, caller ∈ s.callers ∨ caller = ⟨s.nextId, method, .waiting⟩ := by
    intro caller hc
    rcases mem_append.1 hc with hc | hc
    · exact .inl hc
    · exact .inr (mem_singleton.1 hc)
  refine ⟨?_, ?_, ?_, fun hw => absurd hwriter hw, ?_⟩
  · intro a ha b hb hid
    rcases hmem a ha with ha | rfl <;> rcases hmem b hb with hb | rfl
    · exact h.distinct a ha b hb hid
    · exact absurd hid (Nat.ne_of_lt (h.below a ha))
    · exact absurd hid.symm (Nat.ne_of_lt (h.below b hb))
    · rfl
  · intro caller hc
    rcases hmem caller hc with hc | rfl
    · exact Nat.lt_succ_of_lt (h.below caller hc)
    · exact Nat.lt_succ_self _
  · intro caller hc hp
    rcases hmem caller hc with hc | rfl
    · rcases mem_append.1 hp with hp | hp
      · exact h.waiting caller hc hp
      · exact absurd (mem_singleton.1 hp) (Nat.ne_of_lt (h.below caller hc))
    · rfl
  · intro caller hc hm turn ht
    rcases hmem caller hc with hc | rfl
    · exact h.known caller hc hm turn ht
    · cases ht

theorem setCaller {w : Requests} (id : Nat) (state : CallerState) (hcallers : w.callers = (s.setCaller id state).callers)
    (hpending : ∀ other ∈ w.pending, other ∈ s.pending ∧ other ≠ id) (hnext : w.nextId = s.nextId)
    (hwriter : w.writer = s.writer) (hknown : ∀ turn ∈ s.history.acknowledged, turn ∈ w.acknowledged)
    (hanswered : ∀ caller ∈ s.callers, caller.id = id → caller.method ≠ .other → ∀ turn, state = .answered (some turn) → turn ∈ w.acknowledged) :
    w.Valid := by
  have hmem : ∀ caller ∈ w.callers, _ := fun caller hc => mem_setCaller (hcallers ▸ hc)
  refine ⟨?_, ?_, ?_, ?_, ?_⟩
  · intro a ha b hb hid
    rcases hmem a ha with ⟨c, hcm, hai, rfl⟩ | ⟨ha, hai⟩ <;> rcases hmem b hb with ⟨d, hdm, hbi, rfl⟩ | ⟨hb, hbi⟩
    · rw [h.distinct c hcm d hdm hid]
    · exact absurd (hid.symm.trans hai) hbi
    · exact absurd (hid.trans hbi) hai
    · exact h.distinct a ha b hb hid
  · intro caller hc
    rw [hnext]
    rcases hmem caller hc with ⟨before, hbefore, -, rfl⟩ | ⟨hc, -⟩
    · exact h.below before hbefore
    · exact h.below caller hc
  · intro caller hc hp
    rcases hmem caller hc with ⟨before, -, hid, rfl⟩ | ⟨hc, -⟩
    · exact absurd hid (hpending _ hp).2
    · exact h.waiting caller hc (hpending _ hp).1
  · intro hw
    have hnone : s.callers = [] := h.locked fun hs => hw (hwriter.trans hs)
    rw [hcallers, Host.setCaller, hnone]
    rfl
  · intro caller hc hm turn ht
    rcases hmem caller hc with ⟨before, hbefore, hid, rfl⟩ | ⟨hc, -⟩
    · exact hanswered before hbefore hid hm turn ht
    · exact hknown turn (h.known caller hc hm turn ht)

theorem caller?_eq (hc : caller ∈ s.callers) : s.caller? caller.id = some caller := by
  cases hfound : s.caller? caller.id with
  | none => exact absurd (find?_eq_none.1 hfound caller hc) (by simp)
  | some found =>
    obtain ⟨hmem, hid⟩ := of_caller? hfound
    rw [h.distinct found hmem caller hc hid]

theorem deliver (id : Nat) (turn : Option Turn) : (s.deliver id turn).requests.Valid := by
  unfold Host.deliver
  split
  · refine h.setCaller id (.answered turn) rfl ?_ rfl rfl (fun other ho => mem_append_left _ ho) ?_
    · intro other ho
      obtain ⟨hmem, hne⟩ := mem_filter.1 ho
      exact ⟨hmem, of_decide_eq_true hne⟩
    · rintro caller hc rfl hm other hother
      cases hother
      refine mem_append_right _ ?_
      rw [acknowledges_of_ne_other (h.caller?_eq hc) hm]
      exact mem_singleton_self other
  · exact h

theorem recordTurn {id number : Nat} {method : Method} {turn : Turn}
    (hcaller : s.caller? id = some ⟨number, method, .answered (some turn)⟩) : (s.recordTurn id turn).requests.Valid := by
  obtain ⟨hmem, hid⟩ := of_caller? hcaller
  refine h.setCaller id .recorded rfl ?_ rfl rfl (fun other ho => ho) nofun
  intro other ho
  refine ⟨ho, fun heq => ?_⟩
  -- a request that was answered is not pending
  have hwaiting := h.waiting _ hmem (hid.trans heq.symm ▸ ho)
  cases hwaiting

theorem removeCaller (id : Nat) : (s.removeCaller id).requests.Valid := by
  have hmem : ∀ caller ∈ (s.removeCaller id).callers, caller ∈ s.callers := fun caller hc => mem_of_mem_filter hc
  refine ⟨fun a ha b hb => h.distinct a (hmem a ha) b (hmem b hb), fun caller hc => h.below caller (hmem caller hc),
    fun caller hc hp => h.waiting caller (hmem caller hc) (mem_of_mem_filter hp), fun hw => ?_,
    fun caller hc => h.known caller (hmem caller hc)⟩
  refine eq_nil_iff_forall_not_mem.2 fun caller hc => ?_
  have hnone : s.callers = [] := h.locked hw
  rw [hnone] at hmem
  exact absurd (hmem caller hc) not_mem_nil

end

theorem step {s t : Host} (h : s.requests.Valid) (htaken : Taken s a t) : t.requests.Valid := by
  cases htaken with
  | beginRequest method hwriter => exact h.beginRequest method hwriter
  | record hcaller => exact h.recordTurn hcaller
  | finish => exact h.removeCaller _
  | response => exact h.deliver _ _
  | @notification _ message _ =>
    cases message with
    | turnStarted => exact h.frame rfl (fun _ hp => hp) rfl h.locked fun _ ht => mem_append_left _ ht
    | turnCompleted | serverRequest | serverRequestResolved | other => exact h
  | respond =>
    unfold respond
    split <;> exact h
  | drain => exact h.frame rfl nofun rfl h.locked fun _ ht => ht
  | lock _ _ hcallers => exact h.frame rfl (fun _ hp => hp) rfl (fun _ => hcallers) fun _ ht => ht
  | refuse | spawnFails | unlock => exact h.frame rfl (fun _ hp => hp) rfl (fun hw => absurd rfl hw) fun _ ht => ht
  | approve hwriter | bump hwriter | rename hwriter | spawn hwriter =>
    have hcallers : s.callers = [] := h.locked (by rw [show s.requests.writer = _ from hwriter]; exact nofun)
    exact h.frame rfl (fun _ hp => hp) rfl (fun _ => hcallers) fun _ ht => ht
  | clear hwriter | shutdown hwriter =>
    have hcallers : s.callers = [] := h.locked (by rw [show s.requests.writer = _ from hwriter]; exact nofun)
    unfold shutdownUnlocked
    split
    · exact h.frame rfl (fun _ hp => hp) rfl (fun _ => hcallers) fun _ ht => ht
    · exact h.frame rfl nofun rfl (fun _ => hcallers) fun _ ht => ht
  | _ => exact h

end Requests.Valid

/-! ## Readers -/

structure Readings where
  readers : Nat → ReaderState
  announced : List Turn
  completed : List Turn

def Host.readings (s : Host) : Readings := ⟨s.readers, s.history.announced, s.history.completed⟩

/-- Readers have lines of their own processes, and a completion is dispatched after it was read. -/
structure Readings.Valid (v : Readings) : Prop where
  starting : ∀ process turn, v.readers process = .checked (.notification (.turnStarted turn)) →
    turn.process = process ∧ turn ∉ v.announced
  completing : ∀ process turn, v.readers process = .checked (.notification (.turnCompleted turn)) → turn ∈ v.announced
  answering : ∀ process id turn, v.readers process = .checked (.response id (some turn)) → turn.process = process
  completed : ∀ turn ∈ v.completed, turn ∈ v.announced

namespace Readings.Valid

theorem setReader {v : Readings} (h : v.Valid) (process : Nat) {state : ReaderState} (hstate : ∀ line, state ≠ .checked line) :
    Readings.Valid { v with readers := fun other => if other = process then state else v.readers other } := by
  have hold : ∀ other line, (if other = process then state else v.readers other) = .checked line → v.readers other = .checked line := by
    intro other line hline
    by_cases heq : other = process
    · rw [if_pos heq] at hline
      exact absurd hline (hstate line)
    · exact (if_neg heq).symm.trans hline
  exact ⟨fun other turn hline => h.starting other turn (hold other _ hline),
    fun other turn hline => h.completing other turn (hold other _ hline),
    fun other id turn hline => h.answering other id turn (hold other _ hline), h.completed⟩

theorem of_mem_completions (h : turn ∈ completions line) : line = .notification (.turnCompleted turn) := by
  unfold completions at h
  split at h
  · rw [mem_singleton.1 h]
  · exact absurd h not_mem_nil

theorem readLine (h : s.readings.Valid) (hemits : s.emits process line) :
    (s.readLine process line).readings.Valid := by
  -- a reader that holds a line is another one, or has just read it
  have hread : ∀ other held, (s.readLine process line).readers other = .checked held →
      (other ≠ process ∧ s.readers other = .checked held) ∨ (other = process ∧ held = line) := by
    intro other held hheld
    by_cases heq : other = process
    · refine .inr ⟨heq, ?_⟩
      have hstate : (if s.processGeneration = process then afterCheck line else .finished) = .checked held :=
        (if_pos heq).symm.trans hheld
      split at hstate
      · cases line <;> cases hstate <;> rfl
      · cases hstate
    · exact .inl ⟨heq, (if_neg heq).symm.trans hheld⟩
  have hcompletion : ∀ turn ∈ completions line, turn.process = process := by
    intro turn hturn
    rw [of_mem_completions hturn] at hemits
    exact of_decide_eq_true (Bool.and_eq_true_iff.1 hemits).1
  refine ⟨?_, ?_, ?_, fun turn ht => mem_append_left _ (h.completed turn ht)⟩
  · intro other turn hheld
    rcases hread other _ hheld with ⟨hne, hold⟩ | ⟨rfl, rfl⟩
    · obtain ⟨hprocess, hnew⟩ := h.starting other turn hold
      refine ⟨hprocess, fun hmem => ?_⟩
      rcases mem_append.1 hmem with hmem | hmem
      · exact hnew hmem
      · exact hne (hprocess.symm.trans (hcompletion turn hmem))
    · obtain ⟨hprocess, hnew⟩ := Bool.and_eq_true_iff.1 hemits
      refine ⟨of_decide_eq_true hprocess, fun hmem => ?_⟩
      rcases mem_append.1 hmem with hmem | hmem
      · exact of_decide_eq_true hnew hmem
      · exact absurd hmem not_mem_nil
  · intro other turn hheld
    rcases hread other _ hheld with ⟨-, hold⟩ | ⟨rfl, rfl⟩
    · exact mem_append_left _ (h.completing other turn hold)
    · exact mem_append_right _ (mem_singleton_self turn)
  · intro other id turn hheld
    rcases hread other _ hheld with ⟨-, hold⟩ | ⟨rfl, rfl⟩
    · exact h.answering other id turn hold
    · exact of_decide_eq_true hemits

theorem step {s t : Host} (h : s.readings.Valid) (htaken : Taken s a t) : t.readings.Valid := by
  cases htaken with
  | respond =>
    unfold respond
    split <;> exact h
  | readLine _ hemits => exact h.readLine hemits
  | @readEnd process _ =>
    refine h.setReader process ?_
    split <;> exact nofun
  | @response process =>
    unfold Host.deliver
    split <;> exact h.setReader process nofun
  | @notification process message hreader =>
    cases message with
    | turnCompleted turn =>
      have hdone : Readings.Valid { s.readings with completed := s.history.completed ++ [turn] } := by
        refine ⟨h.starting, h.completing, h.answering, fun other ho => ?_⟩
        rcases mem_append.1 ho with ho | ho
        · exact h.completed other ho
        · rw [mem_singleton.1 ho]
          exact h.completing process turn hreader
      exact hdone.setReader process nofun
    | turnStarted | serverRequest | serverRequestResolved | other => exact h.setReader process nofun
  | @recheck process =>
    refine h.setReader process ?_
    split <;> exact nofun
  | @publish process | @drain process | @close process => exact h.setReader process nofun
  | spawn => exact h.setReader s.processGeneration nofun
  | clear | shutdown =>
    unfold shutdownUnlocked
    split <;> exact h
  | _ => exact h

end Readings.Valid

/-! ## Processes -/

def Host.TurnsOld (s : Host) : Prop := ∀ turn ∈ s.history.acknowledged, s.Old turn.process

theorem acknowledged_step (hreadings : s.readings.Valid) (htaken : Taken s a t)
    (h : turn ∈ t.history.acknowledged) : turn ∈ s.history.acknowledged ∨ s.Started turn.process := by
  cases htaken with
  | respond =>
    unfold respond at h
    split at h <;> exact .inl h
  | @response process id answer hreader =>
    unfold Host.deliver at h
    split at h
    · rcases mem_append.1 h with h | h
      · exact .inl h
      · obtain ⟨rfl, -⟩ := of_mem_acknowledges h
        rw [hreadings.answering process id turn hreader]
        exact .inr (started_of_reader hreader nofun)
    · exact .inl h
  | @notification process message hreader =>
    cases message with
    | turnStarted started =>
      rcases mem_append.1 h with h | h
      · exact .inl h
      · rw [mem_singleton.1 h, (hreadings.starting process started hreader).1]
        exact .inr (started_of_reader hreader nofun)
    | turnCompleted | serverRequest | serverRequestResolved | other => exact .inl h
  | clear | shutdown =>
    unfold shutdownUnlocked at h
    split at h <;> exact .inl h
  | _ => exact .inl h

theorem Host.TurnsOld.step (h : s.TurnsOld) (haged : s.Aged) (hreadings : s.readings.Valid)
    (htaken : Taken s a t) : t.TurnsOld := by
  intro turn hturn
  rcases acknowledged_step hreadings htaken hturn with hold | hstarted
  · exact (h turn hold).step htaken
  · exact (haged turn.process hstarted).step htaken

/-- No process is live once the host has stopped, nor before a restart has started the next. -/
def Host.Halted (s : Host) : Prop :=
  (s.stopped = true → s.history.live = none) ∧ (s.writer = some .cleared ∨ s.writer = some .renamed → s.history.live = none)

theorem live_shutdownUnlocked (h : s.Halted) : s.shutdownUnlocked.history.live = none := by
  unfold shutdownUnlocked
  split
  · next hstopped => exact h.1 hstopped
  · rfl

theorem live_close (h : s.history.live = none ∨ s.history.live = some process) :
    (s.close process).history.live = none := by
  show (if s.history.live = some process then none else s.history.live) = none
  split
  · rfl
  · next hne => exact h.resolve_right hne

theorem Host.Halted.step (h : s.Halted) (htaken : Taken s a t) : t.Halted := by
  cases htaken with
  | respond =>
    unfold respond
    split <;> exact h
  | response =>
    unfold Host.deliver
    split <;> exact h
  | @notification _ message _ => cases message <;> exact h
  | close => exact ⟨fun hs => live_close (.inl (h.1 hs)), fun hw => live_close (.inl (h.2 hw))⟩
  | clear | shutdown => exact ⟨fun _ => live_shutdownUnlocked h, fun _ => live_shutdownUnlocked h⟩
  | rename hwriter => exact ⟨h.1, fun _ => h.2 (.inl hwriter)⟩
  | spawn =>
    refine ⟨nofun, ?_⟩
    rintro (hw | hw) <;> cases hw
  | lock | refuse | approve | bump | spawnFails | unlock =>
    refine ⟨h.1, ?_⟩
    rintro (hw | hw) <;> cases hw
  | _ => exact h

/-- **What holds in every run**, in whatever order its steps are taken. -/
structure Sound (s : Host) : Prop where
  aged : s.Aged
  requests : s.requests.Valid
  readings : s.readings.Valid
  turnsOld : s.TurnsOld
  halted : s.Halted

theorem Sound.step (h : Sound s) (htaken : Taken s a t) : Sound t :=
  ⟨h.aged.step htaken, h.requests.step htaken, h.readings.step htaken, h.turnsOld.step h.aged h.readings htaken,
    h.halted.step htaken⟩

theorem sound_start : Sound start := by
  have hreader : ∀ process line, start.readers process ≠ .checked line := by
    intro process line hline
    have hstate : (if process = 1 then ReaderState.idle else .absent) = .checked line := hline
    split at hstate <;> cases hstate
  refine ⟨aged_start, ⟨nofun, nofun, nofun, fun _ => rfl, nofun⟩, ⟨?_, ?_, ?_, nofun⟩, nofun, ⟨nofun, ?_⟩⟩
  · exact fun process _ hline => absurd hline (hreader process _)
  · exact fun process _ hline => absurd hline (hreader process _)
  · exact fun process _ _ hline => absurd hline (hreader process _)
  · rintro (hw | hw) <;> cases hw

end Owc.ProfileHost
