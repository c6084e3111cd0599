import OpenWebCodex.ProfileHost
/-!
# ProfileHostEvents — which process an event comes from

An event carries the instance of the process that emitted it as long as no restart changes the instance between a reader's
generation check and its reading of the instance.  An answer then reaches the process that asked.
-/
namespace Owc.ProfileHost

open Transition Host

structure Stamps where
  generation : Nat
  instanceId : Nat
  fresh : Nat
  stdin : Nat
  writer : Option WriterState
  readers : Nat → ReaderState
  instanceOf : Nat → Nat
  events : List Event
  answers : List Answer

def Host.stamps (s : Host) : Stamps :=
  ⟨s.processGeneration, s.runtimeInstanceId, s.freshInstanceId, s.stdin, s.writer, s.readers, s.history.instanceOf,
    s.history.events, s.history.answers⟩

namespace Stamps

def Started (v : Stamps) (process : Nat) : Prop := v.readers process ≠ .absent

def Stamping (v : Stamps) (process : Nat) : Prop := ∃ message, v.readers process = .stamping message

instance (v : Stamps) (process : Nat) : Decidable (v.Stamping process) :=
  match h : v.readers process with
  | .stamping message => isTrue ⟨message, h⟩
  | .absent | .idle | .checked _ | .updated _ | .closing | .drained | .finished =>
    isFalse fun ⟨_, hs⟩ => ReaderState.noConfusion (h.symm.trans hs)

end Stamps

/-- **What holds at all times.** -/
structure Stamped (v : Stamps) : Prop where
  /-- A reader about to stamp an event would give it the right instance. -/
  stamping : ∀ process, v.Stamping process → v.instanceOf process = v.instanceId
  /-- So would the reader of the current generation. -/
  current : v.Started v.generation → v.instanceOf v.generation = v.instanceId
  /-- Instances are used once. -/
  fresh : v.instanceId < v.fresh ∧ ∀ process, v.Started process → v.instanceOf process < v.fresh
  injective : ∀ a b, v.Started a → v.Started b → v.instanceOf a = v.instanceOf b → a = b
  /-- What is written goes to the process of the instance. -/
  stdin : ∀ process, v.Started process → v.instanceOf process = v.instanceId → process = v.stdin
  renamed : v.writer = some .renamed → (∀ process, v.Started process → v.instanceOf process ≠ v.instanceId) ∧
    ∀ answer ∈ v.answers, answer.instanceId ≠ v.instanceId
  events : ∀ event ∈ v.events, v.Started event.process ∧ event.instanceId = v.instanceOf event.process
  answers : ∀ answer ∈ v.answers, answer.instanceId < v.fresh ∧
    ∀ process, v.Started process → v.instanceOf process = answer.instanceId → process = answer.process

theorem stamped_start : Stamped start.stamps := by
  have hone : ∀ process, start.stamps.Started process → process = 1 := by
    intro process hstarted
    by_contra hne
    exact hstarted (if_neg hne)
  exact ⟨fun _ _ => rfl, fun _ => rfl, ⟨Nat.one_pos, fun _ _ => Nat.one_pos⟩,
    fun a b ha hb _ => (hone a ha).trans (hone b hb).symm, fun process hstarted _ => hone process hstarted, nofun, nofun, nofun⟩

/-- **A reader moves on:** it stays started, and where it comes to stamp it has the current instance. -/
theorem Stamped.setReader (h : Stamped v) (hbefore : v.Started process)
    (hafter : state ≠ .absent) (hstamp : ∀ message, state = .stamping message → v.instanceOf process = v.instanceId) :
    Stamped { v with readers := fun other => if other = process then state else v.readers other } := by
  have hstarted : ∀ other, (if other = process then state else v.readers other) ≠ .absent ↔ v.Started other := by
    intro other
    split
    · next heq =>
      rw [heq]
      exact ⟨fun _ => hbefore, fun _ => hafter⟩
    · exact Iff.rfl
  refine ⟨?_, fun hs => h.current ((hstarted _).1 hs), ⟨h.fresh.1, fun other hs => h.fresh.2 other ((hstarted _).1 hs)⟩,
    fun a b ha hb => h.injective a b ((hstarted _).1 ha) ((hstarted _).1 hb),
    fun other hs => h.stdin other ((hstarted _).1 hs),
    fun hw => ⟨fun other hs => (h.renamed hw).1 other ((hstarted _).1 hs), (h.renamed hw).2⟩,
    fun event hevent => ⟨(hstarted _).2 (h.events event hevent).1, (h.events event hevent).2⟩,
    fun answer hanswer => ⟨(h.answers answer hanswer).1, fun other hs => (h.answers answer hanswer).2 other ((hstarted _).1 hs)⟩⟩
  rintro other ⟨message, hmessage⟩
  dsimp only at hmessage
  split at hmessage
  · next heq =>
    rw [heq]
    exact hstamp message hmessage
  · exact h.stamping other ⟨message, hmessage⟩

theorem Stamped.setWriter {v} (h : Stamped v) {writer} (hrenamed : writer ≠ some .renamed) :
    Stamped { v with writer := writer } :=
  ⟨h.stamping, h.current, h.fresh, h.injective, h.stdin, fun hw => absurd hw hrenamed, h.events, h.answers⟩

/-- **No restart changes the instance while a reader is about to stamp an event.** -/
def Unhurried (s : Host) : Step → Prop
  | .rename => ∀ process ≤ s.processGeneration, ¬s.stamps.Stamping process
  | _ => True

instance (s : Host) : (a : Step) → Decidable (Unhurried s a)
  | .rename => inferInstanceAs (Decidable (∀ process ≤ s.processGeneration, ¬s.stamps.Stamping process))
  | .beginRequest _ | .record _ | .finish _ | .respond _ _ | .readLine _ _ | .readEnd _ | .dispatch _ | .recheck _ | .publish _
  | .drain _ | .close _ | .lock _ | .refuse | .approve | .bump | .clear | .spawn | .spawnFails | .unlock => isTrue trivial

variable {s : Host}

theorem Stamped.readLine (h : Stamped s.stamps) (hidle : s.readers process = .idle) (line : Line) :
    Stamped (s.readLine process line).stamps := by
  have hstarted := started_of_reader hidle nofun
  refine h.setReader hstarted ?_ fun message hmessage => ?_
  · split
    · cases line <;> exact nofun
    · exact nofun
  · split at hmessage
    · next hgeneration =>
      have hcurrent := h.current
      rw [show s.stamps.generation = process from hgeneration] at hcurrent
      exact hcurrent hstarted
    · cases hmessage

theorem stamps_deliver (s : Host) (id : Nat) (turn : Option Turn) : (s.deliver id turn).stamps = s.stamps := by
  unfold deliver
  split <;> rfl

theorem stamps_updateRuntimeWork (s : Host) (message : Notification) : (s.updateRuntimeWork message).stamps = s.stamps := by
  cases message <;> rfl

theorem stamps_shutdownUnlocked (s : Host) : s.shutdownUnlocked.stamps = s.stamps := by
  unfold shutdownUnlocked
  split <;> rfl

section

variable (h : Stamped s.stamps)
include h

theorem Stamped.recheck (hupdated : s.readers process = .updated message) :
    Stamped (s.setReader process (if s.processGeneration = process then .stamping (some message) else .idle)).stamps := by
  have hstarted := started_of_reader hupdated nofun
  refine h.setReader hstarted ?_ fun other hother => ?_
  · split <;> exact nofun
  · split at hother
    · next hgeneration =>
      have hcurrent := h.current
      rw [show s.stamps.generation = process from hgeneration] at hcurrent
      exact hcurrent hstarted
    · cases hother

theorem Stamped.publish (hstamping : s.readers process = .stamping message) :
    Stamped ((s.addEvent ⟨s.runtimeInstanceId, process, message⟩).setReader process .idle).stamps := by
  have hstarted := started_of_reader hstamping nofun
  have hsent : Stamped (s.addEvent ⟨s.runtimeInstanceId, process, message⟩).stamps := by
    refine ⟨h.stamping, h.current, h.fresh, h.injective, h.stdin, h.renamed, ?_, h.answers⟩
    intro event hevent
    rcases List.mem_append.1 hevent with hold | hnew
    · exact h.events event hold
    · rw [List.mem_singleton.1 hnew]
      exact ⟨hstarted, (h.stamping process ⟨message, hstamping⟩).symm⟩
  exact hsent.setReader hstarted nofun nofun

theorem Stamped.respond (hwriter : s.writer = none) (instanceId requestId : Nat) :
    Stamped (s.respond instanceId requestId).stamps := by
  unfold Host.respond
  split
  · next hinstance =>
    refine ⟨h.stamping, h.current, h.fresh, h.injective, h.stdin, fun hw => ?_, h.events, ?_⟩
    · exact absurd (hwriter.symm.trans hw) nofun
    · intro answer hanswer
      rcases List.mem_append.1 hanswer with hold | hnew
      · exact h.answers answer hold
      · rw [List.mem_singleton.1 hnew, ← hinstance]
        exact ⟨h.fresh.1, h.stdin⟩
  · exact h

theorem Stamped.bump (haged : s.Aged) :
    Stamped { s.stamps with generation := s.processGeneration + 1, writer := some .bumped } :=
  ⟨h.stamping, fun hs => absurd hs haged.not_started_next, h.fresh, h.injective, h.stdin, nofun, h.events, h.answers⟩

theorem Stamped.rename (haged : s.Aged) (hwriter : s.writer = some .cleared)
    (hunhurried : ∀ process ≤ s.processGeneration, ¬s.stamps.Stamping process) :
    Stamped { s.stamps with instanceId := s.freshInstanceId, fresh := s.freshInstanceId + 1, writer := some .renamed } := by
  have hprocess : ∀ process, s.stamps.Started process → s.stamps.instanceOf process ≠ s.freshInstanceId := fun process hs =>
    Nat.ne_of_lt (h.fresh.2 process hs)
  have hnone : ∀ process, ¬s.stamps.Stamping process := by
    rintro process ⟨message, hreader⟩
    exact hunhurried process (haged process (started_of_reader hreader nofun)).1 ⟨message, hreader⟩
  exact ⟨fun process hs => absurd hs (hnone process), fun hs => absurd hs (haged.not_started (.inr (.inl hwriter))),
    ⟨Nat.lt_succ_self _, fun process hs => Nat.lt_succ_of_lt (h.fresh.2 process hs)⟩, h.injective,
    fun process hs heq => absurd heq (hprocess process hs),
    fun _ => ⟨hprocess, fun answer hanswer => Nat.ne_of_lt (h.answers answer hanswer).1⟩, h.events,
    fun answer hanswer => ⟨Nat.lt_succ_of_lt (h.answers answer hanswer).1, (h.answers answer hanswer).2⟩⟩

theorem Stamped.spawn (haged : s.Aged) (hwriter : s.writer = some .renamed) : Stamped s.spawn.stamps := by
  have habsent := haged.not_started (.inr (.inr hwriter))
  obtain ⟨hother, hanswers⟩ := h.renamed hwriter
  have hstarted : ∀ process, process ≠ s.processGeneration → (s.spawn.stamps.Started process ↔ s.stamps.Started process) := by
    intro process hne
    show (if process = s.processGeneration then ReaderState.idle else s.readers process) ≠ _ ↔ _
    rw [if_neg hne]
    exact Iff.rfl
  have hnew : s.spawn.stamps.instanceOf s.processGeneration = s.runtimeInstanceId := if_pos rfl
  have hold : ∀ process, process ≠ s.processGeneration → s.spawn.stamps.instanceOf process = s.stamps.instanceOf process :=
    fun process hne => if_neg hne
  -- the new process has the current instance; an older one has another
  have hcurrent : ∀ process, s.spawn.stamps.Started process → s.spawn.stamps.instanceOf process = s.runtimeInstanceId →
      process = s.processGeneration := by
    intro process hs heq
    by_contra hne
    rw [hold process hne] at heq
    exact hother process ((hstarted process hne).1 hs) heq
  refine ⟨?_, fun _ => hnew, ⟨h.fresh.1, ?_⟩, ?_, hcurrent, nofun, ?_, ?_⟩
  · rintro process ⟨message, hmessage⟩
    by_cases hne : process = s.processGeneration
    · rw [hne]
      exact hnew
    · rw [hold process hne]
      exact h.stamping process ⟨message, (if_neg hne).symm.trans hmessage⟩
  · intro process hs
    by_cases hne : process = s.processGeneration
    · rw [hne, hnew]
      exact h.fresh.1
    · rw [hold process hne]
      exact h.fresh.2 process ((hstarted process hne).1 hs)
  · intro a b ha hb heq
    by_cases hna : a = s.processGeneration
    · rw [hna, hnew] at heq
      exact hna.trans (hcurrent b hb heq.symm).symm
    by_cases hnb : b = s.processGeneration
    · rw [hnb, hnew] at heq
      exact (hcurrent a ha heq).trans hnb.symm
    · rw [hold a hna, hold b hnb] at heq
      exact h.injective a b ((hstarted a hna).1 ha) ((hstarted b hnb).1 hb) heq
  · intro event hevent
    obtain ⟨hs, heq⟩ := h.events event hevent
    have hne : event.process ≠ s.processGeneration := by
      intro hgeneration
      rw [hgeneration] at hs
      exact habsent hs
    exact ⟨(hstarted _ hne).2 hs, heq.trans (hold _ hne).symm⟩
  · intro answer hanswer
    refine ⟨(h.answers answer hanswer).1, fun process hs heq => ?_⟩
    have hne : process ≠ s.processGeneration := by
      intro hgeneration
      rw [hgeneration, hnew] at heq
      exact hanswers answer hanswer heq.symm
    rw [hold process hne] at heq
    exact (h.answers answer hanswer).2 process ((hstarted process hne).1 hs) heq

end

/-- **Every step keeps it**, a rename where no reader is about to stamp. -/
theorem stamped_step {s t a} (haged : s.Aged) (hunhurried : Unhurried s a) (h : Stamped s.stamps)
    (htaken : Taken s a t) : Stamped t.stamps := by
  cases htaken with
  | respond instanceId requestId hwriter => exact h.respond hwriter instanceId requestId
  | @readLine _ line hidle => exact h.readLine hidle line
  | readEnd hidle =>
    refine h.setReader (started_of_reader hidle nofun) ?_ ?_
    · split <;> exact nofun
    · intro message hmessage
      split at hmessage <;> cases hmessage
  | response hreader =>
    have hstarted : s.stamps.Started _ := started_of_reader hreader nofun
    rw [← stamps_deliver] at h hstarted
    exact h.setReader hstarted nofun nofun
  | notification hreader =>
    have hstarted : s.stamps.Started _ := started_of_reader hreader nofun
    rw [← stamps_updateRuntimeWork] at h hstarted
    exact h.setReader hstarted nofun nofun
  | recheck hupdated => exact h.recheck hupdated
  | publish hstamping => exact h.publish hstamping
  | drain hreader | close hreader => exact h.setReader (started_of_reader hreader nofun) nofun nofun
  | lock | refuse | approve | spawnFails | unlock => exact h.setWriter nofun
  | bump => exact h.bump haged
  | clear | shutdown =>
    rw [← stamps_shutdownUnlocked] at h
    exact h.setWriter nofun
  | rename hcleared => exact h.rename haged hcleared hunhurried
  | spawn hrenamed => exact h.spawn haged hrenamed
  | _ => exact h

/-- **Events carry the instance of the process that emitted them, and an answer reaches the process that asked**, in every run of
requests, readers, restarts and shutdowns in which no restart changes the instance while a reader is about to stamp an event. -/
theorem events_stamped (steps : List Step) (s : Host) (hunhurried : Meets step Unhurried start steps)
    (hrun : run step start steps = some s) :
    (∀ event ∈ s.history.events, event.instanceId = s.history.instanceOf event.process) ∧
      ∀ answer ∈ s.history.answers, ∀ event ∈ s.history.events, event.instanceId = answer.instanceId →
        event.process = answer.process := by
  have hkeeps : ∀ s a t, s.Aged ∧ Stamped s.stamps → Unhurried s a → step s a = some t → t.Aged ∧ Stamped t.stamps :=
    fun _ _ _ h hmeets hstep =>
      ⟨h.1.step (taken_of_step hstep), stamped_step h.1 hmeets h.2 (taken_of_step hstep)⟩
  obtain ⟨-, h⟩ := run_invariant hkeeps ⟨aged_start, stamped_start⟩ hunhurried hrun
  refine ⟨fun event hevent => (h.events event hevent).2, fun answer hanswer event hevent heq => ?_⟩
  obtain ⟨hstarted, hinstance⟩ := h.events event hevent
  exact (h.answers answer hanswer).2 event.process hstarted (hinstance.symm.trans heq)

def askedTwice : List Step :=
  [.readLine 1 (.notification (.serverRequest 5)), .dispatch 1, .recheck 1, .publish 1, .respond 0 5,
    .readLine 1 (.notification (.serverRequestResolved 5)), .dispatch 1, .recheck 1, .publish 1,
    .lock true, .approve, .bump, .clear, .rename, .spawn, .unlock,
    .readLine 2 (.notification (.serverRequest 5)), .dispatch 2, .recheck 2, .publish 2, .respond 0 5, .respond 1 5]

def afterAskedTwice : Host := (run step start askedTwice).getD start

theorem asked_twice_answered : afterAskedTwice.history.answers = [⟨0, 5, 1⟩, ⟨1, 5, 2⟩] ∧
      afterAskedTwice.history.events.map (fun event => (event.instanceId, event.process)) = [(0, 1), (0, 1), (1, 2)] ∧
      (∀ event ∈ afterAskedTwice.history.events, event.instanceId = afterAskedTwice.history.instanceOf event.process) ∧
      ∀ answer ∈ afterAskedTwice.history.answers, ∀ event ∈ afterAskedTwice.history.events,
        event.instanceId = answer.instanceId → event.process = answer.process :=
  ⟨by decide, by decide, events_stamped askedTwice afterAskedTwice (meets_of_decide (by decide)) rfl⟩

/-- **A restart between the check and the stamp gives an old event the new instance**: a decision made for the first process is
written to the second. -/
theorem stale_event_restamped : ∃ s, run step start
      [.lock true, .approve, .readLine 1 (.notification (.serverRequest 5)), .dispatch 1, .recheck 1, .bump, .clear, .rename,
        .spawn, .publish 1, .unlock, .respond 1 5] = some s ∧
    s.history.events = [⟨1, 1, some (.serverRequest 5)⟩] ∧ s.history.instanceOf 1 = 0 ∧ s.history.answers = [⟨1, 5, 2⟩] :=
  ⟨_, rfl, by decide, by decide, by decide⟩

end Owc.ProfileHost
