import OpenWebCodex.RolloutWriter
/-!
# RolloutWriterRun — what the file holds after a barrier

As long as no failing write leaves the whole text of its line, the records of the file are at all times those the writer has done
with, in order and numbered from zero, and the rest is queued.  A barrier that succeeds leaves nothing queued.
-/
namespace Owc.RolloutWriter

open List Option Session
open Jsonl

def ordinalAt (mode : ThreadHistoryMode) (place : Nat) : Option Nat :=
  match mode with
  | .legacy => none
  | .paginated => some place

def stateAfter (mode : ThreadHistoryMode) (count : Nat) : RolloutOrdinalState :=
  match mode with
  | .legacy => .legacy
  | .paginated => .paginated (if count < 2 ^ 64 then some count else none)

def Numbered {Item : Type} (mode : ThreadHistoryMode) (lines : List (RolloutLine Item)) : Prop :=
  lines.map (·.ordinal) = (List.range lines.length).map (ordinalAt mode)

theorem Numbered.append {Item : Type} {mode lines} (h : Numbered mode lines)
    (item : Item) : Numbered mode (lines ++ [⟨ordinalAt mode lines.length, item⟩]) := by
  unfold Numbered at h ⊢
  rw [map_append, h, length_append, length_singleton, range_succ, map_append]
  rfl

theorem current_stateAfter {mode count ordinal} (h : (stateAfter mode count).current = .ok ordinal) :
    ordinal = ordinalAt mode count ∧ (stateAfter mode count).advance = stateAfter mode (count + 1) := by
  cases mode with
  | legacy =>
    cases h
    exact ⟨rfl, rfl⟩
  | paginated =>
    unfold stateAfter at h ⊢
    by_cases hcount : count < 2 ^ 64
    · simp only [if_pos hcount] at h ⊢
      cases h
      exact ⟨rfl, rfl⟩
    · simp only [if_neg hcount] at h
      cases h

section Writer

variable {Byte Item : Type} [DecidableEq Byte] (format : Format Byte (RolloutLine Item)) (mode : ThreadHistoryMode)

def written (s : Session Byte Item) : List Item := (parsed format s.content).map (·.item)

/-- The records are numbered from zero, and the next ordinal is theirs. -/
structure Ordered (s : Session Byte Item) : Prop where
  numbered : Numbered mode (parsed format s.content)
  ordinalState : s.state.ordinalState = stateAfter mode (parsed format s.content).length

/-- **What holds at all times:** what is written and what is queued are together what is expected, and nothing is written while
the file is deferred. -/
structure Kept (expected : List Item) (s : Session Byte Item) : Prop where
  ordered : Ordered format mode s
  items : written format s ++ (s.state.sessionMeta.toList ++ s.state.pendingItems) = expected
  opened : s.state.writerOpen = true → s.state.deferred = false
  unwritten : s.state.deferred = true → written format s = []

/-- Between calls the file of an open writer ends with a newline. -/
structure Good (expected : List Item) (s : Session Byte Item) : Prop extends Kept format mode expected s where
  terminated : s.state.writerOpen = true → Terminated format.newline s.content

/-- How a step ends: what is expected is kept, and where it succeeds the file is ready for the next. -/
structure Ends (expected : List Item) (post : Session Byte Item → Prop) (r : Except IoError Unit × Session Byte Item) : Prop where
  kept : Kept format mode expected r.2
  succeeds : r.1 = .ok () → Good format mode expected r.2 ∧ post r.2

variable {format mode} {expected : List Item} {outcomes : Nat → Outcome}

theorem Ends.andThen {post next : Session Byte Item → Prop}
    (h : Ends format mode expected post first) {step : Session Byte Item → Except IoError Unit × Session Byte Item}
    (hstep : ∀ s, Good format mode expected s → post s → Ends format mode expected next (step s)) :
    Ends format mode expected next (andThen first step) := by
  obtain ⟨result, s⟩ := first
  cases result with
  | error => exact ⟨h.kept, nofun⟩
  | ok =>
    obtain ⟨hgood, hpost⟩ := h.succeeds rfl
    exact hstep s hgood hpost

variable {s : Session Byte Item}

theorem Kept.enterRecoveryMode (h : Kept format mode expected s) : Good format mode expected s.enterRecoveryMode :=
  ⟨⟨⟨h.ordered.numbered, h.ordered.ordinalState⟩, h.items, nofun, h.unwritten⟩, nofun⟩

/-! ## One call -/

theorem Kept.congr (h : Kept format mode expected s)
    (hparsed : parsed format t.content = parsed format s.content) (hstate : t.state = s.state) :
    Kept format mode expected t := by
  obtain ⟨⟨_, _⟩, _, _, _⟩ := h
  refine ⟨⟨?_, ?_⟩, ?_, ?_, ?_⟩
  · rwa [hparsed]
  · rwa [hstate, hparsed]
  · unfold written
    rwa [hstate, hparsed]
  · rwa [hstate]
  · unfold written
    rwa [hstate, hparsed]

theorem ensureWriterOpen_ends (h : Good format mode expected s) :
    Ends format mode expected (fun t => t.state.writerOpen) (s.ensureWriterOpen format outcomes) := by
  unfold ensureWriterOpen
  split
  · next hopen => exact ⟨h.toKept, fun _ => ⟨h, hopen⟩⟩
  have hparsed := parsed_terminate format s.content
  have hended : Kept format mode expected { s.ticked with file := some (terminate format.newline s.content) } :=
    h.toKept.congr hparsed rfl
  unfold openLogFile
  cases outcomes s.tick with
  | ok =>
    have hready : Kept format mode expected { s.ticked with
        file := some (terminate format.newline s.content)
        state := { s.state with writerOpen := true, deferred := false } } :=
      ⟨⟨hended.ordered.numbered, hended.ordered.ordinalState⟩, hended.items, fun _ => rfl, nofun⟩
    exact ⟨hready, fun _ => ⟨⟨hready, fun _ => terminated_terminate _ _⟩, rfl⟩⟩
  | torn kept =>
    cases kept with
    | zero => exact ⟨h.toKept.congr rfl rfl, nofun⟩
    | succ => exact ⟨hended, nofun⟩
  | whole => exact ⟨hended, nofun⟩

/-- No failing write leaves the whole text of its line. -/
def NoWholeLine (outcomes : Nat → Outcome) : Prop := ∀ tick newline, outcomes tick ≠ .whole newline

theorem encode_length_pos (format : Format Byte (RolloutLine Item)) (line : RolloutLine Item) :
    0 < (format.encode line).length := by
  rw [length_pos_iff]
  intro hnil
  have hdecode := format.decode_encode line
  rw [hnil, format.decode_nil] at hdecode
  cases hdecode

theorem writeRolloutItem_cases (hno : NoWholeLine outcomes)
    (hterminated : Terminated format.newline s.content) (item : Item) (ordinal : Option Nat) :
    ∃ t, t.state = s.state ∧
      (s.writeRolloutItem format outcomes item ordinal = (.ok (), t) ∧ Terminated format.newline t.content ∧
          parsed format t.content = parsed format s.content ++ [⟨ordinal, item⟩] ∨
        s.writeRolloutItem format outcomes item ordinal = (.error .io, t) ∧
          parsed format t.content = parsed format s.content) := by
  unfold writeRolloutItem
  cases houtcome : outcomes s.tick with
  | ok =>
    have hparsed := hterminated.parsed_append format (format.encode ⟨ordinal, item⟩ ++ [format.newline])
    rw [parsed_line] at hparsed
    exact ⟨{ s.ticked with file := some (s.content ++ (format.encode ⟨ordinal, item⟩ ++ [format.newline])) }, rfl,
      .inl ⟨rfl, terminated_append_line format _ _, hparsed⟩⟩
  | torn kept =>
    have hpos := encode_length_pos format ⟨ordinal, item⟩
    have hparsed := hterminated.parsed_append format
      ((format.encode ⟨ordinal, item⟩).take (min kept ((format.encode ⟨ordinal, item⟩).length - 1)))
    rw [parsed_torn format _ (by omega), append_nil] at hparsed
    exact ⟨{ s.ticked with file := some (s.content ++
      (format.encode ⟨ordinal, item⟩).take (min kept ((format.encode ⟨ordinal, item⟩).length - 1))) }, rfl,
      .inr ⟨rfl, hparsed⟩⟩
  | whole => exact absurd houtcome (hno _ _)

theorem writeNext_spec (hno : NoWholeLine outcomes) (hordered : Ordered format mode s)
    (hterminated : Terminated format.newline s.content) (item : Item) :
    let r := s.writeNext format outcomes item
    Ordered format mode r.2 ∧ r.2.state = { s.state with ordinalState := r.2.state.ordinalState } ∧
      (r.1 = .ok () ∧ Terminated format.newline r.2.content ∧ written format r.2 = written format s ++ [item] ∨
        r.1 ≠ .ok () ∧ written format r.2 = written format s) := by
  unfold writeNext written
  cases hcurrent : s.state.ordinalState.current with
  | error => exact ⟨hordered, rfl, .inr ⟨nofun, rfl⟩⟩
  | ok =>
    rw [hordered.ordinalState] at hcurrent
    obtain ⟨rfl, hadvance⟩ := current_stateAfter hcurrent
    obtain ⟨t, hstate, ⟨hwrite, hended, hparsed⟩ | ⟨hwrite, hparsed⟩⟩ := writeRolloutItem_cases hno hterminated item
      (ordinalAt mode (parsed format s.content).length)
    · dsimp only
      rw [hwrite]
      refine ⟨⟨?_, ?_⟩, by dsimp only; rw [hstate], .inl ⟨rfl, hended, ?_⟩⟩
      · exact hparsed ▸ hordered.numbered.append item
      · dsimp only [content] at hparsed ⊢
        rw [hstate, hordered.ordinalState, hparsed, length_append]
        exact hadvance
      · exact (congrArg (map (·.item)) hparsed).trans map_append
    · dsimp only
      rw [hwrite]
      refine ⟨⟨hparsed ▸ hordered.numbered, ?_⟩, hstate.trans (by rw [hstate]), .inr ⟨nofun, ?_⟩⟩
      · rw [hstate, hparsed]
        exact hordered.ordinalState
      · exact congrArg (map (·.item)) hparsed

/-- **The loop writes the front of the queue,** all of it where it succeeds. -/
theorem writeLoop_spec (hno : NoWholeLine outcomes) (items : List Item)
    (hordered : Ordered format mode s) (hterminated : Terminated format.newline s.content) :
    let r := writeLoop format outcomes items s
    Ordered format mode r.2.2 ∧ r.2.2.state = { s.state with ordinalState := r.2.2.state.ordinalState } ∧
      written format r.2.2 = written format s ++ items.take r.2.1 ∧
      (r.1 = .ok () → r.2.1 = items.length ∧ Terminated format.newline r.2.2.content) := by
  induction items generalizing s with
  | nil => exact ⟨hordered, rfl, (append_nil _).symm, fun _ => ⟨rfl, hterminated⟩⟩
  | cons item items ih =>
    have hspec := writeNext_spec hno hordered hterminated item
    rw [writeLoop]
    generalize s.writeNext format outcomes item = r at hspec
    obtain ⟨result, t⟩ := r
    obtain ⟨hordered', hstate, ⟨hok, hterminated', hwritten⟩ | ⟨hfail, hwritten⟩⟩ := hspec
    · cases hok
      obtain ⟨hlast, hlastState, hlastWritten, hlastOk⟩ := ih hordered' hterminated'
      refine ⟨hlast, ?_, ?_, fun hdone => ?_⟩
      · rw [hlastState, hstate]
      · rw [hlastWritten, hwritten, append_assoc, take_succ_cons]
        rfl
      · obtain ⟨hcount, hend⟩ := hlastOk hdone
        exact ⟨congrArg (· + 1) hcount, hend⟩
    · cases result with
      | ok => exact absurd rfl hfail
      | error => exact ⟨hordered', hstate, hwritten.trans (append_nil _).symm, nofun⟩

/-! ## One round -/

theorem Kept.after_write (h : Kept format mode expected s) (hopen : s.state.writerOpen)
    (hordered : Ordered format mode t) (hstate : t.state = { s.state with ordinalState := t.state.ordinalState })
    (sessionMeta : Option Item) (pending : List Item) (hitems : written format t ++ (sessionMeta.toList ++ pending) = expected) :
    Kept format mode expected { t with state := { t.state with sessionMeta := sessionMeta, pendingItems := pending } } := by
  have hdeferred : t.state.deferred = false := by
    rw [hstate]
    exact h.opened hopen
  refine ⟨⟨hordered.numbered, hordered.ordinalState⟩, hitems, fun _ => hdeferred, fun h => ?_⟩
  exact absurd (hdeferred.symm.trans h) Bool.false_ne_true

section

variable (hno : NoWholeLine outcomes) (h : Good format mode expected s) (hopen : s.state.writerOpen = true)
include hno h hopen

theorem writeSessionMetaIfNeeded_ends : Ends format mode expected (fun t => t.state.writerOpen ∧ t.state.sessionMeta = none)
      (s.writeSessionMetaIfNeeded format outcomes) := by
  unfold writeSessionMetaIfNeeded
  cases hmeta : s.state.sessionMeta with
  | none => exact ⟨h.toKept, fun _ => ⟨h, hopen, hmeta⟩⟩
  | some sessionMeta =>
    have hspec := writeNext_spec hno h.ordered (h.terminated hopen) sessionMeta
    have hitems := h.items
    rw [hmeta] at hitems
    dsimp only
    generalize s.writeNext format outcomes sessionMeta = r at hspec
    obtain ⟨result, t⟩ := r
    obtain ⟨hordered, hstate, ⟨hok, hterminated, hwritten⟩ | ⟨hfail, hwritten⟩⟩ := hspec
    · cases hok
      have hkept := h.toKept.after_write hopen hordered hstate none t.state.pendingItems (by
        rw [hwritten, hstate, append_assoc]
        exact hitems)
      refine ⟨hkept, fun _ => ⟨⟨hkept, fun _ => hterminated⟩, ?_, rfl⟩⟩
      dsimp only at hstate ⊢
      rw [hstate]
      exact hopen
    · cases result with
      | ok => exact absurd rfl hfail
      | error =>
        refine ⟨h.toKept.after_write hopen hordered hstate t.state.sessionMeta t.state.pendingItems ?_, nofun⟩
        rw [hwritten, hstate, hmeta]
        exact hitems

theorem writePendingItemsOnce_ends (hmeta : s.state.sessionMeta = none) :
    Ends format mode expected (fun t => t.state.sessionMeta = none ∧ t.state.pendingItems = [])
      (s.writePendingItemsOnce format outcomes) := by
  unfold writePendingItemsOnce
  rw [if_neg (by rw [hopen]; exact Bool.false_ne_true)]
  have hspec := writeLoop_spec hno s.state.pendingItems h.ordered (h.terminated hopen)
  generalize writeLoop format outcomes s.state.pendingItems s = r at hspec
  obtain ⟨_, count, t⟩ := r
  obtain ⟨hordered, hstate, hwritten, hdone⟩ := hspec
  dsimp only at hordered hstate hwritten hdone ⊢
  have hpending : t.state.pendingItems = s.state.pendingItems := by rw [hstate]
  have hkept := h.toKept.after_write hopen hordered hstate t.state.sessionMeta (t.state.pendingItems.drop count) (by
    have hitems := h.items
    rw [hmeta] at hitems
    rw [hwritten, hpending, hstate, hmeta, append_assoc]
    refine Eq.trans (congrArg (written format s ++ ·) ?_) hitems
    exact take_append_drop count s.state.pendingItems)
  refine ⟨hkept, fun hok => ?_⟩
  obtain ⟨hcount, hterminated⟩ := hdone hok
  refine ⟨⟨hkept, fun _ => hterminated⟩, ?_, ?_⟩
  · rw [hstate]
    exact hmeta
  · dsimp only
    rw [hpending, hcount, drop_length]

end

theorem flushFile_ends (h : Good format mode expected s) {post : Session Byte Item → Prop}
    (hpost : post s.ticked) : Ends format mode expected post (s.flushFile outcomes) := by
  have hgood : Good format mode expected s.ticked := ⟨h.toKept.congr rfl rfl, h.terminated⟩
  unfold flushFile
  cases outcomes s.tick with
  | ok => exact ⟨hgood.toKept, fun _ => ⟨hgood, hpost⟩⟩
  | _ => exact ⟨hgood.toKept, nofun⟩

def Drained (s : Session Byte Item) : Prop := s.state.sessionMeta = none ∧ s.state.pendingItems = []

theorem writePendingOnce_ends (hno : NoWholeLine outcomes) (h : Good format mode expected s) :
    Ends format mode expected Drained (s.writePendingOnce format outcomes) := by
  refine (((ensureWriterOpen_ends h).andThen fun t ht hopen => writeSessionMetaIfNeeded_ends hno ht hopen).andThen
    fun t ht hopen => writePendingItemsOnce_ends hno ht hopen.1 hopen.2).andThen fun t ht hdrained => ?_
  exact flushFile_ends ht hdrained

/-- **A round with its retry leaves a good file,** and nothing queued where it succeeds. -/
theorem writePendingWithRecovery_ends (hno : NoWholeLine outcomes) (h : Good format mode expected s) :
    Good format mode expected (s.writePendingWithRecovery format outcomes).2 ∧
      ((s.writePendingWithRecovery format outcomes).1 = .ok () → Drained (s.writePendingWithRecovery format outcomes).2) := by
  unfold writePendingWithRecovery
  have hfirst := writePendingOnce_ends hno h
  generalize s.writePendingOnce format outcomes = r at hfirst
  obtain ⟨result, t⟩ := r
  cases result with
  | ok => exact ⟨(hfirst.succeeds rfl).1, fun _ => (hfirst.succeeds rfl).2⟩
  | error e =>
    have hsecond := writePendingOnce_ends hno hfirst.kept.enterRecoveryMode
    dsimp only at hsecond ⊢
    generalize t.enterRecoveryMode.writePendingOnce format outcomes = r at hsecond
    obtain ⟨result, u⟩ := r
    cases result with
    | ok => exact ⟨(hsecond.succeeds rfl).1, fun _ => (hsecond.succeeds rfl).2⟩
    | error => exact ⟨hsecond.kept.enterRecoveryMode, nofun⟩

/-! ## Commands -/

theorem Good.addItems (h : Good format mode expected s) (items : List Item) :
    Good format mode (expected ++ items) (s.addItems items) := by
  refine ⟨⟨⟨h.ordered.numbered, h.ordered.ordinalState⟩, ?_, h.opened, h.unwritten⟩, h.terminated⟩
  rw [← h.items]
  simp only [Session.addItems, written, Session.content, append_assoc]

/-- Nothing is queued, or the file is still deferred and nothing was recorded. -/
def Settled (s : Session Byte Item) : Prop := Drained s ∨ s.state.deferred = true ∧ s.state.pendingItems = []

section

variable (hno : NoWholeLine outcomes) (h : Good format mode expected s)
include hno h

/-- A flush leaves a good file; where it succeeds nothing is queued, or nothing was recorded yet. -/
theorem flush_ends : Good format mode expected (s.flush format outcomes).2 ∧
      ((s.flush format outcomes).1 = .ok () → Settled (s.flush format outcomes).2) := by
  unfold flush
  split
  · next hdeferred =>
    rw [Bool.and_eq_true, isDeferred, Bool.and_eq_true, List.isEmpty_iff] at hdeferred
    exact ⟨h, fun _ => .inr ⟨hdeferred.1.2, hdeferred.2⟩⟩
  · obtain ⟨hgood, hdrained⟩ := writePendingWithRecovery_ends hno h
    exact ⟨hgood, fun hok => .inl (hdrained hok)⟩

theorem flushIfMaterialized_good : Good format mode expected (s.flushIfMaterialized format outcomes) := by
  unfold flushIfMaterialized
  split
  · exact h
  have hflush := (flush_ends hno h).1
  generalize s.flush format outcomes = r at hflush
  obtain ⟨result, t⟩ := r
  cases result with
  | ok => exact hflush
  | error => exact hflush.toKept.enterRecoveryMode

/-- **One command:** the file stays good, and a barrier that succeeds leaves nothing queued, or nothing was recorded yet. -/
theorem handle_ends (cmd : RolloutCmd Item) : Good format mode (expected ++ cmd.items) (handle format outcomes cmd s).2 ∧
      ((handle format outcomes cmd s).1 = some (.ok ()) → Settled (handle format outcomes cmd s).2) := by
  cases cmd with
  | addItems items => exact ⟨flushIfMaterialized_good hno (h.addItems items), nofun⟩
  | persist =>
    obtain ⟨hgood, hdrained⟩ := writePendingWithRecovery_ends hno h
    rw [RolloutCmd.items, append_nil]
    exact ⟨hgood, fun hok => .inl (hdrained (some.inj hok))⟩
  | flush | shutdown =>
    -- a shutdown does what a flush does
    obtain ⟨hgood, hdrained⟩ := flush_ends hno h
    rw [RolloutCmd.items, append_nil]
    exact ⟨hgood, fun hok => hdrained (some.inj hok)⟩

end

/-- **A run:** the file stays good, and where the last command it came to was a barrier that succeeded, it is settled. -/
theorem rolloutWriter_ends (hno : NoWholeLine outcomes) (cmds : List (RolloutCmd Item)) (h : Good format mode expected s) :
    Good format mode (expected ++ recorded (rolloutWriter format outcomes cmds s).1) (rolloutWriter format outcomes cmds s).2 ∧
      ∀ cmd, (rolloutWriter format outcomes cmds s).1.getLast? = some (cmd, some (.ok ())) →
        Settled (rolloutWriter format outcomes cmds s).2 := by
  induction cmds generalizing s expected with
  | nil =>
    rw [rolloutWriter, recorded, flatMap_nil, append_nil]
    exact ⟨h, nofun⟩
  | cons cmd cmds ih =>
    obtain ⟨hgood, hbarrier⟩ := handle_ends hno h cmd
    obtain ⟨hrest, hlast⟩ := ih hgood
    rw [rolloutWriter]
    rw [recorded, flatMap_cons, ← append_assoc]
    split
    · rw [flatMap_nil, append_nil]
      refine ⟨hgood, fun last htold => hbarrier ?_⟩
      exact congrArg Prod.snd (some.inj htold)
    · refine ⟨hrest, fun last htold => ?_⟩
      cases cmds with
      | nil => exact hbarrier (congrArg Prod.snd (some.inj htold))
      | cons => exact hlast last htold

/-- What the projection makes of the records: the ordinal it waits for next, unless one is not the ordinal it waits for. -/
def projectOrdinals : Nat → List (RolloutLine Item) → Option Nat
  | next, [] => some next
  | next, line :: lines => if line.ordinal = some next then projectOrdinals (next + 1) lines else none

theorem projectOrdinals_append (lines : List (RolloutLine Item)) (line : RolloutLine Item) (next : Nat) :
    projectOrdinals next (lines ++ [line]) = (projectOrdinals next lines).bind (projectOrdinals · [line]) := by
  induction lines generalizing next with
  | nil => rfl
  | cons first lines ih =>
    rw [cons_append, projectOrdinals, projectOrdinals]
    split
    · exact ih (next + 1)
    · rfl

theorem Numbered.projectOrdinals {lines : List (RolloutLine Item)} (h : Numbered .paginated lines) :
    RolloutWriter.projectOrdinals 0 lines = some lines.length := by
  induction lines using reverseRecOn with
  | nil => rfl
  | append_singleton lines line ih =>
    unfold Numbered at h ih
    rw [map_append, length_append, length_singleton, range_succ, map_append] at h
    obtain ⟨hfront, hline⟩ := append_inj' h rfl
    have hordinal : line.ordinal = some lines.length := cons.inj hline |>.1
    rw [projectOrdinals_append, ih hfront, length_append]
    exact if_pos hordinal

end Writer

section Barrier

variable {Byte Item : Type} [DecidableEq Byte]

theorem newSession_good (format : Format Byte (RolloutLine Item)) (mode : ThreadHistoryMode) (sessionMeta : Item) :
    Good format mode [sessionMeta] (newSession mode sessionMeta) := by
  have hparsed : parsed format (newSession mode sessionMeta : Session Byte Item).content = [] := parsed_nil format
  refine ⟨⟨⟨?_, ?_⟩, ?_, nofun, fun _ => ?_⟩, nofun⟩
  · rw [hparsed]
    rfl
  · rw [hparsed]
    cases mode <;> rfl
  · unfold written
    rw [hparsed]
    rfl
  · unfold written
    rw [hparsed]
    rfl

/-- **After a barrier that succeeds the records of the file are the session meta and the recorded items,** each once, in order,
numbered from zero where the history is paginated, so that the projection takes them all; a file that is still deferred holds
nothing, and nothing was recorded. -/
theorem rollout_barrier (format : Format Byte (RolloutLine Item)) (mode : ThreadHistoryMode) (outcomes : Nat → Outcome)
    (hno : NoWholeLine outcomes) (sessionMeta : Item) (cmds : List (RolloutCmd Item)) (cmd : RolloutCmd Item)
    (hbarrier : (rolloutWriter format outcomes cmds (newSession mode sessionMeta)).1.getLast? = some (cmd, some (.ok ()))) :
    let run := rolloutWriter format outcomes cmds (newSession mode sessionMeta)
    let lines := parsed format run.2.content
    run.2.state.deferred = true ∧ lines = [] ∧ recorded run.1 = [] ∨
      lines.map (·.item) = sessionMeta :: recorded run.1 ∧ lines.map (·.ordinal) = (range lines.length).map (ordinalAt mode) ∧
        (mode = .paginated → projectOrdinals 0 lines = some lines.length) := by
  obtain ⟨hgood, hsettled⟩ := rolloutWriter_ends hno cmds (newSession_good format mode sessionMeta)
  have hitems := hgood.items
  rcases hsettled cmd hbarrier with ⟨hmeta, hpending⟩ | ⟨hdeferred, hpending⟩
  · right
    rw [hmeta, hpending, toList_none, nil_append, append_nil] at hitems
    refine ⟨hitems, hgood.ordered.numbered, ?_⟩
    rintro rfl
    exact hgood.ordered.numbered.projectOrdinals
  · left
    have hnone := hgood.unwritten hdeferred
    rw [hnone, hpending, append_nil, nil_append, singleton_append] at hitems
    refine ⟨hdeferred, map_eq_nil_iff.1 hnone, ?_⟩
    cases hmeta : (rolloutWriter format outcomes cmds (newSession mode sessionMeta)).2.state.sessionMeta with
    | none =>
      rw [hmeta] at hitems
      cases hitems
    | some =>
      rw [hmeta] at hitems
      exact ((cons.inj hitems).2).symm

/-- **At any moment the file holds a beginning of what was recorded,** each item once, in order and numbered, whichever writes
failed. -/
theorem rollout_in_order (format : Format Byte (RolloutLine Item)) (mode : ThreadHistoryMode) (outcomes : Nat → Outcome)
    (hno : NoWholeLine outcomes) (sessionMeta : Item) (cmds : List (RolloutCmd Item)) :
    let run := rolloutWriter format outcomes cmds (newSession mode sessionMeta)
    let lines := parsed format run.2.content
    lines.map (·.item) <+: sessionMeta :: recorded run.1 ∧ lines.map (·.ordinal) = (range lines.length).map (ordinalAt mode) := by
  obtain ⟨hgood, -⟩ := rolloutWriter_ends hno cmds (newSession_good format mode sessionMeta)
  exact ⟨⟨_, hgood.items⟩, hgood.ordered.numbered⟩

end Barrier

/-! ## A line in braces -/

def braceInner (line : RolloutLine Nat) : List Char :=
  List.replicate (match line.ordinal with
    | none => 0
    | some ordinal => ordinal + 1) 'o' ++ List.replicate line.item 'i'

def braceDecode : List Char → Option (RolloutLine Nat)
  | '\x7b' :: text =>
    let ordinal := (text.takeWhile (· = 'o')).length
    let rest := text.dropWhile (· = 'o')
    if rest.dropWhile (· = 'i') = ['\x7d'] then
      some ⟨if ordinal = 0 then none else some (ordinal - 1), (rest.takeWhile (· = 'i')).length⟩
    else none
  | _ => none

theorem brace_not_mem_inner (line : RolloutLine Nat) (ho : c ≠ 'o') (hi : c ≠ 'i') : c ∉ braceInner line := by
  intro hmem
  rcases mem_append.1 hmem with h | h
  · exact ho (eq_of_mem_replicate h)
  · exact hi (eq_of_mem_replicate h)

theorem braceDecode_encode (line : RolloutLine Nat) : braceDecode ('\x7b' :: (braceInner line ++ ['\x7d'])) = some line := by
  obtain ⟨ordinal, item⟩ := line
  cases ordinal <;> cases item <;> simp [braceDecode, braceInner, replicate_succ]

theorem brace_mem_of_decode (h : braceDecode text = some line) : '\x7d' ∈ text := by
  unfold braceDecode at h
  split at h
  · next rest =>
    dsimp only at h
    split at h
    · next hlast =>
      have hmem : '\x7d' ∈ (rest.dropWhile (· = 'o')).dropWhile (· = 'i') := by
        rw [hlast]
        exact mem_singleton_self _
      exact mem_cons_of_mem _ ((dropWhile_suffix _).subset ((dropWhile_suffix _).subset hmem))
    · cases h
  · cases h

def braceFormat : Format Char (RolloutLine Nat) where
  newline := '\n'
  encode line := '\x7b' :: (braceInner line ++ ['\x7d'])
  decode := braceDecode
  newline_not_mem line := by
    simp [brace_not_mem_inner]
  decode_encode := braceDecode_encode
  decode_take line n hn := by
    rw [← cons_append, length_append, length_singleton] at hn
    rw [← cons_append, take_append_of_le_length (by omega), Option.eq_none_iff_forall_ne_some]
    intro other hdecode
    have hmem := mem_of_mem_take (brace_mem_of_decode hdecode)
    rw [mem_cons] at hmem
    exact hmem.elim (by decide) (brace_not_mem_inner line (by decide) (by decide))
  decode_nil := rfl

def recordOne : List (RolloutCmd Nat) := [.addItems [7], .persist]

theorem recorded_one_written : (rolloutWriter braceFormat (fun _ => .ok) recordOne (newSession .paginated 1)).1.getLast? =
      some (.persist, some (.ok ())) ∧
    (parsed braceFormat (rolloutWriter braceFormat (fun _ => .ok) recordOne (newSession .paginated 1)).2.content).map (·.item) =
      [1, 7] :=
  ⟨rfl, ((rollout_barrier braceFormat .paginated (fun _ => .ok) nofun 1 recordOne .persist rfl).resolve_left
    (fun h => nomatch h.1)).1⟩

theorem rollout_in_order_torn : (parsed braceFormat
    (rolloutWriter braceFormat (fun _ => .torn 1) recordOne (newSession .paginated 1)).2.content).map (·.item) <+: [1, 7] :=
  (rollout_in_order braceFormat .paginated (fun _ => .torn 1) nofun 1 recordOne).1

def failsLate (tick : Nat) : Outcome := if tick = 2 then .whole false else .ok

/-- **An item is written twice, with one ordinal, and the projection stops there:** the failed write had left the whole text of
its line, the reopened file ends that line, and the retry writes it again; the barrier succeeds. -/
theorem item_written_twice :
    (rolloutWriter braceFormat failsLate recordOne (newSession .paginated 1)).1.getLast? = some (.persist, some (.ok ())) ∧
    parsed braceFormat (rolloutWriter braceFormat failsLate recordOne (newSession .paginated 1)).2.content =
      [⟨some 0, 1⟩, ⟨some 1, 7⟩, ⟨some 1, 7⟩] ∧
    projectOrdinals 0 [⟨some 0, 1⟩, ⟨some 1, 7⟩, (⟨some 1, 7⟩ : RolloutLine Nat)] = none :=
  ⟨rfl, by decide, rfl⟩

end Owc.RolloutWriter
