import OpenWebCodex.RolloutScan
/-!
# RolloutTurns — rollouts made of well-formed turns

A turn starts, records context, at most one instruction and what the model answers, may be compacted at any point, and
ends.  The reverse scan finalizes one segment a turn; where it finds the newest surviving compaction, or where there is no
compaction at all, the rebuilt history is the forward replay of the whole rollout.
-/
namespace Owc.Rollout

open List Option
open History

/-! ## Items inside a turn -/

/-- An event inside the turn `id`: it neither starts nor ends a turn, rolls nothing back, and reviews nothing elsewhere. -/
def EventMsg.belongs (id : Str) : EventMsg → Bool
  | .turnStarted _ _ => false
  | .turnComplete _ _ _ => false
  | .turnAborted _ _ _ => false
  | .threadRolledBack _ => false
  | .enteredReviewMode turnId _ _ => turnId.all (· == id)
  | .exitedReviewMode turnId _ _ => turnId.all (· == id)
  | .itemStarted turnId item => !item.isReviewMode || turnId == id
  | .itemCompleted turnId item => !item.isReviewMode || turnId == id
  | _ => true

/-- An item inside the turn `id`; a compaction carries its replacement history. -/
def belongs (id : Str) : RolloutItem → Bool
  | .compacted compacted => compacted.replacementHistory.isSome
  | .turnContext ctx => ctx.turnId.all (· == id)
  | .eventMsg event => event.belongs id
  | _ => true

def RolloutItem.recorded : RolloutItem → Option ResponseItem
  | .responseItem item => some item
  | .interAgentCommunication c => some c.toModelInputItem
  | _ => none

def RolloutItem.replacement : RolloutItem → Option (List ResponseItem)
  | .compacted c => c.replacementHistory
  | _ => none

def RolloutItem.isUserMessage : RolloutItem → Bool
  | .eventMsg (.userMessage _ _) => true
  | _ => false

def instructs (env : Env) (item : RolloutItem) : Bool := item.recorded.any (isUserTurnBoundary env)

def counts (env : Env) (item : RolloutItem) : Bool := instructs env item || item.isUserMessage

def newestReplacement : List RolloutItem → Option (List ResponseItem × List RolloutItem)
  | [] => none
  | item :: rest => (newestReplacement rest).or (item.replacement.map (·, rest))

/-! ## Turns -/

/-- How a turn ends; an abort may not name the turn. -/
inductive Ending
  | complete (completedAt durationMs : Option Int)
  | aborted (named : Bool) (completedAt durationMs : Option Int)

def Ending.item (id : Str) : Ending → RolloutItem
  | .complete completedAt durationMs => .eventMsg (.turnComplete id completedAt durationMs)
  | .aborted named completedAt durationMs =>
    .eventMsg (.turnAborted (if named then some id else none) completedAt durationMs)

/-- **A well-formed turn**: context before its instruction, no second instruction behind it, and no user message without
an instruction. -/
structure Turn (env : Env) where
  id : Str
  startedAt : Option Int
  before : List RolloutItem
  instruction : Option RolloutItem
  after : List RolloutItem
  ending : Ending
  belongs_of_mem : ∀ item ∈ before ++ instruction.toList ++ after, belongs id item = true
  contextual_before : ∀ item ∈ before, item.recorded.all (isContextual env) = true
  instructs_instruction : ∀ item ∈ instruction.toList, instructs env item = true
  silent_after : ∀ item ∈ after, instructs env item = false
  no_userMessage : instruction = none → ∀ item ∈ before ++ after, item.isUserMessage = false

namespace Turn

variable {env : Env}

def body (t : Turn env) : List RolloutItem := t.before ++ t.instruction.toList ++ t.after

def items (t : Turn env) : List RolloutItem :=
  .eventMsg (.turnStarted t.id t.startedAt) :: (t.body ++ [t.ending.item t.id])

def instructionItem (t : Turn env) : Option ResponseItem := (t.instruction.bind (·.recorded)).map (processItem env)

def isUser (t : Turn env) : Bool := t.instruction.isSome

end Turn

/-- A rollout is a list of turns and rollback markers, with metadata and other events between them. -/
inductive Entry (env : Env)
  | turn (t : Turn env)
  | rollback (numTurns : Nat)
  | sessionMeta (contextWindow : Option Str)
  | other

namespace Entry

variable {env : Env}

def items : Entry env → List RolloutItem
  | .turn t => t.items
  | .rollback numTurns => [.eventMsg (.threadRolledBack numTurns)]
  | .sessionMeta contextWindow => [.sessionMeta contextWindow]
  | .other => [.eventMsg .other]

def compacts (e : Entry env) : Bool := (newestReplacement e.items).isSome

/-- What is left of the rollbacks owed by the newer entries, behind this one. -/
def pay : Entry env → Nat → Nat
  | .turn t, pending => if t.isUser then pending - 1 else pending
  | .rollback numTurns, pending => pending + numTurns
  | _, pending => pending

end Entry

def rolloutItems {env : Env} (entries : List (Entry env)) : List RolloutItem := entries.flatMap Entry.items

/-- The user turns still to be rolled back when all the entries are scanned, newest first. -/
def pendingBehind {env : Env} (entries : List (Entry env)) (pending : Nat) : Nat := entries.foldr Entry.pay pending

def keepsCompaction {env : Env} : List (Entry env) → Nat → Bool
  | [], _ => false
  | e :: entries, pending => keepsCompaction entries pending || (e.compacts && pendingBehind entries pending == 0)

/-! ## Replay -/

section

variable {Snapshot : Type} {env : ReplayEnv Snapshot}

theorem replay_append (history : List ResponseItem) (items rest : List RolloutItem) :
    replay env history (items ++ rest) = replay env (replay env history items) rest := foldl_append

theorem replay_cons (history : List ResponseItem) (item : RolloutItem) (rest : List RolloutItem) :
    replay env history (item :: rest) = replay env (replayItem env history item) rest := rfl

theorem newestReplacement_cons (item : RolloutItem) (rest : List RolloutItem) :
    newestReplacement (item :: rest) = (newestReplacement rest).or (item.replacement.map (·, rest)) := rfl

theorem replay_of_newestReplacement
    (h : newestReplacement items = some (base, rest)) (history : List ResponseItem) :
    replay env history items = replay env base rest := by
  induction items generalizing history with
  | nil => cases h
  | cons item items ih =>
    rw [newestReplacement_cons] at h
    rw [replay_cons]
    cases hn : newestReplacement items with
    | some =>
      rw [hn, some_or] at h
      exact ih (hn.trans h) _
    | none =>
      rw [hn, none_or, map_eq_some_iff] at h
      obtain ⟨_, hfound, hpair⟩ := h
      cases hpair
      cases item with
      | compacted compacted =>
        have : compacted.replacementHistory = some base := hfound
        simp only [replayItem, this, getD_some]
      | _ => cases hfound

/-! ## Scanning a turn -/

variable (env)

def scanBack : List RolloutItem → List RolloutItem → Scan → Scan
  | [], _, s => s
  | item :: rest, newer, s => scanItem env (rest ++ newer) (scanBack rest newer s) item

def Scan.found (s : Scan) : Option (List ResponseItem) × Option PreviousTurnSettings × TurnReferenceContextItem × Nat :=
  (s.baseReplacementHistory, s.previousTurnSettings, s.referenceContextItem, s.pendingRollbackTurns)

theorem known_eq_of_found {s s' : Scan} (h : s'.found = s.found) : s'.known = s.known := by
  simp only [Scan.found, Prod.mk.injEq] at h
  unfold Scan.known
  rw [h.1, h.2.1, h.2.2.1]

def insideTurn (id : Str) (item : RolloutItem) : Prop := belongs id item = true ∨ ∃ ending : Ending, item = ending.item id

/-- **What the scan holds inside a turn**, of the items of the turn it has seen. -/
structure InsideSegment (env : Env) (id : Str) (seen newer : List RolloutItem) (s s' : Scan) : Prop where
  found : s'.found = s.found
  turnId : s'.segment.turnId = none ∨ s'.segment.turnId = some id
  user : s'.segment.countsAsUserTurn = seen.any (counts env)
  base : s'.segment.baseReplacementHistory = (newestReplacement seen).map Prod.fst
  suffix : s'.rolloutSuffix = ((newestReplacement seen).map (fun found => found.2 ++ newer)).getD s.rolloutSuffix

theorem insideSegment_scanItem {id}
    (h : InsideSegment env.toEnv id seen newer s s') (hitem : insideTurn id item) :
    InsideSegment env.toEnv id (item :: seen) newer s (scanItem env (seen ++ newer) s' item) := by
  obtain ⟨hfound, hid, huser, hbase, hsuffix⟩ := h
  -- an item that is no compaction and does not count leaves what was seen
  have hsame : item.replacement = none → newestReplacement (item :: seen) = newestReplacement seen := by
    intro hr
    rw [newestReplacement_cons, hr, map_none, or_none]
  rcases hitem with hitem | ⟨ending, rfl⟩
  · cases item with
    | sessionMeta | interAgentCommunicationMetadata | worldState =>
      exact ⟨hfound, hid, huser, hsame rfl ▸ hbase, hsame rfl ▸ hsuffix⟩
    | responseItem item =>
      refine ⟨hfound, hid, ?_, hsame rfl ▸ hbase, hsame rfl ▸ hsuffix⟩
      have hcount : counts env.toEnv (.responseItem item) = isUserTurnBoundary env.toEnv item := by
        simp [counts, instructs, RolloutItem.recorded, RolloutItem.isUserMessage]
      rw [any_cons, hcount, ← huser, Bool.or_comm]
      rfl
    | interAgentCommunication => exact ⟨hfound, hid, rfl, hsame rfl ▸ hbase, hsame rfl ▸ hsuffix⟩
    | compacted compacted =>
      refine ⟨hfound, hid, huser, ?_, ?_⟩
      · show s'.segment.baseReplacementHistory.or compacted.replacementHistory = _
        rw [hbase, newestReplacement_cons]
        cases newestReplacement seen <;> cases hr : compacted.replacementHistory <;> simp [RolloutItem.replacement, hr]
      · obtain ⟨_, hr⟩ := isSome_iff_exists.1 (show compacted.replacementHistory.isSome from hitem)
        show (if s'.segment.baseReplacementHistory.isNone && compacted.replacementHistory.isSome then seen ++ newer
            else s'.rolloutSuffix) = _
        rw [hbase, hsuffix, newestReplacement_cons]
        cases newestReplacement seen <;> simp [RolloutItem.replacement, hr]
    | turnContext ctx =>
      have hctx : ctx.turnId = none ∨ ctx.turnId = some id := by
        cases hc : ctx.turnId with
        | none => exact .inl rfl
        | some => simpa [belongs, hc] using hitem
      have hfields : (segmentTurnContext ctx s'.segment).turnId = s'.segment.turnId.or ctx.turnId ∧
          (segmentTurnContext ctx s'.segment).countsAsUserTurn = s'.segment.countsAsUserTurn ∧
          (segmentTurnContext ctx s'.segment).baseReplacementHistory = s'.segment.baseReplacementHistory := by
        unfold segmentTurnContext
        dsimp only
        split <;> exact ⟨rfl, rfl, rfl⟩
      refine ⟨hfound, ?_, hfields.2.1.trans huser, hfields.2.2.trans (hsame rfl ▸ hbase), hsame rfl ▸ hsuffix⟩
      show (segmentTurnContext ctx s'.segment).turnId = none ∨ (segmentTurnContext ctx s'.segment).turnId = some id
      rw [hfields.1]
      rcases hid with hid | hid <;> rcases hctx with hctx | hctx <;> simp [hid, hctx]
    | eventMsg event =>
      cases event with
      | turnStarted | turnComplete | turnAborted | threadRolledBack => cases hitem
      | userMessage => exact ⟨hfound, hid, rfl, hsame rfl ▸ hbase, hsame rfl ▸ hsuffix⟩
      | _ => exact ⟨hfound, hid, huser, hsame rfl ▸ hbase, hsame rfl ▸ hsuffix⟩
  · cases ending with
    | complete =>
      refine ⟨hfound, ?_, huser, hsame rfl ▸ hbase, hsame rfl ▸ hsuffix⟩
      show s'.segment.turnId.or (some id) = none ∨ s'.segment.turnId.or (some id) = some id
      rcases hid with hid | hid <;> simp [hid]
    | aborted named =>
      simp only [Ending.item, scanItem]
      by_cases h : (s'.activeSegment.isSome || (if named then some id else none).isSome)
      · rw [if_pos h]
        refine ⟨hfound, ?_, huser, hsame rfl ▸ hbase, hsame rfl ▸ hsuffix⟩
        show s'.segment.turnId.or (if named then some id else none) = none ∨
          s'.segment.turnId.or (if named then some id else none) = some id
        rcases hid with hid | hid <;> cases named <;> simp [hid]
      · rw [if_neg h]
        exact ⟨hfound, hid, huser, hsame rfl ▸ hbase, hsame rfl ▸ hsuffix⟩

section

variable {id : Str} {items : List RolloutItem} {s : Scan} (h : ∀ item ∈ items, insideTurn id item)
include h

theorem insideSegment_scanBack (hs : s.activeSegment = none) :
    InsideSegment env.toEnv id items newer s (scanBack env items newer s) := by
  induction items with
  | nil =>
    have hseg : s.segment = {} := by rw [Scan.segment, hs, getD_none]
    refine ⟨rfl, .inl ?_, ?_, ?_, rfl⟩ <;> rw [scanBack, hseg] <;> rfl
  | cons item items ih =>
    exact insideSegment_scanItem env (ih fun i hi => h i (mem_cons_of_mem _ hi)) (h item (by simp))

theorem scanItems_inside (older newer : List RolloutItem) (hactive : s.activeSegment = none) (hs : s.known = false) :
    scanItems env (items.reverse ++ older) newer s = scanItems env older (items ++ newer) (scanBack env items newer s) := by
  induction items generalizing older with
  | nil => rfl
  | cons item items ih =>
    have hinside : InsideSegment _ _ _ newer s _ := insideSegment_scanBack env h hactive
    have hknown : (scanItem env (items ++ newer) (scanBack env items newer s) item).known = false :=
      (known_eq_of_found hinside.found).trans hs
    rw [reverse_cons, append_assoc, ih fun i hi => h i (mem_cons_of_mem _ hi), singleton_append]
    simp only [scanItems, hknown, Bool.false_eq_true, if_false]
    rfl

end

theorem Turn.inside (t : Turn env.toEnv) : ∀ item ∈ t.body ++ [t.ending.item t.id], insideTurn t.id item := by
  intro item hi
  rcases mem_append.1 hi with hi | hi
  · exact .inl (t.belongs_of_mem item hi)
  · exact .inr ⟨t.ending, mem_singleton.1 hi⟩

theorem Turn.silent_before {env} (t : Turn env) : ∀ item ∈ t.before, instructs env item = false := by
  intro item hi
  have hctx := t.contextual_before item hi
  unfold instructs
  cases hr : item.recorded with
  | none => rfl
  | some =>
    rw [hr, all_some] at hctx
    rw [any_some, boundary_of_not_context hctx]

theorem Turn.silent_of_not_user {env : Env} {t : Turn env} (h : t.isUser = false) :
    ∀ item ∈ t.body, instructs env item = false := by
  intro item hi
  rw [Turn.isUser, isSome_eq_false_iff, isNone_iff_eq_none] at h
  rw [Turn.body, h, toList_none, append_nil] at hi
  rcases mem_append.1 hi with hb | ha
  · exact t.silent_before item hb
  · exact t.silent_after item ha

theorem Turn.any_counts (t : Turn env.toEnv) : (t.body ++ [t.ending.item t.id]).any (counts env.toEnv) = t.isUser := by
  have hending : counts env.toEnv (t.ending.item t.id) = false := by cases t.ending <;> rfl
  rw [any_append, any_cons, any_nil, hending, Bool.or_false, Bool.or_false]
  cases hinst : t.instruction with
  | some item =>
    rw [Turn.isUser, hinst, isSome_some, List.any_eq_true]
    refine ⟨item, by simp [Turn.body, hinst], ?_⟩
    rw [counts, t.instructs_instruction item (by simp [hinst]), Bool.true_or]
  | none =>
    have hu : t.isUser = false := by rw [Turn.isUser, hinst, isSome_none]
    rw [hu, List.any_eq_false]
    intro item hi
    have hmem : item ∈ t.before ++ t.after := by simpa [Turn.body, hinst] using hi
    rw [counts, Turn.silent_of_not_user hu item hi, t.no_userMessage hinst item hmem]
    exact Bool.false_ne_true

/-- **What the scan of one entry does**, between turns. -/
structure EntryScanned {env : Env} (e : Entry env) (newer : List RolloutItem) (s s' : Scan) : Prop where
  active : s'.activeSegment = none
  pending : s'.pendingRollbackTurns = e.pay s.pendingRollbackTurns
  base : s'.baseReplacementHistory = s.baseReplacementHistory.or
    (if s.pendingRollbackTurns = 0 then (newestReplacement e.items).map Prod.fst else none)
  suffix : s'.rolloutSuffix = ((newestReplacement e.items).map (fun found => found.2 ++ newer)).getD s.rolloutSuffix

theorem Turn.newestReplacement_items {env} (t : Turn env) :
    newestReplacement (Entry.turn t).items = newestReplacement (t.body ++ [t.ending.item t.id]) := by
  show newestReplacement (_ :: _) = _
  rw [newestReplacement_cons]
  exact or_none

theorem entryScanned_turn (t : Turn env.toEnv) (newer : List RolloutItem) {s} (hs : s.activeSegment = none) :
    EntryScanned (.turn t) newer s (scanBack env t.items newer s) := by
  have hinside : InsideSegment _ _ _ newer s _ := insideSegment_scanBack env t.inside hs
  have hstart : scanBack env t.items newer s = scanItem env (t.body ++ [t.ending.item t.id] ++ newer)
      (scanBack env (t.body ++ [t.ending.item t.id]) newer s) (.eventMsg (.turnStarted t.id t.startedAt)) := rfl
  rw [hstart]
  generalize scanBack env (t.body ++ [t.ending.item t.id]) newer s = s' at hinside
  obtain ⟨hfound, hid, huser, hbase, hsuffix⟩ := hinside
  obtain ⟨hfoundBase, -, -, hfoundPending⟩ : _ ∧ _ ∧ _ ∧ _ := by simpa only [Scan.found, Prod.mk.injEq] using hfound
  rw [t.any_counts] at huser
  rw [← t.newestReplacement_items] at hbase hsuffix
  cases hactive : s'.activeSegment with
  | none =>
    -- a turn that left no trace
    have hseg : s'.segment = {} := by rw [Scan.segment, hactive, getD_none]
    rw [hseg] at huser hbase
    have hkeep : scanItem env (t.body ++ [t.ending.item t.id] ++ newer) s' (.eventMsg (.turnStarted t.id t.startedAt)) = s' := by
      simp only [scanItem, hactive]
    rw [hkeep]
    refine ⟨hactive, ?_, ?_, hsuffix⟩
    · rw [hfoundPending, Entry.pay, ← huser]
      rfl
    · rw [hfoundBase, ← hbase, ite_self, or_none]
  | some segment =>
    have hseg : s'.segment = segment := by rw [Scan.segment, hactive, getD_some]
    rw [hseg] at hid huser hbase
    have hcompatible : turnIdsAreCompatible segment.turnId (some t.id) := by
      rcases hid with hid | hid <;> simp [turnIdsAreCompatible, hid]
    have hfinal : scanItem env (t.body ++ [t.ending.item t.id] ++ newer) s' (.eventMsg (.turnStarted t.id t.startedAt)) =
        finalizeActiveSegment segment s' := by
      simp only [scanItem, hactive, hcompatible, if_true]
    rw [hfinal]
    unfold finalizeActiveSegment
    rw [hfoundPending, hfoundBase, huser, hbase]
    by_cases hpending : 0 < s.pendingRollbackTurns
    · have hne : s.pendingRollbackTurns ≠ 0 := by omega
      rw [if_pos hpending]
      refine ⟨rfl, rfl, ?_, hsuffix⟩
      rw [if_neg hne, or_none]
    · have hzero : s.pendingRollbackTurns = 0 := by omega
      rw [if_neg hpending]
      refine ⟨rfl, ?_, ?_, hsuffix⟩
      · show s.pendingRollbackTurns = _
        rw [hzero, Entry.pay, Nat.zero_sub, ite_self]
      · rw [if_pos hzero]

theorem entryScanned (e : Entry env.toEnv) (newer : List RolloutItem) (hs : s.activeSegment = none) :
    EntryScanned e newer s (scanBack env e.items newer s) := by
  cases e with
  | turn t => exact entryScanned_turn env t newer hs
  | _ => exact ⟨hs, rfl, by simp [Entry.items, newestReplacement, RolloutItem.replacement]; rfl, rfl⟩

theorem scanItems_entry (e : Entry env.toEnv) (older newer : List RolloutItem) (hactive : s.activeSegment = none)
    (hs : s.known = false) : scanItems env (e.items.reverse ++ older) newer s =
      if (scanBack env e.items newer s).known then scanBack env e.items newer s
      else scanItems env older (e.items ++ newer) (scanBack env e.items newer s) := by
  have hone : ∀ item rest s,
      scanItems env (item :: older) rest s = if (scanItem env rest s item).known then scanItem env rest s item
        else scanItems env older (item :: rest) (scanItem env rest s item) := fun _ _ _ => rfl
  cases e with
  | turn t =>
    show scanItems env ((_ :: (t.body ++ [t.ending.item t.id])).reverse ++ older) newer s = _
    rw [reverse_cons, append_assoc, scanItems_inside env t.inside _ newer hactive hs, singleton_append, hone]
    rfl
  | _ => exact hone _ newer s

/-! ## The rebuilt history -/

theorem rolloutItems_append {env} (entries rest : List (Entry env)) :
    rolloutItems (entries ++ rest) = rolloutItems entries ++ rolloutItems rest := flatMap_append

theorem rolloutItems_singleton {env} (e : Entry env) : rolloutItems [e] = e.items := flatMap_singleton _ _

section

variable {env : Env} (entries rest : List (Entry env)) (pending : Nat)

theorem pendingBehind_append :
    pendingBehind (entries ++ rest) pending = pendingBehind entries (pendingBehind rest pending) := foldr_append

theorem keepsCompaction_append : keepsCompaction (entries ++ rest) pending =
      (keepsCompaction entries (pendingBehind rest pending) || keepsCompaction rest pending) := by
  induction entries with
  | nil => rfl
  | cons e entries ih =>
    simp only [cons_append, keepsCompaction, ih, pendingBehind_append]
    cases keepsCompaction entries (pendingBehind rest pending) <;> cases keepsCompaction rest pending <;> simp

end

/-- The scan between two turns has found enough to rebuild the history. -/
def Rebuilds (history : List ResponseItem) (s : Scan) : Prop :=
  s.activeSegment = none ∧ replay env (s.baseReplacementHistory.getD []) s.rolloutSuffix = history

section

variable (entries : List (Entry env.toEnv)) (newer : List RolloutItem) (s : Scan)

/-- Behind the newest surviving compaction the older entries do not matter. -/
theorem rebuilds_of_base (hs : Rebuilds env history s) (hknown : s.known = false)
    (hbase : s.baseReplacementHistory = some base) (hnewer : ∀ h, replay env h newer = history) :
    Rebuilds env history (scanItems env (rolloutItems entries).reverse newer s) := by
  induction entries using reverseRecOn generalizing newer s with
  | nil => exact hs
  | append_singleton entries e ih =>
    rw [rolloutItems_append, rolloutItems_singleton, reverse_append, scanItems_entry env e _ newer hs.1 hknown]
    have he := entryScanned env e newer hs.1
    have hbase' : (scanBack env e.items newer s).baseReplacementHistory = some base := by rw [he.base, hbase, some_or]
    have hreplay := hs.2
    rw [hbase, getD_some] at hreplay
    have hs' : Rebuilds env history (scanBack env e.items newer s) := by
      refine ⟨he.active, ?_⟩
      rw [hbase', getD_some, he.suffix]
      cases newestReplacement e.items with
      | none => exact hreplay
      | some =>
        rw [map_some, getD_some, replay_append]
        exact hnewer _
    split
    · exact hs'
    rename_i hunknown
    refine ih _ _ hs' (by simpa using hunknown) hbase' (fun h => ?_)
    rw [replay_append]
    exact hnewer _

theorem rebuilds_scanItems (hactive : s.activeSegment = none) (hbase : s.baseReplacementHistory = none)
    (h : keepsCompaction entries s.pendingRollbackTurns ∨
      (∀ e ∈ entries, e.compacts = false) ∧ s.rolloutSuffix = rolloutItems entries ++ newer) :
    Rebuilds env (replay env [] (rolloutItems entries ++ newer)) (scanItems env (rolloutItems entries).reverse newer s) := by
  induction entries using List.reverseRecOn generalizing newer s with
  | nil =>
    rcases h with h | ⟨-, hsuffix⟩
    · cases h
    · exact ⟨hactive, by rw [rolloutItems, flatMap_nil, reverse_nil, scanItems, hbase, getD_none, hsuffix]; rfl⟩
  | append_singleton entries e ih =>
    have hunknown : s.known = false := by simp [Scan.known, hbase]
    rw [rolloutItems_append, rolloutItems_singleton, reverse_append, scanItems_entry env e _ newer hactive hunknown,
      append_assoc]
    have he := entryScanned env e newer hactive
    by_cases hhere : s.pendingRollbackTurns = 0 ∧ e.compacts
    · obtain ⟨⟨base, rest⟩, hfound⟩ := isSome_iff_exists.1 hhere.2
      have hnewer : ∀ h, replay env h (e.items ++ newer) = replay env base (rest ++ newer) := by
        intro h
        rw [replay_append, replay_append, replay_of_newestReplacement hfound]
      have hbase' : (scanBack env e.items newer s).baseReplacementHistory = some base := by
        rw [he.base, hbase, if_pos hhere.1, hfound]
        rfl
      have hs' : Rebuilds env (replay env base (rest ++ newer)) (scanBack env e.items newer s) := by
        refine ⟨he.active, ?_⟩
        rw [hbase', he.suffix, hfound]
        rfl
      rw [replay_append, hnewer]
      split
      · exact hs'
      · rename_i hunknown'
        exact rebuilds_of_base env entries _ _ hs' (by simpa using hunknown') hbase' hnewer
    · have hbase' : (scanBack env e.items newer s).baseReplacementHistory = none := by
        rw [he.base, hbase, none_or]
        split
        · next hzero =>
          rw [map_eq_none_iff, ← not_isSome_iff_eq_none]
          exact fun hc => hhere ⟨hzero, hc⟩
        · rfl
      have hunknown' : (scanBack env e.items newer s).known = false := by simp [Scan.known, hbase']
      rw [hunknown', if_neg Bool.false_ne_true]
      refine ih _ _ he.active hbase' (h.imp (fun hkeeps => ?_) fun ⟨hnone, hsuffix⟩ => ⟨fun e' he' => ?_, ?_⟩)
      · rw [keepsCompaction_append, Bool.or_eq_true] at hkeeps
        rw [he.pending]
        refine hkeeps.resolve_right fun hkeeps => hhere ?_
        simp only [keepsCompaction, pendingBehind, foldr_nil, Bool.false_or, Bool.and_eq_true, beq_iff_eq] at hkeeps
        exact hkeeps.symm
      · exact hnone e' (mem_append_left _ he')
      · have hnot := hnone e (by simp)
        rw [Entry.compacts, isSome_eq_false_iff, isNone_iff_eq_none] at hnot
        rw [he.suffix, hnot, map_none, getD_none, hsuffix, rolloutItems_append, rolloutItems_singleton, append_assoc]

end

/-- **The rebuilt history is the replay of the whole rollout**, where a compaction survives or there is none. -/
theorem reconstruct_eq_replay (entries : List (Entry env.toEnv))
    (h : keepsCompaction entries 0 ∨ ∀ e ∈ entries, e.compacts = false) :
    (reconstructHistoryFromRollout env (rolloutItems entries)).history = replay env [] (rolloutItems entries) := by
  have hr := rebuilds_scanItems env entries [] (.init (rolloutItems entries)) rfl rfl
    (h.imp_right fun hnone => ⟨hnone, (append_nil _).symm⟩)
  rw [append_nil] at hr
  show replay env ((reverseScan env (rolloutItems entries)).baseReplacementHistory.getD [])
    (reverseScan env (rolloutItems entries)).rolloutSuffix = _
  unfold reverseScan
  dsimp only
  rw [hr.1]
  exact hr.2

end

end Owc.Rollout
