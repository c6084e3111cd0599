import OpenWebCodex.RolloutTurns
/-!
# RolloutRollback — what a rollback marker takes out of the rebuilt history

A marker takes the newest surviving user turns, each with the turns of no instruction that follow it.  The history above
the oldest of them is followed by its depth, the instructions a rollback can still take; the entries alone say how the
depth moves.  No turn that a marker takes may hold a compaction newer than every surviving one: the scan would start the
replay there all the same.
-/
namespace Owc.Rollout

open List Option Entry Bool Nat
open History

section

variable {env : Env}

def Entry.isUser : Entry env → Bool
  | .turn t => t.isUser
  | _ => false

def Entry.isTurn : Entry env → Bool
  | .turn _ => true
  | _ => false

/-- The user turns that survive `pending` rollbacks and those of the markers. -/
def survivingUserTurns : List (Entry env) → Nat → Nat
  | [], _ => 0
  | e :: entries, pending =>
    survivingUserTurns entries pending + (if e.isUser && pendingBehind entries pending == 0 then 1 else 0)

/-- The entries without those surviving that `goes` names and that have fewer than `numTurns` surviving user turns behind
them. -/
def removeNewest (goes : Entry env → Bool) : List (Entry env) → Nat → List (Entry env)
  | [], _ => []
  | e :: entries, numTurns =>
    if survivingUserTurns entries 0 < numTurns ∧ pendingBehind entries 0 = 0 ∧ goes e = true then
      removeNewest goes entries numTurns
    else e :: removeNewest goes entries numTurns

/-- **The rollout without its newest surviving user-turn segments**: a segment is a user turn and the surviving turns of no
instruction up to the next user turn. -/
def removeNewestSegments (entries : List (Entry env)) (numTurns : Nat) : List (Entry env) :=
  removeNewest Entry.isTurn entries (min numTurns (survivingUserTurns entries 0))

/-- The rollout without its newest surviving user turns; turns of no instruction stay. -/
def removeNewestUserTurns (entries : List (Entry env)) (numTurns : Nat) : List (Entry env) :=
  removeNewest Entry.isUser entries (min numTurns (survivingUserTurns entries 0))

/-- No turn that is rolled back holds a compaction newer than every surviving one. -/
def compactionsSurvive : List (Entry env) → Nat → Bool
  | [], _ => true
  | e :: entries, pending =>
    compactionsSurvive entries pending &&
      (keepsCompaction entries pending || !e.compacts || pendingBehind entries pending == 0)

def Turn.contextOnly (t : Turn env) : Bool := t.body.all (fun item => item.recorded.all (isContextual env))

/-! ## Counting -/

theorem pendingBehind_cons (e : Entry env) (entries : List (Entry env)) (pending : Nat) :
    pendingBehind (e :: entries) pending = e.pay (pendingBehind entries pending) := rfl

/-- The user turns whose segments the reverse scan finalizes with no rollback owed. -/
def survivors : List (Entry env) → Nat → List (Turn env)
  | [], _ => []
  | .turn t :: entries, pending =>
    (if t.isUser && pendingBehind entries pending == 0 then [t] else []) ++ survivors entries pending
  | _ :: entries, pending => survivors entries pending

/-- The user turns left after an entry: a marker pops the last of them. -/
def Entry.remembered (turns : List (Turn env)) : Entry env → List (Turn env)
  | .turn t => if t.isUser then turns ++ [t] else turns
  | .rollback numTurns => turns.take (turns.length - numTurns)
  | _ => turns

theorem survivors_append (entries rest : List (Entry env)) (pending : Nat) :
    survivors (entries ++ rest) pending = survivors entries (pendingBehind rest pending) ++ survivors rest pending := by
  induction entries with
  | nil => rfl
  | cons e entries ih =>
    cases e with
    | turn =>
      rw [cons_append, survivors, survivors, ih, pendingBehind_append, append_assoc]
    | _ => exact ih

/-- **Scanning backwards with a count of rollbacks owed leaves what popping forwards leaves.** -/
theorem survivors_eq (entries : List (Entry env)) (pending : Nat) : survivors entries pending =
      (entries.foldl Entry.remembered []).take ((entries.foldl Entry.remembered []).length - pending) := by
  induction entries using reverseRecOn generalizing pending with
  | nil => simp [survivors]
  | append_singleton entries e ih =>
    rw [survivors_append, foldl_append, foldl_cons, foldl_nil, ih]
    generalize entries.foldl Entry.remembered [] = turns
    cases e with
    | turn t =>
      show turns.take (turns.length - (if t.isUser then pending - 1 else pending)) ++
        ((if t.isUser && pending == 0 then [t] else []) ++ []) = _
      cases hu : t.isUser with
      | false => simp [Entry.remembered, hu]
      | true =>
        simp only [Entry.remembered, hu, if_true, Bool.true_and, beq_iff_eq, append_nil, length_append, length_singleton]
        by_cases hp : pending = 0
        · subst hp
          simp
        · rw [if_neg hp, append_nil, take_append_of_le_length (by omega)]
          congr 1
          omega
    | rollback k =>
      show turns.take (turns.length - (pending + k)) ++ [] = _
      rw [append_nil, Entry.remembered, take_take, length_take]
      congr 1
      omega
    | _ => exact append_nil _

theorem survivors_zero (entries : List (Entry env)) : survivors entries 0 = entries.foldl Entry.remembered [] := by
  rw [survivors_eq, Nat.sub_zero, take_length]

theorem length_survivors (entries : List (Entry env)) (pending : Nat) :
    (survivors entries pending).length = survivingUserTurns entries pending := by
  induction entries with
  | nil => rfl
  | cons e entries ih =>
    cases e with
    | turn t =>
      rw [survivors, survivingUserTurns, length_append, ih, Nat.add_comm, isUser]
      split <;> rfl
    | _ => exact ih

theorem survivingUserTurns_append (entries rest : List (Entry env)) (pending : Nat) :
    survivingUserTurns (entries ++ rest) pending =
      survivingUserTurns entries (pendingBehind rest pending) + survivingUserTurns rest pending := by
  rw [← length_survivors, survivors_append, length_append, length_survivors, length_survivors]

/-- A later marker waits until the earlier debts are paid and takes surviving turns only. -/
theorem pendingBehind_eq (entries : List (Entry env)) (n : Nat) :
    pendingBehind entries n = pendingBehind entries 0 + (n - survivingUserTurns entries 0) := by
  induction entries with
  | nil => simp [pendingBehind, survivingUserTurns]
  | cons e entries ih =>
    rw [pendingBehind_cons, pendingBehind_cons, survivingUserTurns, ih]
    cases e with
    | turn t =>
      cases hu : t.isUser with
      | false => simp [pay, isUser, hu]
      | true =>
        simp only [pay, isUser, hu, if_true, Bool.true_and, beq_iff_eq]
        split <;> omega
    | rollback k =>
      simp only [pay, isUser, Bool.false_and, Bool.false_eq_true, if_false]
      omega
    | _ => simp [pay, isUser]

theorem pendingBehind_removeNewest (goes : Entry env → Bool) (hgoes : ∀ e, goes e → e.isTurn)
    (entries : List (Entry env)) (m : Nat) :
    pendingBehind (removeNewest goes entries m) 0 = pendingBehind entries 0 := by
  induction entries with
  | nil => rfl
  | cons e entries ih =>
    unfold removeNewest
    split
    · rename_i h
      rw [ih, pendingBehind_cons, h.2.1]
      cases e with
      | turn => simp [pay]
      | _ => cases hgoes _ h.2.2
    · rw [pendingBehind_cons, pendingBehind_cons, ih]

section

variable (goes : Entry env → Bool) {entries : List (Entry env)} {m : Nat}

theorem mem_of_mem_removeNewest {e} (h : e ∈ removeNewest goes entries m) : e ∈ entries := by
  induction entries with
  | nil => exact h
  | cons e' entries ih =>
    unfold removeNewest at h
    split at h
    · exact mem_cons_of_mem _ (ih h)
    · rcases mem_cons.1 h with rfl | h
      · exact mem_cons_self
      · exact mem_cons_of_mem _ (ih h)

theorem keepsCompaction_removeNewest (hgoes : ∀ e, goes e → e.isTurn) (hm : m ≤ n)
    (h : keepsCompaction entries n) : keepsCompaction (removeNewest goes entries m) 0 := by
  induction entries with
  | nil => cases h
  | cons e entries ih =>
    rw [keepsCompaction, or_eq_true, and_eq_true, beq_iff_eq] at h
    unfold removeNewest
    rcases h with h | ⟨hc, hpending⟩
    · split
      · exact ih h
      · rw [keepsCompaction, ih h, Bool.true_or]
    · rw [pendingBehind_eq] at hpending
      rw [if_neg (by omega), keepsCompaction, pendingBehind_removeNewest goes hgoes, hc, Nat.eq_zero_of_add_eq_zero_right hpending]
      simp

end

theorem no_compaction_of_not_kept {entries : List (Entry env)} (hsafe : compactionsSurvive entries n)
    (hkeeps : keepsCompaction entries n = false) : ∀ e ∈ entries, e.compacts = false := by
  induction entries with
  | nil => simp
  | cons e entries ih =>
    rw [compactionsSurvive, and_eq_true] at hsafe
    rw [keepsCompaction, or_eq_false_iff] at hkeeps
    intro e' he'
    rcases mem_cons.1 he' with rfl | he'
    · by_contra hc
      simp_all
    · exact ih hsafe.1 hkeeps.1 e' he'

theorem compactionsSurvive_of_append (entries : List (Entry env))
    (h : compactionsSurvive (entries ++ rest) n) : compactionsSurvive rest n := by
  induction entries with
  | nil => exact h
  | cons e entries ih =>
    rw [cons_append, compactionsSurvive, and_eq_true] at h
    exact ih h.1

section

variable {entries : List (Entry env)} {n : Nat} (h : survivingUserTurns entries 0 < n)
include h

theorem pendingBehind_ne_zero : pendingBehind entries n ≠ 0 := by
  rw [pendingBehind_eq]
  omega

theorem keepsCompaction_of_surviving_lt : keepsCompaction entries n = false := by
  induction entries with
  | nil => rfl
  | cons e entries ih =>
    have hlt : survivingUserTurns entries 0 < n := (le_add_right ..).trans_lt h
    simp [keepsCompaction, ih hlt, pendingBehind_ne_zero hlt]

theorem keepsCompaction_of_lt {e} : keepsCompaction (e :: entries) n = false := by
  simp [keepsCompaction, keepsCompaction_of_surviving_lt h, pendingBehind_ne_zero h]

end

theorem removeNewest_zero (goes : Entry env → Bool) (entries : List (Entry env)) : removeNewest goes entries 0 = entries := by
  induction entries with
  | nil => rfl
  | cons e entries ih => rw [removeNewest, if_neg (by omega), ih]

/-! ## Depth -/

/-- The depth behind an entry, where a marker finds enough instructions and a turn of no instruction has one below it. -/
def Entry.depth : Entry env → Nat → Option Nat
  | .turn t, depth =>
    if t.isUser then some (depth + 1) else if 0 < depth ∨ t.contextOnly = true then some depth else none
  | .rollback numTurns, depth => if numTurns ≤ depth then some (depth - numTurns) else none
  | _, depth => some depth

open Entry (isUser pay depth)

def depthAfter : List (Entry env) → Nat → Option Nat
  | [], depth => some depth
  | e :: entries, depth => (e.depth depth).bind (depthAfter entries)

/-- Below a debt that is still owed an entry pays back what the scan took off it. -/
theorem depth_pay (e : Entry env) (h : 0 < pending) : e.depth (e.pay pending) = some pending := by
  cases e with
  | turn t =>
    cases hu : t.isUser with
    | true =>
      simp only [depth, pay, hu, if_true]
      exact congrArg some (Nat.sub_add_cancel h)
    | false => simp [depth, pay, hu, h]
  | rollback => simp [depth, pay]
  | _ => rfl

theorem depthAfter_pendingBehind (entries : List (Entry env)) (h : survivingUserTurns entries 0 < m) :
    depthAfter entries (pendingBehind entries m) = some m := by
  induction entries with
  | nil => rfl
  | cons e entries ih =>
    rw [survivingUserTurns] at h
    have hpos : 0 < pendingBehind entries m := by rw [pendingBehind_eq]; omega
    rw [depthAfter, pendingBehind_cons, depth_pay e hpos, bind_some, ih (by omega)]

theorem depthAfter_removeNewest (goes : Entry env → Bool) (huser : ∀ e, e.isUser → goes e)
    (hturn : ∀ e, goes e → e.isTurn) (entries : List (Entry env))
    (hcontext : ∀ t, turn t ∈ entries → goes (.turn t) = false → t.contextOnly)
    (h : survivingUserTurns entries 0 < m) :
    depthAfter (removeNewest goes entries m) (pendingBehind entries 0) = some 0 := by
  induction entries with
  | nil => rfl
  | cons e entries ih =>
    rw [survivingUserTurns] at h
    have hlt : survivingUserTurns entries 0 < m := by omega
    have hrest := ih (fun t ht => hcontext t (mem_cons_of_mem _ ht)) hlt
    unfold removeNewest
    rw [pendingBehind_cons]
    split
    · next hgone =>
      rw [← hrest]
      cases e with
      | turn => rw [pay, hgone.2.1, Nat.zero_sub, ite_self]
      | _ => cases hturn _ hgone.2.2
    · next hgone =>
      have hdepth : e.depth (e.pay (pendingBehind entries 0)) = some (pendingBehind entries 0) := by
        rcases Nat.eq_zero_or_pos (pendingBehind entries 0) with hz | hpos
        · rw [hz]
          cases e with
          | turn t =>
            have hstays : goes (.turn t) = false := eq_false_iff.2 fun hg => hgone ⟨hlt, hz, hg⟩
            have hu : t.isUser = false := eq_false_iff.2 fun hu => eq_false_iff.1 hstays (huser (.turn t) hu)
            simp [depth, pay, hu, hcontext t mem_cons_self hstays]
          | rollback => simp [depth, pay]
          | _ => rfl
        · exact depth_pay e hpos
      rw [depthAfter, hdepth, bind_some, hrest]

theorem exists_oldest (hm : 0 < m) (h : m ≤ survivingUserTurns entries 0) :
    ∃ older t newer, entries = older ++ .turn t :: newer ∧ t.isUser ∧ pendingBehind newer 0 = 0 ∧
      survivingUserTurns newer 0 + 1 = m ∧
      ∀ goes : Entry env → Bool, goes (.turn t) → removeNewest goes entries m = older ++ removeNewest goes newer m := by
  induction entries with
  | nil =>
    rw [survivingUserTurns] at h
    omega
  | cons e entries ih =>
    by_cases hlt : m ≤ survivingUserTurns entries 0
    · obtain ⟨older, t, newer, rfl, hu, hz, hs, hremove⟩ := ih hlt
      refine ⟨e :: older, t, newer, rfl, hu, hz, hs, fun goes hg => ?_⟩
      rw [removeNewest, if_neg (by omega), hremove goes hg, cons_append]
    rw [survivingUserTurns] at h
    split at h
    · rename_i hsurvives
      rw [and_eq_true, beq_iff_eq] at hsurvives
      cases e with
      | turn t =>
        refine ⟨[], t, entries, rfl, hsurvives.1, hsurvives.2, by omega, fun goes hg => ?_⟩
        rw [removeNewest, if_pos ⟨by omega, hsurvives.2, hg⟩, nil_append]
      | _ => cases hsurvives.1
    · omega

end

/-! ## Histories -/

section

variable {Snapshot : Type} (env : ReplayEnv Snapshot)

def written (items : List RolloutItem) : List ResponseItem :=
  ((items.filterMap RolloutItem.recorded).filter isApiMessage).map (processItem env.toEnv)

theorem written_append (items rest : List RolloutItem) :
    written env (items ++ rest) = written env items ++ written env rest := by
  simp [written]

theorem replay_eq_written {id items} (hitems : ∀ item ∈ items, insideTurn id item)
    (hnone : newestReplacement items = none) (history : List ResponseItem) :
    replay env history items = history ++ written env items := by
  induction items generalizing history with
  | nil => simp [replay, written]
  | cons item items ih =>
    rw [newestReplacement_cons, or_eq_none_iff, map_eq_none_iff] at hnone
    have hrest := ih (fun i hi => hitems i (mem_cons_of_mem _ hi)) hnone.1
    have hitem : replayItem env history item = history ++ written env [item] := by
      rcases hitems item (by simp) with hin | ⟨ending, rfl⟩
      · cases item with
        | responseItem r =>
          simp only [replayItem, recordItem, written, filterMap_cons, RolloutItem.recorded, filterMap_nil]
          by_cases hr : isApiMessage r = true <;> simp [hr]
        | interAgentCommunication => rfl
        | compacted c =>
          have hc : c.replacementHistory.isSome := hin
          rw [show c.replacementHistory = none from hnone.2] at hc
          cases hc
        | eventMsg event =>
          cases event with
          | threadRolledBack => cases hin
          | _ => simp [replayItem, written, RolloutItem.recorded]
        | _ => simp [replayItem, written, RolloutItem.recorded]
      · cases ending <;> simp [replayItem, Ending.item, written, RolloutItem.recorded]
    rw [replay_cons, hitem, hrest, append_assoc, ← written_append, singleton_append]

theorem countP_written {items} (h : ∀ item ∈ items, instructs env.toEnv item = false) :
    (written env items).countP (isUserTurnBoundary env.toEnv) = 0 := by
  rw [countP_eq_zero]
  intro r hr
  simp only [written, List.mem_map, mem_filter, mem_filterMap] at hr
  obtain ⟨r, ⟨⟨item, hitem, hrecorded⟩, _⟩, rfl⟩ := hr
  have := h item hitem
  rw [instructs, hrecorded, any_some] at this
  rw [isUserTurnBoundary_processItem, this]
  exact false_ne_true

theorem contextual_written {items} (h : ∀ item ∈ items, item.recorded.all (isContextual env.toEnv)) :
    ∀ r ∈ written env items, isContextual env.toEnv r := by
  intro r hr
  simp only [written, List.mem_map, mem_filter, mem_filterMap] at hr
  obtain ⟨r, ⟨⟨item, hitem, hrecorded⟩, _⟩, rfl⟩ := hr
  have := h item hitem
  rw [hrecorded, all_some] at this
  rw [isContextual_processItem, this]

theorem replay_turn {t : Turn env.toEnv} (h : (turn t).compacts = false) (history : List ResponseItem) :
    replay env history t.items = history ++ written env t.body := by
  have hnone : newestReplacement (t.body ++ [t.ending.item t.id]) = none := by
    rwa [compacts, isSome_eq_false_iff, isNone_iff_eq_none, t.newestReplacement_items] at h
  have hending : written env [t.ending.item t.id] = [] := by cases t.ending <;> rfl
  show replay env history (_ :: (t.body ++ [t.ending.item t.id])) = _
  rw [replay_cons, replay_eq_written env t.inside hnone, written_append, hending, append_nil]
  rfl

theorem written_user {t : Turn env.toEnv} (h : t.isUser) :
    ∃ item, t.instructionItem = some item ∧ isUserTurnBoundary env.toEnv item ∧
      written env t.body = written env t.before ++ item :: written env t.after := by
  obtain ⟨inst, hinst⟩ := isSome_iff_exists.1 h
  have hinstructs := t.instructs_instruction inst (by simp [hinst])
  rw [instructs, Option.any_eq_true] at hinstructs
  obtain ⟨r, hrecorded, hboundary⟩ := hinstructs
  refine ⟨processItem env.toEnv r, ?_, by rw [isUserTurnBoundary_processItem, hboundary], ?_⟩
  · rw [Turn.instructionItem, hinst, bind_some, hrecorded, map_some]
  have hone : written env [inst] = [processItem env.toEnv r] := by
    simp [written, hrecorded, isApiMessage_of_boundary env.toEnv hboundary]
  rw [Turn.body, hinst, toList_some, written_append, written_append, hone, append_assoc, singleton_append]

/-- **The depth of the history moves as the entries say.** -/
theorem above_entry {base history : List ResponseItem} {e : Entry env.toEnv} {depth depth'}
    (hc : e.compacts = false) (h : Above env.toEnv base depth history) (hd : e.depth depth = some depth') :
    Above env.toEnv base depth' (replay env history e.items) := by
  cases e with
  | turn t =>
    show Above _ _ _ (replay env history t.items)
    rw [replay_turn env hc]
    cases hu : t.isUser with
    | true =>
      simp only [Entry.depth, hu, if_true, some.injEq] at hd
      obtain ⟨item, _, hitem, hwritten⟩ := written_user env hu
      rw [hwritten, ← append_assoc, ← hd]
      exact h.turn (contextual_written env t.contextual_before) hitem (countP_written env t.silent_after)
    | false =>
      simp only [Entry.depth, hu, false_eq_true, if_false] at hd
      split at hd
      · next hor =>
        cases hd
        rcases hor with hpos | hctx
        · exact h.append hpos (countP_written env (Turn.silent_of_not_user hu))
        · exact h.context (contextual_written env (List.all_eq_true.1 hctx))
      · cases hd
  | rollback k =>
    simp only [Entry.depth] at hd
    split at hd
    · rename_i hle
      cases hd
      exact h.drop k (.inl hle)
    · cases hd
  | _ =>
    cases hd
    exact h

theorem above_entries {base history} {entries : List (Entry env.toEnv)} {depth depth'}
    (hc : ∀ e ∈ entries, e.compacts = false) (h : Above env.toEnv base depth history)
    (hd : depthAfter entries depth = some depth') :
    Above env.toEnv base depth' (replay env history (rolloutItems entries)) := by
  induction entries generalizing history depth with
  | nil =>
    cases hd
    exact h
  | cons e entries ih =>
    rw [depthAfter, bind_eq_some_iff] at hd
    obtain ⟨_, hnext, hrest⟩ := hd
    have hitems : rolloutItems (e :: entries) = e.items ++ rolloutItems entries := flatMap_cons
    rw [hitems, replay_append]
    exact ih (fun e' he' => hc e' (mem_cons_of_mem _ he')) (above_entry env (hc e (by simp)) h hnext) hrest

/-- Without compactions the instructions of the replayed history are those of the user turns left. -/
theorem filter_replay (entries : List (Entry env.toEnv))
    (hc : ∀ e ∈ entries, e.compacts = false) :
    ((replay env [] (rolloutItems entries)).filter (isUserTurnBoundary env.toEnv)).map some =
      (entries.foldl Entry.remembered []).map Turn.instructionItem := by
  induction entries using reverseRecOn with
  | nil => rfl
  | append_singleton entries e ih =>
    have hrest := ih fun e' he' => hc e' (mem_append_left _ he')
    have hce := hc e (by simp)
    rw [rolloutItems_append, rolloutItems_singleton, replay_append, foldl_append, foldl_cons, foldl_nil]
    generalize replay env [] (rolloutItems entries) = history at hrest
    generalize entries.foldl Entry.remembered [] = turns at hrest
    have hnone : ∀ items : List ResponseItem, items.countP (isUserTurnBoundary env.toEnv) = 0 →
        items.filter (isUserTurnBoundary env.toEnv) = [] := fun items h => by
      rwa [countP_eq_length_filter, length_eq_zero_iff] at h
    cases e with
    | turn t =>
      show ((replay env history t.items).filter _).map some = _
      rw [replay_turn env hce, Entry.remembered]
      cases hu : t.isUser with
      | true =>
        obtain ⟨_, hinstruction, hitem, hwritten⟩ := written_user env hu
        have hbefore := hnone _ (countP_context (contextual_written env t.contextual_before))
        have hafter := hnone _ (countP_written env t.silent_after)
        rw [hwritten, filter_append, filter_append, filter_cons_of_pos hitem, hbefore, hafter]
        simp [hrest, hinstruction]
      | false =>
        rw [filter_append, hnone _ (countP_written env (Turn.silent_of_not_user hu)), append_nil]
        exact hrest
    | rollback n =>
      show ((dropLastNUserTurns env.toEnv history n).filter _).map some = _
      have hlength := congrArg length hrest
      rw [length_map, length_map] at hlength
      rw [filter_dropLastNUserTurns, map_take, hrest, hlength, Entry.remembered, map_take]
    | _ => exact hrest

theorem countP_replay (entries : List (Entry env.toEnv)) (hc : ∀ e ∈ entries, e.compacts = false) :
    (replay env [] (rolloutItems entries)).countP (isUserTurnBoundary env.toEnv) = survivingUserTurns entries 0 := by
  have hlength := congrArg length (filter_replay env entries hc)
  rwa [length_map, length_map, ← countP_eq_length_filter, ← survivors_zero, length_survivors] at hlength

section

variable (goes : Entry env.toEnv → Bool) (huser : ∀ e, e.isUser = true → goes e = true)
  (hturn : ∀ e, goes e = true → e.isTurn = true) {entries : List (Entry env.toEnv)} {n : Nat}
  (hcontext : ∀ t, turn t ∈ entries → goes (.turn t) = false → t.contextOnly = true)
  (hsafe : compactionsSurvive entries n = true)
include huser hturn hcontext hsafe

/-- A marker and the removal both come back, up to context, to the history below the oldest turn they take. -/
theorem replay_rollback : SameUpToContext env.toEnv (replay env [] (rolloutItems (entries ++ [.rollback n])))
      (replay env [] (rolloutItems (removeNewest goes entries (min n (survivingUserTurns entries 0))))) := by
  have hmarker : replay env [] (rolloutItems (entries ++ [.rollback n])) =
      dropLastNUserTurns env.toEnv (replay env [] (rolloutItems entries)) n := by
    rw [rolloutItems_append, replay_append]
    rfl
  rw [hmarker]
  -- a marker that asks for more than survives meets no compaction
  have hall : survivingUserTurns entries 0 < n → ∀ e ∈ entries, e.compacts = false := fun h =>
    no_compaction_of_not_kept hsafe (keepsCompaction_of_surviving_lt h)
  generalize hm : min n (survivingUserTurns entries 0) = m
  by_cases hzero : m = 0
  · subst hzero
    rw [removeNewest_zero]
    by_cases hn : n = 0
    · subst hn
      rfl
    have hcount := countP_replay env entries (hall (by omega))
    have hnone : (replay env [] (rolloutItems entries)).countP (isUserTurnBoundary env.toEnv) = 0 := by omega
    have hdrop := (above_self _).drop n (.inr hnone)
    rw [Nat.zero_sub] at hdrop
    exact hdrop.sameUpToContext
  · have hle : m ≤ survivingUserTurns entries 0 := by omega
    obtain ⟨older, t, newer, hsplit, hu, hpending, hsurviving, hremove⟩ := exists_oldest (pos_of_ne_zero hzero) hle
    have hc : ∀ e ∈ turn t :: newer, e.compacts = false := by
      refine no_compaction_of_not_kept (n := n) (compactionsSurvive_of_append older ?_) (keepsCompaction_of_lt (by omega))
      rwa [← hsplit]
    have hmarked : Above env.toEnv (replay env [] (rolloutItems older)) m (replay env [] (rolloutItems entries)) := by
      rw [hsplit, rolloutItems_append, replay_append]
      refine above_entries env hc (above_self _) ?_
      have hnewer := depthAfter_pendingBehind newer (m := m) (by omega)
      have hone : pendingBehind newer m = 1 := by rw [pendingBehind_eq]; omega
      rw [hone] at hnewer
      rw [depthAfter, Entry.depth, if_pos hu, bind_some, hnewer]
    have hcover : n ≤ m ∨ (replay env [] (rolloutItems older)).countP (isUserTurnBoundary env.toEnv) = 0 := by
      by_cases hle : n ≤ survivingUserTurns entries 0
      · exact .inl (by omega)
      right
      have holder := countP_replay env older (fun e he => hall (by omega) e (by rw [hsplit]; exact mem_append_left _ he))
      have hpaid : pendingBehind (turn t :: newer) 0 = 0 := by
        rw [pendingBehind_cons, hpending, pay, Nat.zero_sub, ite_self]
      have htotal := survivingUserTurns_append older (turn t :: newer) 0
      have hthis : survivingUserTurns (turn t :: newer) 0 = m := by
        rw [survivingUserTurns, isUser, hu, hpending]
        exact hsurviving
      rw [← hsplit, hpaid, hthis] at htotal
      omega
    have hremoved : Above env.toEnv (replay env [] (rolloutItems older)) 0
        (replay env [] (rolloutItems (removeNewest goes entries m))) := by
      rw [hremove goes (huser (.turn t) hu), rolloutItems_append, replay_append]
      refine above_entries env (fun e he => hc e (mem_cons_of_mem _ (mem_of_mem_removeNewest goes he))) (above_self _) ?_
      have := depthAfter_removeNewest goes huser hturn newer (m := m)
        (fun t' ht' => hcontext t' (by rw [hsplit]; simp [ht'])) (by omega)
      rwa [hpending] at this
    have hdrop := hmarked.drop n hcover
    rw [show m - n = 0 by omega] at hdrop
    exact hdrop.sameUpToContext.trans hremoved.sameUpToContext.symm

/-- The marker and the removal leave the scan a surviving compaction, or a rollout without any. -/
theorem reconstruct_rollback : SameUpToContext env.toEnv
      (reconstructHistoryFromRollout env (rolloutItems (entries ++ [.rollback n]))).history
      (reconstructHistoryFromRollout env
        (rolloutItems (removeNewest goes entries (min n (survivingUserTurns entries 0))))).history := by
  have hmarked : keepsCompaction (entries ++ [.rollback n]) 0 = keepsCompaction entries n := by
    rw [keepsCompaction_append]
    simp [keepsCompaction, pendingBehind, pay, compacts, items, newestReplacement, RolloutItem.replacement]
  have hreplay := replay_rollback env goes huser hturn hcontext hsafe
  cases hkeeps : keepsCompaction entries n with
  | true =>
    rwa [reconstruct_eq_replay env _ (.inl (hmarked.trans hkeeps)),
      reconstruct_eq_replay env _ (.inl (keepsCompaction_removeNewest goes hturn (min_le_left _ _) hkeeps))]
  | false =>
    have hnone := no_compaction_of_not_kept hsafe hkeeps
    have hmarker : ∀ e ∈ entries ++ [.rollback n], e.compacts = false :=
      forall_mem_append.2 ⟨hnone, forall_mem_singleton.2 rfl⟩
    rwa [reconstruct_eq_replay env _ (.inr hmarker),
      reconstruct_eq_replay env _ (.inr fun e he => hnone e (mem_of_mem_removeNewest goes he))]

end

/-- **A rollback marker takes the newest surviving user turns out of the rebuilt history**, each with the turns of no
instruction behind it, as long as every compaction it takes is older than a surviving one.  Where turns of no instruction
record context only, they may as well stay. -/
theorem rollback_removes_newest_user_turns (entries : List (Entry env.toEnv)) (n : Nat)
    (hsafe : compactionsSurvive entries n = true) :
    SameUpToContext env.toEnv
      (reconstructHistoryFromRollout env (rolloutItems (entries ++ [.rollback n]))).history
      (reconstructHistoryFromRollout env (rolloutItems (removeNewestSegments entries n))).history ∧
    ((∀ t, turn t ∈ entries → t.isUser = false → t.contextOnly = true) →
      SameUpToContext env.toEnv
        (reconstructHistoryFromRollout env (rolloutItems (entries ++ [.rollback n]))).history
        (reconstructHistoryFromRollout env (rolloutItems (removeNewestUserTurns entries n))).history) := by
  have hturn : ∀ e : Entry env.toEnv, e.isUser = true → e.isTurn = true
    | .turn _, _ => rfl
  exact ⟨reconstruct_rollback env isTurn hturn (fun _ h => h) (fun t _ h => by cases h) hsafe,
    fun hcontext => reconstruct_rollback env isUser (fun _ h => h) hturn hcontext hsafe⟩

end

/-! ## Rollouts -/

def plainEnv : ReplayEnv Unit where
  contextualUserText text := "<environment_context>".toList.isPrefixOf text
  interAgentText _ := false
  truncate output := output
  buildCompactedHistory history message :=
    history.filter (fun
      | .message _ role _ _ => role == user
      | _ => false) ++ [.message none user [.inputText message] none]
  parseUuidV7 text := some text
  restore _ := some ()
  applyMergePatch _ _ := some ()

def textMessage (role : Str) (text : Str) : ResponseItem := .message none role [.inputText text] none

def compactedTo (history : List ResponseItem) : RolloutItem :=
  .compacted ⟨[], some history, none, none, none, none⟩

def firstTurn : Turn plainEnv.toEnv where
  id := ['1']
  startedAt := none
  before := [.responseItem (textMessage user "<environment_context>".toList)]
  instruction := some (.responseItem (textMessage user ['q']))
  after := [.eventMsg (.userMessage none []), .responseItem (textMessage assistant ['a'])]
  ending := .complete none none
  belongs_of_mem := by decide
  contextual_before := by decide
  instructs_instruction := by decide
  silent_after := by decide
  no_userMessage := by decide

def compactedTurn : Turn plainEnv.toEnv where
  id := ['2']
  startedAt := none
  before := []
  instruction := some (.responseItem (textMessage user ['r']))
  after := [.eventMsg (.userMessage none []), compactedTo [textMessage user ['s']], .responseItem (textMessage assistant ['b'])]
  ending := .complete none none
  belongs_of_mem := by decide
  contextual_before := by decide
  instructs_instruction := by decide
  silent_after := by decide
  no_userMessage := by decide

def secondTurn : Turn plainEnv.toEnv where
  id := ['2']
  startedAt := none
  before := []
  instruction := some (.responseItem (textMessage user ['r']))
  after := [.eventMsg (.userMessage none []), .responseItem (textMessage assistant ['b'])]
  ending := .complete none none
  belongs_of_mem := by decide
  contextual_before := by decide
  instructs_instruction := by decide
  silent_after := by decide
  no_userMessage := by decide

def uninstructedTurn : Turn plainEnv.toEnv where
  id := ['3']
  startedAt := none
  before := []
  instruction := none
  after := [.responseItem (textMessage assistant ['c'])]
  ending := .complete none none
  belongs_of_mem := by decide
  contextual_before := by decide
  instructs_instruction := by decide
  silent_after := by decide
  no_userMessage := by decide

def compactedThread : List (Entry plainEnv.toEnv) := [.turn compactedTurn, .turn firstTurn, .rollback 1, .turn firstTurn]

theorem rollback_above_compaction : compactionsSurvive compactedThread 1 = true ∧ SameUpToContext plainEnv.toEnv
      (reconstructHistoryFromRollout plainEnv (rolloutItems (compactedThread ++ [.rollback 1]))).history
      (reconstructHistoryFromRollout plainEnv (rolloutItems (removeNewestSegments compactedThread 1))).history ∧
    (reconstructHistoryFromRollout plainEnv (rolloutItems (removeNewestSegments compactedThread 1))).history =
      [textMessage user ['s'], textMessage assistant ['b']] :=
  ⟨by decide, (rollback_removes_newest_user_turns plainEnv compactedThread 1 (by decide)).1, by decide⟩

/-- **A compaction inside the turn that is rolled back loses the history of older turns**: the replay starts behind it. -/
theorem rolled_back_compaction_loses_history : (reconstructHistoryFromRollout plainEnv
      (rolloutItems [.turn firstTurn, .turn compactedTurn, .rollback 1])).history = [textMessage assistant ['b']] ∧
    (reconstructHistoryFromRollout plainEnv
      (rolloutItems (removeNewestSegments [.turn firstTurn, .turn compactedTurn] 1))).history =
        [textMessage user "<environment_context>".toList, textMessage user ['q'], textMessage assistant ['a']] ∧
    ¬ SameUpToContext plainEnv.toEnv
      (reconstructHistoryFromRollout plainEnv
        (rolloutItems [.turn firstTurn, .turn compactedTurn, .rollback 1])).history
      (reconstructHistoryFromRollout plainEnv
        (rolloutItems (removeNewestSegments [.turn firstTurn, .turn compactedTurn] 1))).history := by
  unfold SameUpToContext
  decide

end Owc.Rollout
