import OpenWebCodex.RolloutRollback
/-!
# RolloutTruncate — the turns that a rollout's rollbacks leave

`core/src/thread_rollout_truncation.rs` finds the user messages and the fork turns that survive the rollbacks of a rollout
from the rollout alone.  `recorded` is the history that the session replays, each item with the position it was recorded
at.  A rollback counts instructions; the list of fork turns follows it, the list of user messages does not where other
agents have given instructions.
-/
namespace Owc.Rollout

open List Bool Nat
open History

/-- What is asked of a text besides: whether it is a hook's prompt, which is context, and the `trigger_turn` of the
inter-agent message it holds. -/
structure TurnTexts (env : Env) where
  isHookPrompt : Str → Bool
  contextual_of_isHookPrompt : ∀ text, isHookPrompt text = true → env.contextualUserText text = true
  triggerTurn : Str → Option Bool
  isSome_triggerTurn : ∀ text, (triggerTurn text).isSome = env.interAgentText text

def enumerate {S : Type} (step : Option RolloutItem → Nat → S → RolloutItem → S) (s : S) (items : List RolloutItem) : S :=
  (items.foldl (fun acc item => (some item, acc.2.1 + 1, step acc.1 acc.2.1 acc.2.2 item)) (none, 0, s)).2.2

section Source

variable {env : Env} (texts : TurnTexts env)

/-- `parse_visible_hook_prompt_message(…).is_some()`. -/
def isVisibleHookPrompt (content : List ContentItem) : Bool :=
  content.all (isContextualUserFragment env) && content.any (fun
    | .inputText text => texts.isHookPrompt text
    | _ => false)

/-- `parse_turn_item` reads a user message. -/
def isRealUserMessageBoundary : ResponseItem → Bool
  | .message _ role content _ =>
    role == user && !isVisibleHookPrompt texts content && !isContextualUserMessageContent env content
  | _ => false

def isTriggerTurnBoundary : ResponseItem → Bool
  | .message _ role content _ => role == assistant && (match content with
    | [.inputText text] => texts.triggerTurn text == some true
    | [.outputText text] => texts.triggerTurn text == some true
    | _ => false)
  | _ => false

def userStep (_previous : Option RolloutItem) (idx : Nat) (userPositions : List Nat) : RolloutItem → List Nat
  | .responseItem item => if isRealUserMessageBoundary texts item then userPositions ++ [idx] else userPositions
  | .eventMsg (.threadRolledBack numTurns) => userPositions.take (userPositions.length - numTurns)
  | _ => userPositions

def userMessagePositionsInRollout (items : List RolloutItem) : List Nat := enumerate (userStep texts) [] items

def hasDeliveryMetadata (previous : Option RolloutItem) (item : ResponseItem) : Bool :=
  (match item with
    | .agentMessage _ _ _ _ => true
    | _ => false) && previous.any (fun
    | .interAgentCommunicationMetadata _ => true
    | _ => false)

def forkStep (previous : Option RolloutItem) (idx : Nat) (s : List Nat × List Nat) : RolloutItem → List Nat × List Nat
  | .responseItem item =>
    (if isUserTurnBoundary env item && !hasDeliveryMetadata previous item then s.1 ++ [idx] else s.1,
      if isRealUserMessageBoundary texts item || isTriggerTurnBoundary texts item then s.2 ++ [idx] else s.2)
  | .interAgentCommunication communication =>
    (s.1 ++ [idx], if communication.triggerTurn then s.2 ++ [idx] else s.2)
  | .interAgentCommunicationMetadata triggerTurn => (s.1 ++ [idx], if triggerTurn then s.2 ++ [idx] else s.2)
  | .eventMsg (.threadRolledBack numTurns) =>
    if numTurns = 0 then s
    else match if numTurns ≤ s.1.length then s.1[s.1.length - numTurns]? else s.1.head? with
      | none => s
      | some rollbackStartIdx => (s.1.take (s.1.length - numTurns), s.2.filter (· < rollbackStartIdx))
  | _ => s

def forkTurnPositionsInRollout (items : List RolloutItem) : List Nat := (enumerate (forkStep texts) ([], []) items).2

/-- `usize::MAX` keeps all, as does any number not below that of the user messages. -/
def truncateRolloutBeforeNthUserMessageFromStart (items : List RolloutItem) (nFromStart : Nat) : List RolloutItem :=
  match (userMessagePositionsInRollout texts items)[nFromStart]? with
  | none => items
  | some cutIdx => items.take cutIdx

end Source

/-! ## The history, with positions -/

/-- An item of the history, where its turn starts in the rollout, and whether a fork turn starts there. -/
structure Recorded where
  position : Nat
  item : ResponseItem
  forks : Bool

section History

variable {env : Env} (texts : TurnTexts env)

/-- An agent's message starts where its delivery was noted, and triggers a turn if the note does. -/
def deliver (previous : Option RolloutItem) (idx : Nat) (item : ResponseItem) : Recorded :=
  if hasDeliveryMetadata previous item then ⟨idx - 1, processItem env item, previous.any (fun
    | .interAgentCommunicationMetadata triggerTurn => triggerTurn
    | _ => false)⟩
  else ⟨idx, processItem env item, isRealUserMessageBoundary texts item || isTriggerTurnBoundary texts item⟩

def recordStep (previous : Option RolloutItem) (idx : Nat) (history : List Recorded) : RolloutItem → List Recorded
  | .responseItem item => if isApiMessage item then history ++ [deliver texts previous idx item] else history
  | .interAgentCommunication communication =>
    history ++ [⟨idx, communication.toModelInputItem, communication.triggerTurn⟩]
  | .eventMsg (.threadRolledBack numTurns) =>
    history.take (dropLastNUserTurns env (history.map Recorded.item) numTurns).length
  | _ => history

def recorded (items : List RolloutItem) : List Recorded := enumerate (recordStep texts) [] items

def Recorded.isUser (e : Recorded) : Bool := isRealUserMessageBoundary texts e.item

open Recorded (item position forks isUser)

def survivingUserMessages (items : List RolloutItem) : List Nat :=
  ((recorded texts items).filter (isUser texts)).map position

def survivingForkTurns (items : List RolloutItem) : List Nat :=
  ((recorded texts items).filter forks).map position

def instructions (items : List RolloutItem) : List Recorded :=
  (recorded texts items).filter (fun e => isUserTurnBoundary env e.item)

end History

open Recorded (item position forks isUser)

variable {env : Env} {texts : TurnTexts env} {items : List RolloutItem}

theorem enumerate_concat {S : Type} (step : Option RolloutItem → Nat → S → RolloutItem → S) (s : S)
    (items : List RolloutItem) (item : RolloutItem) :
    enumerate step s (items ++ [item]) = step items.getLast? items.length (enumerate step s items) item := by
  have hplace : ∀ l, l.foldl (fun (acc : Option RolloutItem × Nat × S) item =>
      (some item, acc.2.1 + 1, step acc.1 acc.2.1 acc.2.2 item)) (none, 0, s) =
      (l.getLast?, l.length, enumerate step s l) := by
    intro l
    induction l using reverseRecOn with
    | nil => rfl
    | append_singleton l item ih =>
      rw [enumerate, foldl_concat, ih, getLast?_concat, length_append]
      rfl
  rw [enumerate, foldl_concat, hplace]

theorem recorded_concat (items : List RolloutItem) (item : RolloutItem) : recorded texts (items ++ [item]) =
    recordStep texts items.getLast? items.length (recorded texts items) item := enumerate_concat _ _ items item

theorem userMessagePositions_concat (items : List RolloutItem) (item : RolloutItem) :
    userMessagePositionsInRollout texts (items ++ [item]) =
      userStep texts items.getLast? items.length (userMessagePositionsInRollout texts items) item :=
  enumerate_concat _ _ items item

theorem item_deliver (previous : Option RolloutItem) (idx : Nat) (item : ResponseItem) :
    (deliver texts previous idx item).item = processItem env item := by
  unfold deliver
  split <;> rfl

/-- **The items recorded are the history** of a rollout without compactions. -/
theorem map_item_recorded {Snapshot : Type} (env : ReplayEnv Snapshot) (texts : TurnTexts env.toEnv)
    (h : ∀ compacted, .compacted compacted ∉ items) : (recorded texts items).map item = replay env [] items := by
  induction items using reverseRecOn with
  | nil => rfl
  | append_singleton items item ih =>
    have ih := ih fun compacted hc => h compacted (mem_append_left _ hc)
    rw [recorded_concat, replay, foldl_concat, ← replay, ← ih]
    cases item with
    | responseItem =>
      simp only [recordStep, replayItem, recordItem]
      split
      · rw [map_append, map_singleton, item_deliver]
      · rfl
    | interAgentCommunication communication =>
      rw [recordStep, replayItem, recordItem, if_pos (show isApiMessage communication.toModelInputItem from rfl), map_append]
      rfl
    | compacted compacted => exact absurd (mem_append_right _ mem_cons_self) (h compacted)
    | eventMsg event =>
      cases event with
      | threadRolledBack =>
        rw [recordStep, map_take, replayItem]
        exact (prefix_iff_eq_take.1 ( dropLastNUserTurns_prefix _ _ _)).symm
      | _ => rfl
    | _ => rfl

/-! ## Instructions -/

theorem isUserTurnBoundary_of_user {item} (h : isRealUserMessageBoundary texts item) : isUserTurnBoundary env item := by
  cases item with
  | message =>
    simp only [isRealUserMessageBoundary, and_eq_true] at h
    simp [isUserTurnBoundary, h.1.1, h.2]
  | _ => cases h

theorem isUserTurnBoundary_of_trigger {item} (h : isTriggerTurnBoundary texts item) : isUserTurnBoundary env item := by
  have hsome : ∀ text, texts.triggerTurn text = some true → env.interAgentText text := fun text ht => by
    rw [← texts.isSome_triggerTurn, ht]
    rfl
  cases item with
  | message id role content =>
    simp only [isTriggerTurnBoundary, and_eq_true] at h
    obtain ⟨hrole, hcontent⟩ := h
    have hin : isInterAgentInstructionContent env content := by
      split at hcontent
      · exact hsome _ (beq_iff_eq.1 hcontent)
      · exact hsome _ (beq_iff_eq.1 hcontent)
      · cases hcontent
    simp [isUserTurnBoundary, hrole, hin]
  | _ => cases h

theorem isRealUserMessageBoundary_processItem (item : ResponseItem) :
    isRealUserMessageBoundary texts (processItem env item) = isRealUserMessageBoundary texts item := by
  cases item <;> rfl

theorem instructions_rollback (items : List RolloutItem) (n : Nat) :
    instructions texts (items ++ [.eventMsg (.threadRolledBack n)]) =
      (instructions texts items).take ((instructions texts items).length - n) := by
  have hcount : ∀ l : List Recorded, (l.filter fun e => isUserTurnBoundary env e.item).length =
      (l.map item).countP (isUserTurnBoundary env) := fun l => by
    rw [← countP_eq_length_filter, countP_map]
    rfl
  rw [instructions, recorded_concat, recordStep]
  have hpre := ( take_prefix (dropLastNUserTurns env ((recorded texts items).map item) n).length
    (recorded texts items)).filter fun e => isUserTurnBoundary env e.item
  rw [prefix_iff_eq_take.1 hpre, hcount, map_take,
    ← prefix_iff_eq_take.1 ( dropLastNUserTurns_prefix env _ n), countP_dropLastNUserTurns, ← hcount]
  rfl

theorem filter_instructions {p : Recorded → Bool} (h : ∀ e ∈ recorded texts items, p e → isUserTurnBoundary env e.item) :
    (recorded texts items).filter p = (instructions texts items).filter p := by
  rw [instructions, filter_filter]
  refine filter_congr fun e he => ?_
  cases hp : p e with
  | false => rfl
  | true => rw [h e he hp]; rfl

theorem filter_isUser (items : List RolloutItem) :
    (recorded texts items).filter (isUser texts) = (instructions texts items).filter (isUser texts) :=
  filter_instructions fun _ _ h => isUserTurnBoundary_of_user h

/-! ## User messages -/

/-- **The last `n` instructions hold `n` user messages, or all there are.** -/
def TakesUsers (texts : TurnTexts env) (before : List RolloutItem) (n : Nat) : Prop :=
  ((instructions texts before).drop ((instructions texts before).length - n)).countP (isUser texts) =
    min n ((instructions texts before).countP (isUser texts))

def Agrees (texts : TurnTexts env) (items : List RolloutItem) : Prop :=
  userMessagePositionsInRollout texts items = survivingUserMessages texts items

theorem agrees_rollback_iff (h : Agrees texts items) (n : Nat) :
    Agrees texts (items ++ [.eventMsg (.threadRolledBack n)]) ↔ TakesUsers texts items n := by
  unfold Agrees survivingUserMessages at *
  rw [userMessagePositions_concat, userStep, h, filter_isUser, filter_isUser, instructions_rollback, TakesUsers]
  generalize instructions texts items = l
  have hsplit := congrArg (countP (isUser texts)) (take_append_drop (l.length - n) l)
  have hpre := ( take_prefix (l.length - n) l).filter (isUser texts)
  rw [countP_append] at hsplit
  rw [prefix_iff_eq_take.1 (hpre.map position), take_eq_take_iff]
  simp only [length_map, ← countP_eq_length_filter]
  omega

theorem agrees_step (h : Agrees texts items) {item} (hitem : ∀ n, item ≠ .eventMsg (.threadRolledBack n)) :
    Agrees texts (items ++ [item]) := by
  unfold Agrees survivingUserMessages at *
  rw [userMessagePositions_concat, h, recorded_concat]
  cases item with
  | responseItem item =>
    have hdeliver : (deliver texts items.getLast? items.length item).isUser texts = isRealUserMessageBoundary texts item := by
      rw [isUser, item_deliver, isRealUserMessageBoundary_processItem]
    cases hu : isRealUserMessageBoundary texts item with
    | true =>
      have hpos : (deliver texts items.getLast? items.length item).position = items.length := by
        cases item with
        | message => rfl
        | _ => cases hu
      simp [userStep, recordStep, hu, isApiMessage_of_boundary env (isUserTurnBoundary_of_user hu), hdeliver, hpos]
    | false =>
      simp only [userStep, recordStep, hu, false_eq_true, if_false]
      split
      · simp [hdeliver, hu]
      · rfl
  | interAgentCommunication =>
    simp only [userStep, recordStep, filter_append, map_append]
    exact (append_nil _).symm
  | eventMsg event =>
    cases event with
    | threadRolledBack n => exact absurd rfl (hitem n)
    | _ => rfl
  | _ => rfl

/-- **The user messages found are those that survive**, in a rollout and wherever it is cut, exactly if every rollback
takes users. -/
theorem agrees_iff : (∀ before, before <+: items → Agrees texts before) ↔
    ∀ before n, before ++ [.eventMsg (.threadRolledBack n)] <+: items → TakesUsers texts before n := by
  constructor
  · intro h before n hpre
    exact (agrees_rollback_iff (h before ((prefix_append _ _).trans hpre)) n).1 (h _ hpre)
  · intro h before
    induction before using reverseRecOn with
    | nil => exact fun _ => rfl
    | append_singleton before item ih =>
      intro hpre
      have ih := ih ((prefix_append _ _).trans hpre)
      by_cases hitem : ∃ n, item = .eventMsg (.threadRolledBack n)
      · obtain ⟨n, rfl⟩ := hitem
        exact (agrees_rollback_iff ih n).2 (h before n hpre)
      · exact agrees_step ih fun n hn => hitem ⟨n, hn⟩

/-! ## Cutting -/

/-- **Cut before a user message found, the rollout has the ones before it.** -/
theorem userMessagePositions_take (h : (userMessagePositionsInRollout texts items)[n]? = some cut) :
    cut < items.length ∧
      userMessagePositionsInRollout texts (items.take cut) = (userMessagePositionsInRollout texts items).take n := by
  induction items using reverseRecOn generalizing n with
  | nil => cases h
  | append_singleton items item ih =>
    -- a position that was there before: the cut is behind no new item
    have hold : ∀ {m}, (userMessagePositionsInRollout texts items)[m]? = some cut →
        cut < (items ++ [item]).length ∧ userMessagePositionsInRollout texts ((items ++ [item]).take cut) =
          (userMessagePositionsInRollout texts items).take m := by
      intro m hm
      obtain ⟨hlt, heq⟩ := ih hm
      refine ⟨by rw [length_append]; omega, ?_⟩
      rw [take_append_of_le_length (le_of_lt hlt), heq]
    rw [userMessagePositions_concat] at h ⊢
    cases item with
    | responseItem item =>
      rw [userStep] at h ⊢
      split at h
      · rcases lt_trichotomy n (userMessagePositionsInRollout texts items).length with hn | hn | hn
        · rw [getElem?_append_left hn] at h
          rw [if_pos (by assumption), take_append_of_le_length (le_of_lt hn)]
          exact hold h
        · rw [hn, getElem?_concat_length, Option.some.injEq] at h
          rw [← h, if_pos (by assumption), hn, take_left, take_left]
          exact ⟨by simp, rfl⟩
        · rw [getElem?_eq_none (by simp; omega)] at h
          cases h
      · rw [if_neg (by assumption)]
        exact hold h
    | eventMsg event =>
      cases event with
      | threadRolledBack k =>
        rw [userStep] at h ⊢
        rw [getElem?_take] at h
        split at h
        · rename_i hn
          rw [take_take, min_eq_left (le_of_lt hn)]
          exact hold h
        · cases h
      | _ => exact hold h
    | _ => exact hold h

/-! ## Fork turns -/

/-- Every note of a delivery is followed by the agent's message. -/
inductive Delivers : List RolloutItem → Prop
  | nil : Delivers []
  | plain {items : List RolloutItem} (item : RolloutItem) : Delivers items →
      (∀ t, item ≠ .interAgentCommunicationMetadata t) → Delivers (items ++ [item])
  | message {items : List RolloutItem} (t : Bool) (id : Option Str) (author recipient : Str) (content : List Str) :
      Delivers items → Delivers (items ++ [.interAgentCommunicationMetadata t] ++
        [.responseItem (.agentMessage id author recipient content)])

theorem Delivers.not_noted (h : Delivers items) (item : ResponseItem) : hasDeliveryMetadata items.getLast? item = false := by
  refine and_eq_false_iff.2 (.inr ((Option.any_eq_false _ _).2 fun last hlast => ?_))
  cases h with
  | nil => cases hlast
  | plain item _ hitem =>
    rw [getLast?_concat, Option.some.injEq] at hlast
    split
    · exact absurd hlast (hitem _)
    · rfl
  | message =>
    rw [getLast?_concat] at hlast
    cases hlast
    rfl

/-- **What the loop over the fork turns keeps**: its lists are those of the instructions and of the fork turns. -/
structure Forks (texts : TurnTexts env) (items : List RolloutItem) : Prop where
  lists : enumerate (forkStep texts) ([], []) items =
    ((instructions texts items).map position, survivingForkTurns texts items)
  sorted : (recorded texts items).Pairwise (fun a b => a.position < b.position)
  bounded : ∀ e ∈ recorded texts items, e.position < items.length
  boundary : ∀ e ∈ recorded texts items, e.forks = true → isUserTurnBoundary env e.item = true

theorem filter_position_lt {l : List Recorded} (h : l.Pairwise (fun a b => a.position < b.position)) {k : Nat}
    {b : Recorded} (hb : l[k]? = some b) : l.filter (fun e => decide (e.position < b.position)) = l.take k := by
  obtain ⟨hk, hget⟩ := List.getElem?_eq_some_iff.1 hb
  have hl : l = l.take k ++ b :: l.drop (k + 1) := by
    rw [← hget, getElem_cons_drop, take_append_drop]
  have hsorted := h
  rw [hl, pairwise_append, pairwise_cons] at hsorted
  obtain ⟨-, ⟨hright, -⟩, hleft⟩ := hsorted
  conv => lhs; rw [hl]
  rw [filter_append, filter_eq_self.2 fun e he => ?_, filter_eq_nil_iff.2 fun e he => ?_, append_nil]
  · rcases mem_cons.1 he with rfl | he
    · simp
    · have := hright e he
      simp only [decide_eq_true_eq]
      omega
  · exact decide_eq_true (hleft e he b mem_cons_self)

theorem Forks.extend (h : Forks texts items) (hmore : 0 < more.length) (e : Option Recorded)
    (hpos : ∀ a ∈ e, a.position = items.length) (hforks : ∀ a ∈ e, a.forks → isUserTurnBoundary env a.item)
    (hrec : recorded texts (items ++ more) = recorded texts items ++ e.toList)
    (hstep : enumerate (forkStep texts) ([], []) (items ++ more) = ((enumerate (forkStep texts) ([], []) items).1 ++
          (e.toList.filter (fun a => isUserTurnBoundary env a.item)).map position,
        (enumerate (forkStep texts) ([], []) items).2 ++ (e.toList.filter forks).map position)) :
    Forks texts (items ++ more) := by
  have hmem : ∀ a ∈ recorded texts (items ++ more), a ∈ recorded texts items ∨ a ∈ e := fun a ha => by
    rwa [hrec, mem_append, Option.mem_toList] at ha
  constructor
  · rw [hstep, h.lists, instructions, instructions, survivingForkTurns, survivingForkTurns, hrec, filter_append,
      filter_append, map_append, map_append]
  · rw [hrec, pairwise_append]
    refine ⟨h.sorted, by cases e <;> simp, fun a ha b hb => ?_⟩
    rw [hpos b (Option.mem_toList.1 hb)]
    exact h.bounded a ha
  · intro a ha
    rw [length_append]
    rcases hmem a ha with ha | ha
    · exact Nat.lt_add_right _ (h.bounded a ha)
    · rw [hpos a ha]
      exact Nat.lt_add_of_pos_right hmore
  · exact fun a ha => (hmem a ha).elim (h.boundary a) (hforks a)

theorem Forks.rollback (h : Forks texts items) (n : Nat) : Forks texts (items ++ [.eventMsg (.threadRolledBack n)]) := by
  have hrec : recorded texts (items ++ [.eventMsg (.threadRolledBack n)]) <+: recorded texts items := by
    rw [recorded_concat, recordStep]
    exact take_prefix _ _
  refine ⟨?_, h.sorted.sublist hrec.sublist, fun e he => ?_, fun e he => h.boundary e (hrec.subset he)⟩
  · have hforks : survivingForkTurns texts (items ++ [.eventMsg (.threadRolledBack n)]) =
        (((instructions texts items).take ((instructions texts items).length - n)).filter forks).map position := by
      rw [← instructions_rollback, survivingForkTurns, filter_instructions fun e he => h.boundary e (hrec.subset he)]
    rw [enumerate_concat, h.lists, instructions_rollback, hforks, survivingForkTurns, filter_instructions h.boundary, forkStep]
    have hsorted : (instructions texts items).Pairwise (fun a b => a.position < b.position) :=
      h.sorted.sublist filter_sublist
    generalize instructions texts items = l at hsorted ⊢
    -- past the first instruction the rollback starts at the first
    have hstart : (if n ≤ (l.map position).length then
        (l.map position)[(l.map position).length - n]? else (l.map position).head?) =
        (l[l.length - n]?).map position := by
      rw [length_map, head?_eq_getElem?, getElem?_map, getElem?_map]
      split
      · rfl
      · rw [Nat.sub_eq_zero_of_le (by omega)]
    by_cases hn : n = 0
    · simp [hn]
    rw [if_neg hn]
    rw [hstart]
    cases hb : l[l.length - n]? with
    | none =>
      have hnil : l = [] := length_eq_zero_iff.1 (by have := getElem?_eq_none_iff.1 hb; omega)
      simp [hnil]
    | some =>
      have hcut := filter_position_lt hsorted hb
      simp only [Option.map_some, length_map, ← map_take, filter_map, ← hcut, filter_filter, Function.comp_def, Bool.and_comm]
  · rw [length_append]
    exact Nat.lt_add_right _ (h.bounded e (hrec.subset he))

/-- **The fork turns found are those that survive.** -/
theorem Delivers.forks (h : Delivers items) : Forks texts items := by
  induction h with
  | nil => exact ⟨rfl, List.Pairwise.nil, forall_mem_nil _, forall_mem_nil _⟩
  | @plain items item hd hitem ih =>
    have hquiet : (∀ h, recordStep texts items.getLast? items.length h item = h) →
        (∀ s, forkStep texts items.getLast? items.length s item = s) → Forks texts (items ++ [item]) := fun hrec hstep =>
      ih.extend one_pos none (by simp) (by simp) (by rw [recorded_concat, hrec]; simp) (by rw [enumerate_concat, hstep]; simp)
    cases item with
    | responseItem item =>
      have hnote := hd.not_noted item
      have hdeliver : deliver texts items.getLast? items.length item = _ := if_neg (by rw [hnote]; nofun)
      have hforks : (isRealUserMessageBoundary texts item || isTriggerTurnBoundary texts item) →
          isUserTurnBoundary env item := fun h =>
        (or_eq_true_iff.1 h).elim isUserTurnBoundary_of_user isUserTurnBoundary_of_trigger
      cases hapi : isApiMessage item with
      | true =>
        refine ih.extend one_pos (some (deliver texts items.getLast? items.length item)) ?_ ?_ ?_ ?_
        · exact fun a ha => by cases ha; rw [hdeliver]
        · intro a ha
          cases ha
          rw [hdeliver, isUserTurnBoundary_processItem]
          exact hforks
        · rw [recorded_concat, recordStep, hapi]
          rfl
        · rw [enumerate_concat, forkStep, hnote, hdeliver]
          cases hb : isUserTurnBoundary env item <;>
            cases hf : (isRealUserMessageBoundary texts item || isTriggerTurnBoundary texts item) <;> simp [hb]
      | false =>
        have hb : isUserTurnBoundary env item = false := eq_false_iff.2 fun hb => by
          rw [isApiMessage_of_boundary env hb] at hapi
          cases hapi
        have hf := eq_false_iff.2 fun h => by rw [hforks h] at hb; cases hb
        exact hquiet (fun h => by rw [recordStep, hapi]; rfl) fun s => by rw [forkStep, hb, hf]; rfl
    | interAgentCommunication c =>
      have hb : isUserTurnBoundary env c.toModelInputItem := rfl
      refine ih.extend one_pos (some ⟨items.length, c.toModelInputItem, c.triggerTurn⟩) (by simp) ?_ (recorded_concat _ _) ?_
      · exact fun a ha _ => by cases ha; exact hb
      · rw [enumerate_concat, forkStep]
        cases c.triggerTurn <;> simp [hb]
    | eventMsg event =>
      cases event with
      | threadRolledBack n => exact ih.rollback n
      | _ => exact hquiet (fun _ => rfl) fun _ => rfl
    | interAgentCommunicationMetadata t => exact absurd rfl (hitem t)
    | _ => exact hquiet (fun _ => rfl) fun _ => rfl
  | @message items t id author recipient content hd ih =>
    rw [append_assoc]
    refine ih.extend (by simp) (some ⟨items.length, .agentMessage id author recipient content, t⟩) (by simp)
      (fun a ha _ => by cases ha; rfl) ?_ ?_
    · rw [← append_assoc, recorded_concat, recorded_concat, getLast?_concat, length_append]
      rfl
    · rw [← append_assoc, enumerate_concat, enumerate_concat, getLast?_concat, length_append]
      cases t <;> simp [forkStep, hasDeliveryMetadata, isUserTurnBoundary, isRealUserMessageBoundary, isTriggerTurnBoundary]

/-- **The turns that survive, found from the rollout.**  For a rollout without compactions: the items recorded are the
replayed history; the user messages found, in it and wherever it is cut, are those that survive exactly if each rollback
takes users; the fork turns found are those that survive, where every note of a delivery is followed by its message; and
cut before the `n`th user message, the rollout keeps the first `n`. -/
theorem rollout_positions_exact {Snapshot : Type} (env : ReplayEnv Snapshot) (texts : TurnTexts env.toEnv)
    (items : List RolloutItem) (hc : ∀ compacted, .compacted compacted ∉ items) :
    (recorded texts items).map item = replay env [] items ∧
    ((∀ before, before <+: items → userMessagePositionsInRollout texts before = survivingUserMessages texts before) ↔
      ∀ before n, before ++ [.eventMsg (.threadRolledBack n)] <+: items → TakesUsers texts before n) ∧
    (Delivers items → forkTurnPositionsInRollout texts items = survivingForkTurns texts items) ∧
    ((∀ before n, before ++ [.eventMsg (.threadRolledBack n)] <+: items → TakesUsers texts before n) →
      ∀ n, survivingUserMessages texts (truncateRolloutBeforeNthUserMessageFromStart texts items n) =
        (survivingUserMessages texts items).take n) := by
  refine ⟨map_item_recorded env texts hc, agrees_iff, fun h => ?_, fun htakes n => ?_⟩
  · rw [forkTurnPositionsInRollout, h.forks.lists]
  · have hagree := agrees_iff.2 htakes
    have hall : userMessagePositionsInRollout texts items = survivingUserMessages texts items :=
      hagree items prefix_rfl
    rw [← hall, truncateRolloutBeforeNthUserMessageFromStart]
    cases hn : (userMessagePositionsInRollout texts items)[n]? with
    | none => rw [take_of_length_le (getElem?_eq_none_iff.1 hn), hall]
    | some cut => exact (hagree _ ( take_prefix cut items)).symm.trans (userMessagePositions_take hn).2

def plainTexts : TurnTexts plainEnv.toEnv where
  isHookPrompt _ := false
  contextual_of_isHookPrompt := nofun
  triggerTurn _ := none
  isSome_triggerTurn _ := rfl

def agentRollback : List RolloutItem :=
  [.responseItem (textMessage user ['q']), .interAgentCommunication ⟨none, ['a'], ['b'], ['c'], none, true⟩,
    .eventMsg (.threadRolledBack 1)]

theorem rollout_positions_exact_agentRollback :
    (recorded plainTexts agentRollback).map item = replay plainEnv [] agentRollback ∧
      forkTurnPositionsInRollout plainTexts agentRollback = survivingForkTurns plainTexts agentRollback := by
  obtain ⟨hhistory, -, hforks, -⟩ := rollout_positions_exact plainEnv plainTexts agentRollback
    (fun compacted h => by simp [agentRollback] at h)
  exact ⟨hhistory, hforks (.plain (.eventMsg _) (.plain (.interAgentCommunication _) (.plain (.responseItem _) .nil nofun) nofun) nofun)⟩

/-- **The agent's instruction is rolled back, and the user message is not found any more.** -/
theorem user_message_lost : survivingUserMessages plainTexts agentRollback = [0] ∧
    userMessagePositionsInRollout plainTexts agentRollback = [] := by
  decide

end Owc.Rollout
