import OpenWebCodex.ThreadMerge
import OpenWebCodex.ThreadPrepare
import OpenWebCodex.ThreadReducer
import OpenWebCodex.Transition
/-!
# ThreadStream — the text that a stream of deltas leaves

Five actions append a delta to an item of a thread.  Whatever the deltas are, the text that is left is at most as long as
their concatenation, and it is the concatenation exactly when every delta joins the text it finds (`Fits`).
-/
namespace Owc.Threads

open List ThreadState Nat
open Js (Text lit)

/-- The text of an item that a stream goes to. -/
inductive Channel
  | agent (workspaceId : Text)
  | reasoningSummary
  | reasoningContent
  | plan
  | toolOutput
deriving DecidableEq

structure Delta where
  text : Text
  hasCustomName : Bool

namespace Channel

def append (c : Channel) (threadId itemId : Text) (d : Delta) : ThreadAction :=
  match c with
  | agent workspaceId => .appendAgentDelta workspaceId threadId itemId d.text d.hasCustomName
  | reasoningSummary => .appendReasoningSummary threadId itemId d.text
  | reasoningContent => .appendReasoningContent threadId itemId d.text
  | plan => .appendPlanDelta threadId itemId d.text
  | toolOutput => .appendToolOutput threadId itemId d.text

def textOf : Channel → Option Body → Text
  | agent _, some (.message _ text _) => text
  | reasoningSummary, some (.reasoning summary _) => summary
  | reasoningContent, some (.reasoning _ content) => content
  | plan, some (.tool t) => t.output.getD []
  | toolOutput, some (.tool t) => t.output.getD []
  | _, _ => []

end Channel

def ThreadState.streamed (s : ThreadState) (c : Channel) (threadId itemId : Text) : Text :=
  c.textOf (bodyOf (s.items threadId) itemId)

def roleOf : Option Body → Role
  | some (.message role _ _) => role
  | _ => .assistant

def imagesOf : Option Body → Option (List Text)
  | some (.message _ _ images) => images
  | _ => none

def repeatsReview (list : List Item) (itemId text : Text) : Bool :=
  echoesReview (keptItems (list.takeWhile (fun item => item.id != itemId))).getLast?
    ⟨itemId, .message (roleOf (bodyOf list itemId)) text (imagesOf (bodyOf list itemId))⟩

/-- **The delta is appended as it is**: it joins the text, and for a message the two together begin with no sentinel and
do not repeat the review before them. -/
def Fits (c : Channel) (threadId itemId : Text) (s : ThreadState) (d : Delta) : Prop :=
  Joins (s.streamed c threadId itemId) d.text ∧
    match c with
    | .agent _ =>
      stripLeadingProviderSentinel (s.streamed c threadId itemId ++ d.text) = s.streamed c threadId itemId ++ d.text ∧
        (s.streamed c threadId itemId ++ d.text = [] ∨
          repeatsReview (s.items threadId) itemId (s.streamed c threadId itemId ++ d.text) = false)
    | _ => True

instance (c : Channel) (threadId itemId : Text) (s : ThreadState) (d : Delta) : Decidable (Fits c threadId itemId s d) :=
  match c with
  | .agent _ => inferInstanceAs (Decidable (_ ∧ _ ∧ (_ ∨ _)))
  | .reasoningSummary | .reasoningContent | .plan | .toolOutput => inferInstanceAs (Decidable (_ ∧ True))

/-- A body that the channel writes to, with `k` items behind it and room for a text of `limit` units. -/
def Channel.Accepts (explore : Explore) (limit k : Nat) : Channel → Item → Prop
  | agent _, item => (∃ role text images, item.body = .message role text images) ∧ limit ≤ maxItemText
  | toolOutput, item => ∃ t, item.body = .tool t ∧ explorationOf explore (normalizeItem item) = none ∧
      (limit ≤ maxItemText ∨ (isLargeTool t.toolType = true ∧ k < toolOutputRecentItems ∧ limit ≤ maxLargeToolText))
  | _, _ => limit ≤ maxItemText

/-- **The item can take a stream of `limit` units**: the thread is within its scrollback and has no item of the id (a tool
must be there), or one that the channel writes to. -/
structure Ready (explore : Explore) (c : Channel) (threadId itemId : Text) (limit : Nat) (s : ThreadState) : Prop where
  within : Within s.maxItemsPerThread (s.items threadId).length
  item : (Absent (s.items threadId) itemId ∧ c ≠ .toolOutput ∧ limit ≤ maxItemText) ∨
    ∃ item k, item.id = itemId ∧ Holds (s.items threadId) item k ∧ c.Accepts explore limit k item

/-! ## Writing an item -/

theorem find?_absent {id} (h : Absent list id) : list.find? (·.id == id) = none :=
  find?_eq_none.2 fun item hi heq => h item hi (by simpa using heq)

theorem bodyOf_absent {id} (h : Absent list id) : bodyOf list id = none := by
  rw [bodyOf, find?_absent h]
  rfl

theorem bodyOf_append (h : Absent front item.id) :
    bodyOf (front ++ item :: back) item.id = some item.body := by
  rw [bodyOf, find?_append, find?_absent h, Option.none_or, find?_cons_of_pos (by simp)]
  rfl

theorem bodyOf_holds (h : Holds list item k) : bodyOf list item.id = some item.body := by
  obtain ⟨_, _, rfl, hfront, _, _⟩ := h
  exact bodyOf_append hfront

theorem putItem_absent {id} (body : Body) (h : Absent list id) : putItem list id body = list ++ [⟨id, body⟩] := by
  induction list with
  | nil => rfl
  | cons item list ih =>
    have hne : (item.id == id) = false := by simpa using h item mem_cons_self
    unfold putItem
    rw [hne, ih fun i hi => h i (mem_cons_of_mem _ hi)]
    rfl

theorem putItem_append {id} (body : Body) (hid : item.id = id)
    (h : Absent front id) : putItem (front ++ item :: back) id body = front ++ ⟨id, body⟩ :: back := by
  induction front with
  | nil =>
    unfold putItem
    simp [hid]
  | cons i front ih =>
    have hne : (i.id == id) = false := by simpa using h i mem_cons_self
    rw [cons_append]
    unfold putItem
    rw [hne, ih fun i hi => h i (mem_cons_of_mem _ hi)]
    rfl

theorem takeWhile_absent {id} (h : Absent front id) (rest : List Item)
    (hrest : ∀ item, rest.head? = some item → item.id = id) :
    (front ++ rest).takeWhile (fun item => item.id != id) = front := by
  rw [takeWhile_append_of_pos fun item hi => by simpa using h item hi]
  cases rest with
  | nil => simp
  | cons item =>
    rw [takeWhile_cons_of_neg (by simp [hrest item rfl]), append_nil]

def planned (body : Option Body) : Tool :=
  { planBase body with
    toolType := lit "plan"
    title := lit "Plan"
    detail := lit "Generating plan..."
    status := some (lit "in_progress") }

def Channel.write : Channel → Option Body → Text → Body
  | agent _, body, text => .message (roleOf body) text (imagesOf body)
  | reasoningSummary, body, text => .reasoning text (reasoningOf body).2
  | reasoningContent, body, text => .reasoning (reasoningOf body).1 text
  | plan, body, text => .tool { planned body with output := some text }
  | toolOutput, body, text => .tool { planBase body with output := some text }

/-- What the preparation leaves of a text within its limit. -/
def Channel.clean : Channel → Text → Text
  | agent _, text => stripLeadingProviderSentinel text
  | _, text => text

theorem Channel.clean_eq_or_lt (c : Channel) (text : Text) : c.clean text = text ∨ (c.clean text).length < text.length := by
  cases c with
  | agent => exact strip_eq_or_lt text
  | _ => exact .inl rfl

/-- What is there for the channel: nothing, or an item it writes to. -/
def Channel.Finds (explore : Explore) (limit k : Nat) (c : Channel) (id : Text) (body : Option Body) : Prop :=
  (body = none ∧ c ≠ .toolOutput ∧ limit ≤ maxItemText) ∨ ∃ b, body = some b ∧ c.Accepts explore limit k ⟨id, b⟩

/-- An item after the preparation, old or not. -/
def Prepared (item item' : Item) (k : Nat) : Prop :=
  item' = normalizeItem item ∨ (item' = truncateOld (normalizeItem item) ∧ toolOutputRecentItems ≤ k)

section Written

variable {explore : Explore} {limit k : Nat} {id : Text} {body : Option Body} {text : Text}

theorem length_strip_le (text : Text) : (stripLeadingProviderSentinel text).length ≤ text.length := by
  rcases strip_eq_or_lt text with h | h
  · rw [h]
  · exact Nat.le_of_lt h

theorem length_truncateText (text : Text) (h : 3 ≤ n) : (truncateText text n).length ≤ n := by
  unfold truncateText
  by_cases hn : text.length ≤ n
  · rwa [if_pos hn]
  · have : (lit "...").length = 3 := by decide
    rw [if_neg hn, length_append, length_take, this]
    omega

@[simp] theorem truncateText_idem (text : Text) (n : Nat) : truncateText (truncateText text n) n = truncateText text n := by
  rcases lt_or_ge n 3 with hn | hn
  · unfold truncateText
    split
    · simp [*]
    · rw [Nat.sub_eq_zero_of_le (Nat.le_of_lt hn)]
      exact ite_self _
  · exact truncateText_of_le (length_truncateText text hn)

theorem truncateToolText_of_le (h : text.length ≤ maxItemText) : truncateToolText toolType text = text := by
  have : maxItemText ≤ maxLargeToolText := by decide
  refine truncateText_of_le ?_
  split <;> omega

theorem limit_le_of_finds {c : Channel} (hc : c ≠ .toolOutput) (h : c.Finds explore limit k id body) : limit ≤ maxItemText := by
  rcases h with ⟨_, _, h⟩ | ⟨b, _, h⟩
  · exact h
  cases c with
  | agent => exact h.2
  | toolOutput => exact absurd rfl hc
  | _ => exact h

theorem explorationOf_write {c : Channel} (h : c.Finds explore limit k id body) :
    explorationOf explore (normalizeItem ⟨id, c.write body text⟩) = none := by
  cases c with
  | toolOutput =>
    rcases h with ⟨_, h, _⟩ | ⟨b, rfl, t, hb, hexplore, _⟩
    · exact absurd rfl h
    · subst hb
      exact hexplore
  | _ => rfl

theorem prepared_agent {w : Text} (h : Channel.Finds explore limit k (.agent w) id body)
    (ht : text.length ≤ limit) (hp : Prepared ⟨id, Channel.write (.agent w) body text⟩ item' k) :
    Channel.textOf (.agent w) (some item'.body) = stripLeadingProviderSentinel text ∧
      Channel.Accepts explore limit k (.agent w) item' := by
  have hlimit := limit_le_of_finds (by simp) h
  have hlen := length_strip_le text
  have hbody : item'.body = .message (roleOf body) (stripLeadingProviderSentinel text) (imagesOf body) := by
    have htrunc : truncateText (stripLeadingProviderSentinel text) maxItemText = stripLeadingProviderSentinel text :=
      truncateText_of_le (by omega)
    rcases hp with rfl | ⟨rfl, _⟩ <;> exact congrArg (Body.message _ · _) htrunc
  rw [hbody]
  exact ⟨rfl, ⟨_, _, _, hbody⟩, hlimit⟩

theorem prepared_tool {t : Tool} (hp : Prepared ⟨id, .tool { t with output := some text }⟩ item' k)
    (ht : text.length ≤ maxItemText ∨ (isLargeTool t.toolType ∧ k < toolOutputRecentItems ∧ text.length ≤ maxLargeToolText)) :
    ∃ t', item'.body = .tool t' ∧ t'.output = some text ∧ t'.toolType = t.toolType ∧ t'.status = t.status ∧
      t'.title = truncateText t.title 200 := by
  have hnorm : truncateToolText t.toolType text = text := by
    rcases ht with ht | ⟨hl, _, ht⟩
    · exact truncateToolText_of_le ht
    · refine truncateText_of_le ?_
      rwa [if_pos hl]
  rcases hp with rfl | ⟨rfl, hold⟩
  · refine ⟨_, rfl, ?_, rfl, rfl, rfl⟩
    exact congrArg some hnorm
  have ht : text.length ≤ maxItemText := by
    rcases ht with ht | ⟨_, hk, _⟩
    · exact ht
    · omega
  refine ⟨_, rfl, ?_, rfl, rfl, rfl⟩
  change some (truncateText (truncateToolText t.toolType text) maxItemText) = some text
  rw [hnorm, truncateText_of_le ht]

theorem prepared_write {c : Channel} (h : c.Finds explore limit k id body) (ht : text.length ≤ limit)
    (hp : Prepared ⟨id, c.write body text⟩ item' k) :
    c.textOf (some item'.body) = c.clean text ∧ c.Accepts explore limit k item' := by
  cases c with
  | agent => exact prepared_agent h ht hp
  | reasoningSummary | reasoningContent =>
    have hlimit := limit_le_of_finds (by simp) h
    refine ⟨?_, hlimit⟩
    have htrunc : truncateText text maxItemText = text := truncateText_of_le (by omega)
    rcases hp with rfl | ⟨rfl, _⟩ <;> exact htrunc
  | plan =>
    have hlimit := limit_le_of_finds (by simp) h
    obtain ⟨t', hbody, hout, _⟩ := prepared_tool (t := planned body) hp (.inl (le_trans ht hlimit))
    exact ⟨by simp [hbody, Channel.textOf, hout, Channel.clean], hlimit⟩
  | toolOutput =>
    rcases h with ⟨_, h, _⟩ | ⟨b, rfl, t, hb, hexplore, hlimit⟩
    · exact absurd rfl h
    subst hb
    obtain ⟨t', hbody, hout, htype, hstatus, htitle⟩ := prepared_tool hp (by
      rcases hlimit with hl | ⟨hl, hk, hl'⟩
      · exact .inl (le_trans ht hl)
      · exact .inr ⟨hl, hk, le_trans ht hl'⟩)
    refine ⟨by simp [hbody, Channel.textOf, hout, Channel.clean], t', hbody, ?_, by rwa [htype]⟩
    · obtain ⟨_, _⟩ := item'
      subst hbody
      change (if (t'.toolType == lit "commandExecution") = true then explore (truncateText t'.title 200) t'.status else none) =
        none
      rw [htype, hstatus, htitle, truncateText_idem]
      exact hexplore

end Written

/-! ## One delta -/

@[simp] theorem items_setItems (explore : Explore) (s : ThreadState) (threadId : Text) (items : List Item) :
    (setItems explore s threadId items).items threadId = prepareThreadItems explore s.maxItemsPerThread items := by
  unfold ThreadState.items setItems
  simp

theorem itemsByThread_mapThreads (s : ThreadState) (workspaceId : Text) (f : ThreadSummary → ThreadSummary) :
    (mapThreads s workspaceId f).itemsByThread = s.itemsByThread ∧
      (mapThreads s workspaceId f).maxItemsPerThread = s.maxItemsPerThread := by
  unfold mapThreads
  split <;> exact ⟨rfl, rfl⟩

theorem items_setMessage (explore : Explore) (s : ThreadState) (workspaceId threadId itemId : Text) (list : List Item)
    (hasCustomName : Bool) :
    (setMessage explore s workspaceId threadId itemId list hasCustomName).items threadId =
        prepareThreadItems explore s.maxItemsPerThread list ∧
      (setMessage explore s workspaceId threadId itemId list hasCustomName).maxItemsPerThread = s.maxItemsPerThread := by
  unfold setMessage maybeRenameThreadFromAgent
  dsimp only
  have hset := items_setItems explore s threadId list
  split
  · exact ⟨hset, rfl⟩
  split
  · exact ⟨hset, rfl⟩
  rename_i name _
  have h := itemsByThread_mapThreads (setItems explore s threadId list) workspaceId fun thread =>
    if thread.id == threadId && looksAutoGeneratedThreadName thread.name then { thread with name := name } else thread
  refine ⟨?_, h.2⟩
  unfold ThreadState.items
  rw [h.1]
  exact hset

/-- Every channel writes the merged text in the place of the item, or at the end. -/
theorem items_append {c : Channel}
    (hfinds : c.Finds explore limit k itemId (bodyOf (s.items threadId) itemId))
    (habsent : bodyOf (s.items threadId) itemId = none → Absent (s.items threadId) itemId) (d : Delta) :
    (threadReducer explore s (c.append threadId itemId d)).items threadId =
        prepareThreadItems explore s.maxItemsPerThread (putItem (s.items threadId) itemId
          (c.write (bodyOf (s.items threadId) itemId) (mergeStreamingText (s.streamed c threadId itemId) d.text))) ∧
      (threadReducer explore s (c.append threadId itemId d)).maxItemsPerThread = s.maxItemsPerThread := by
  unfold streamed
  cases c with
  | agent w =>
    have hlist : writeMessage (s.items threadId) itemId (mergeStreamingText · d.text) (stripLeadingProviderSentinel d.text) =
        putItem (s.items threadId) itemId (Channel.write (.agent w) (bodyOf (s.items threadId) itemId)
          (mergeStreamingText (Channel.textOf (.agent w) (bodyOf (s.items threadId) itemId)) d.text)) := by
      unfold writeMessage
      rcases hfinds with ⟨hnone, _⟩ | ⟨b, hb, ⟨role, text, images, hbody⟩, _⟩
      · rw [hnone, putItem_absent _ (habsent hnone)]
        change _ = s.items threadId ++ [(⟨itemId, .message .assistant (mergeStreamingText [] d.text) none⟩ : Item)]
        rw [mergeStreamingText_nil]
      · change b = _ at hbody
        rw [hb, hbody]
        rfl
    rw [← hlist]
    exact items_setMessage explore s w threadId itemId _ d.hasCustomName
  | reasoningSummary | reasoningContent | plan =>
    refine ⟨(items_setItems explore s threadId _).trans ?_, rfl⟩
    cases bodyOf (s.items threadId) itemId with
    | none => rfl
    | some b => cases b <;> rfl
  | toolOutput =>
    rcases hfinds with ⟨_, h, _⟩ | ⟨b, hb, t, hbody, _⟩
    · exact absurd rfl h
    subst hbody
    simp only [Channel.append, threadReducer, appendToolOutput, hb]
    exact ⟨items_setItems explore s threadId _, rfl⟩

section Step

variable {explore : Explore} {c : Channel} {threadId itemId : Text} {limit : Nat} {s : ThreadState} {d : Delta}

theorem Ready.split (h : Ready explore c threadId itemId limit s) :
    ∃ front back k, Absent front itemId ∧ Absent back itemId ∧ back.length ≤ k ∧
      (s.items threadId).takeWhile (fun item => item.id != itemId) = front ∧
      (∀ body, putItem (s.items threadId) itemId body = front ++ ⟨itemId, body⟩ :: back) ∧
      (∀ body, Within s.maxItemsPerThread (front ++ (⟨itemId, body⟩ : Item) :: back).length ∨ back = []) ∧
      c.Finds explore limit k itemId (bodyOf (s.items threadId) itemId) ∧
      (bodyOf (s.items threadId) itemId = none → Absent (s.items threadId) itemId) := by
  rcases h.item with ⟨habs, hc, hl⟩ | ⟨⟨id, b⟩, k, hid, hholds, hacc⟩
  · refine ⟨s.items threadId, [], 0, habs, by simp [Absent], le_refl 0, ?_, fun body => putItem_absent body habs,
      fun _ => .inr rfl, .inl ⟨bodyOf_absent habs, hc, hl⟩, fun _ => habs⟩
    have := takeWhile_absent habs [] (by simp)
    rwa [append_nil] at this
  subst hid
  have hb := bodyOf_holds hholds
  obtain ⟨front, back, hlist, hfront, hback, hk⟩ := hholds
  have hwithin := h.within
  rw [hlist] at hwithin hb ⊢
  refine ⟨front, back, k, hfront, hback, hk, takeWhile_absent hfront _ (by simp), fun body => putItem_append body rfl hfront,
    fun body => .inl ?_, .inr ⟨b, hb, hacc⟩, fun hnone => ?_⟩
  · simpa using hwithin
  · rw [hb] at hnone
    cases hnone

theorem echoesReview_write (text : Text)
    (hfront : (s.items threadId).takeWhile (fun item => item.id != itemId) = front) :
    echoesReview (keptItems front).getLast? ⟨itemId, c.write (bodyOf (s.items threadId) itemId) text⟩ =
      match c with
      | .agent _ => repeatsReview (s.items threadId) itemId text
      | _ => false := by
  cases c with
  | agent =>
    unfold repeatsReview
    rw [hfront]
    rfl
  | _ => rfl

section

variable (h : Ready explore c threadId itemId limit s) (hlen : (s.streamed c threadId itemId).length + d.text.length ≤ limit)
  {s' : ThreadState} (hs' : threadReducer explore s (c.append threadId itemId d) = s')
include h hlen hs'

/-- A delta leaves the item ready for the next one.  A message that now repeats the review before it is gone; any other
text is the merged one. -/
theorem append_outcome {text : Text} (hmerge : mergeStreamingText (s.streamed c threadId itemId) d.text = text) :
    Ready explore c threadId itemId limit s' ∧
    ((∃ w, c = .agent w ∧ repeatsReview (s.items threadId) itemId text ∧ s'.streamed c threadId itemId = []) ∨
      ((∀ w, c = .agent w → repeatsReview (s.items threadId) itemId text = false) ∧
        s'.streamed c threadId itemId = c.clean text)) := by
  obtain ⟨front, back, k, hfront, hback, hk, hwhile, hput, hroom, hfinds, habsent⟩ := h.split
  obtain ⟨hitems, hmax⟩ := items_append hfinds habsent d
  have hecho := echoesReview_write (c := c) text hwhile
  rw [hput, hmerge, hs'] at hitems
  rw [hs'] at hmax
  have hwithin : Within s'.maxItemsPerThread (s'.items threadId).length := by
    rw [hitems, hmax]
    exact within_prepareThreadItems _ _ _
  have htext : text.length ≤ limit := by
    have h1 := length_mergeStreamingText_le (s.streamed c threadId itemId) d.text
    have h2 := length_strip_le d.text
    rw [hmerge] at h1
    omega
  by_cases he : echoesReview (keptItems front).getLast? ⟨itemId, c.write (bodyOf (s.items threadId) itemId) text⟩
  · have hgone : Absent (s'.items threadId) itemId := by
      rw [hitems]
      exact prepareThreadItems_of_echo explore _ ⟨itemId, _⟩ hfront hback he
    have hnil : s'.streamed c threadId itemId = [] := by
      unfold streamed
      rw [bodyOf_absent hgone]
      cases c <;> rfl
    rw [hecho] at he
    cases c with
    | agent w =>
      exact ⟨⟨hwithin, .inl ⟨hgone, by simp, limit_le_of_finds (by simp) hfinds⟩⟩, .inl ⟨w, rfl, he, hnil⟩⟩
    | _ => cases he
  · obtain ⟨item', hprep, f, b, hl, hf, hb, hle⟩ := prepareThreadItems_keeps explore ⟨itemId, _⟩ hfront hback
      (Bool.eq_false_iff.2 he) (explorationOf_write hfinds) (hroom _)
    have hid : item'.id = itemId := by
      rcases hprep with rfl | ⟨rfl, _⟩
      · rfl
      · rw [id_truncateOld, id_normalizeItem]
    subst hid
    obtain ⟨hclean, haccepts⟩ := prepared_write hfinds htext (hprep.imp id fun h => ⟨h.1, le_trans h.2 hk⟩)
    have hholds : Holds (s'.items threadId) item' k := ⟨f, b, hitems.trans hl, hf, hb, le_trans hle hk⟩
    refine ⟨⟨hwithin, .inr ⟨item', k, rfl, hholds, haccepts⟩⟩, .inr ⟨?_, ?_⟩⟩
    · rintro w rfl
      rw [hecho] at he
      exact Bool.eq_false_iff.2 he
    · unfold streamed
      rw [bodyOf_holds hholds, hclean]

/-- **What one delta does**: the item is ready for the next one, and its text is the old one with the delta appended, or
shorter. -/
theorem step_append : Ready explore c threadId itemId limit s' ∧
    ((Fits c threadId itemId s d ∧ s'.streamed c threadId itemId = s.streamed c threadId itemId ++ d.text) ∨
      (¬ Fits c threadId itemId s d ∧
        (s'.streamed c threadId itemId).length < (s.streamed c threadId itemId).length + d.text.length)) := by
  obtain ⟨hready, hout⟩ := append_outcome h hlen hs' rfl
  refine ⟨hready, ?_⟩
  by_cases hj : Joins (s.streamed c threadId itemId) d.text
  · rw [mergeStreamingText_of_joins hj] at hout
    rcases hout with ⟨w, rfl, hrep, hnil⟩ | ⟨hrep, hclean⟩
    · rw [hnil]
      by_cases hzero : s.streamed (.agent w) threadId itemId ++ d.text = []
      · refine .inl ⟨⟨hj, ?_, .inl hzero⟩, hzero.symm⟩
        rw [hzero]
        rfl
      · refine .inr ⟨?_, ?_⟩
        · rintro ⟨_, _, hno⟩
          rw [hno.resolve_left hzero] at hrep
          cases hrep
        · rw [← length_append]
          exact length_pos_of_ne_nil hzero
    · rw [hclean, ← length_append]
      cases c with
      | agent w =>
        rcases strip_eq_or_lt (s.streamed (.agent w) threadId itemId ++ d.text) with hs | hs
        · exact .inl ⟨⟨hj, hs, .inr (hrep w rfl)⟩, hs⟩
        refine .inr ⟨?_, hs⟩
        rintro ⟨_, hs', _⟩
        rw [hs'] at hs
        exact lt_irrefl _ hs
      | _ => exact .inl ⟨⟨hj, trivial⟩, rfl⟩
  · have hlt := length_mergeStreamingText_lt hj
    refine .inr ⟨fun hf => hj hf.1, ?_⟩
    rcases hout with ⟨_, _, _, hnil⟩ | ⟨_, hclean⟩
    · rw [hnil]
      exact lt_of_le_of_lt (zero_le _) hlt
    rw [hclean]
    rcases c.clean_eq_or_lt (mergeStreamingText (s.streamed c threadId itemId) d.text) with hc | hc
    · rwa [hc]
    · exact lt_trans hc hlt

end

end Step

/-! ## A stream of deltas -/

def streamStep (explore : Explore) (c : Channel) (threadId itemId : Text) (s : ThreadState) (d : Delta) :
    Option ThreadState :=
  some (threadReducer explore s (c.append threadId itemId d))

def stream (explore : Explore) (c : Channel) (threadId itemId : Text) (s : ThreadState) (deltas : List Delta) : ThreadState :=
  deltas.foldl (fun s d => threadReducer explore s (c.append threadId itemId d)) s

def concatenation (deltas : List Delta) : Text := deltas.flatMap (·.text)

theorem stream_from (deltas : List Delta) : ∀ {s}, Ready explore c threadId itemId limit s →
      (s.streamed c threadId itemId).length + (concatenation deltas).length ≤ limit →
      ((stream explore c threadId itemId s deltas).streamed c threadId itemId).length ≤
          (s.streamed c threadId itemId).length + (concatenation deltas).length ∧
        ((stream explore c threadId itemId s deltas).streamed c threadId itemId =
            s.streamed c threadId itemId ++ concatenation deltas ↔
          Transition.Meets (streamStep explore c threadId itemId) (Fits c threadId itemId) s deltas) := by
  induction deltas with
  | nil => simp [stream, concatenation, Transition.Meets]
  | cons d deltas ih =>
    intro s hready hlen
    have hcat : concatenation (d :: deltas) = d.text ++ concatenation deltas := rfl
    rw [hcat, length_append] at hlen
    obtain ⟨hready', hstep⟩ := step_append hready (d := d) (by omega) rfl
    have hmeets : Transition.Meets (streamStep explore c threadId itemId) (Fits c threadId itemId) s (d :: deltas) ↔
        Fits c threadId itemId s d ∧ Transition.Meets (streamStep explore c threadId itemId) (Fits c threadId itemId)
          (threadReducer explore s (c.append threadId itemId d)) deltas := by
      simp [Transition.Meets, streamStep]
    rw [hmeets, hcat]
    change (streamed (stream explore c threadId itemId (threadReducer explore s _) deltas) c threadId itemId).length
      ≤ _ ∧ (streamed (stream explore c threadId itemId (threadReducer explore s _) deltas) c threadId itemId = _ ↔ _)
    rcases hstep with ⟨hfit, htext⟩ | ⟨hfit, hlt⟩
    · obtain ⟨hle, hiff⟩ := ih hready' (by rw [htext, length_append]; omega)
      rw [htext, length_append] at hle
      rw [htext, append_assoc] at hiff
      refine ⟨by rw [length_append]; omega, hiff.trans ?_⟩
      exact ⟨fun h => ⟨hfit, h⟩, fun h => h.2⟩
    · -- what is lost here is never made up for
      obtain ⟨hle, _⟩ := ih hready' (by omega)
      refine ⟨by rw [length_append]; omega, fun heq => ?_, fun h => absurd h.1 hfit⟩
      rw [heq, length_append, length_append] at hle
      omega

/-- **A stream leaves the concatenation of its deltas exactly when every delta fits the text it finds.** -/
theorem stream_eq_concatenation_iff {explore : Explore} {c : Channel} {threadId itemId : Text} {s : ThreadState}
    {deltas : List Delta} (hready : Ready explore c threadId itemId (concatenation deltas).length s)
    (hstart : s.streamed c threadId itemId = []) :
    (stream explore c threadId itemId s deltas).streamed c threadId itemId = concatenation deltas ↔
      Transition.Meets (streamStep explore c threadId itemId) (Fits c threadId itemId) s deltas := by
  have h := (stream_from deltas hready (by rw [hstart, length_nil, zero_add])).2
  rwa [hstart, nil_append] at h

def toolState : ThreadState :=
  { initialState with itemsByThread := [(lit "t", [⟨lit "i", .tool
      ⟨lit "fileChange", lit "File changes", [], some (lit "inProgress"), none, none, none⟩⟩])] }

theorem ready_initialState (w : Text) (limit : Nat) (h : limit ≤ maxItemText) :
    Ready (fun _ _ => none) (.agent w) (lit "t") (lit "i") limit initialState :=
  ⟨fun _ _ => zero_le _, .inl ⟨nofun, nofun, h⟩⟩

theorem ready_toolState (limit : Nat) (h : limit ≤ maxLargeToolText) :
    Ready (fun _ _ => none) .toolOutput (lit "t") (lit "i") limit toolState := by
  refine ⟨?_, .inr ⟨_, 0, rfl, ⟨[], [], rfl, nofun, nofun, le_refl 0⟩, _, rfl, rfl, .inr ⟨by decide, by decide, h⟩⟩⟩
  intro m hm
  cases hm
  decide

theorem stream_good_day : (stream (fun _ _ => none) (.agent (lit "w")) (lit "t") (lit "i") initialState
      [⟨lit "Good", false⟩, ⟨lit " day", false⟩]).streamed (.agent (lit "w")) (lit "t") (lit "i") = lit "Good day" ∧
    (stream (fun _ _ => none) .toolOutput (lit "t") (lit "i") toolState
      [⟨lit "ok", false⟩, ⟨lit "\n", false⟩]).streamed .toolOutput (lit "t") (lit "i") = lit "ok\n" :=
  ⟨(stream_eq_concatenation_iff (ready_initialState _ _ (by decide)) rfl).2 (Transition.meets_of_decide (by decide +kernel)),
    (stream_eq_concatenation_iff (ready_toolState _ (by decide)) rfl).2 (Transition.meets_of_decide (by decide +kernel))⟩

/-- **A word said twice is kept once.** -/
theorem repeated_delta_is_lost : stripLeadingProviderSentinel (lit "ha") = lit "ha" ∧
    (∀ c ∈ [Channel.agent (lit "w"), .reasoningSummary, .reasoningContent, .plan],
      (stream (fun _ _ => none) c (lit "t") (lit "i") initialState [⟨lit "ha", false⟩, ⟨lit "ha", false⟩]).streamed c
        (lit "t") (lit "i") ≠ concatenation [⟨lit "ha", false⟩, ⟨lit "ha", false⟩]) ∧
    (stream (fun _ _ => none) .toolOutput (lit "t") (lit "i") toolState [⟨lit "ha", false⟩, ⟨lit "ha", false⟩]).streamed
      .toolOutput (lit "t") (lit "i") ≠ concatenation [⟨lit "ha", false⟩, ⟨lit "ha", false⟩] := by
  decide +kernel

end Owc.Threads
