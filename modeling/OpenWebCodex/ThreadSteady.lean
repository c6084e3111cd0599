import OpenWebCodex.ThreadStream
/-!
# ThreadSteady — preparing a prepared list

Every reducer action prepares the stored list once more.  All stages but one leave a prepared list as it is: a message
whose sentinel was stripped, or whose text was cut, can be the echo of the review before it only now.
-/
namespace Owc.Threads

open List Function
open Js (Text lit)

/-! ## Texts -/

theorem stripSentinel_stripRounds : ∀ n text, text.length ≤ n → stripSentinel (stripRounds n text) = none
  | 0, text, h => by
    rw [length_eq_zero_iff.1 (Nat.le_zero.1 h)]
    decide
  | n + 1, text, h => by
    unfold stripRounds
    cases hs : stripSentinel text with
    | none => exact hs
    | some next =>
      have := stripSentinel_lt hs
      exact stripSentinel_stripRounds n next (by omega)

theorem stripSentinel_eq_none_iff :
    stripSentinel text = none ↔ ∀ s ∈ leadingProviderSentinels, ¬s <+: text.dropWhile Js.isSpace := by
  simp [stripSentinel]

theorem strip_of_none (h : stripSentinel text = none) : stripLeadingProviderSentinel text = text := by
  unfold stripLeadingProviderSentinel
  cases text.length <;> simp [stripRounds, h]

/-- A cut text ends in three dots, which no sentinel has. -/
theorem stripSentinel_truncateText (n : Nat) (h : stripSentinel text = none) :
    stripSentinel (truncateText text n) = none := by
  unfold truncateText
  split
  · exact h
  rw [stripSentinel_eq_none_iff] at h ⊢
  intro s hs hp
  rw [dropWhile_append] at hp
  split at hp
  · revert s
    decide
  have hdots : ∀ s ∈ leadingProviderSentinels, 46 ∉ s := by decide
  refine h s hs ?_
  rw [← take_append_drop (n - 3) text, dropWhile_append, if_neg ‹_›]
  rcases prefix_or_prefix_of_prefix hp (prefix_append _ _) with ha | ⟨rest, rfl⟩
  · exact ha.trans (prefix_append _ _)
  rw [prefix_append_right_inj] at hp
  cases rest with
  | nil => simp
  | cons u =>
    obtain rfl : u = 46 := (cons_prefix_cons.1 hp).1
    exact absurd (by simp) (hdots _ hs)

@[simp] theorem truncateToolText_idem (toolType text : Text) :
    truncateToolText toolType (truncateToolText toolType text) = truncateToolText toolType text := truncateText_idem ..

theorem normalizeItem_idem (item : Item) : normalizeItem (normalizeItem item) = normalizeItem item := by
  obtain ⟨id, body⟩ := item
  cases body with
  | message role text =>
    have hs := stripSentinel_truncateText maxItemText (stripSentinel_stripRounds text.length text (Nat.le_refl _))
    change Item.mk id (.message _ (truncateText (stripLeadingProviderSentinel (truncateText (stripRounds _ _) _)) _) _) = _
    rw [strip_of_none hs, truncateText_idem]
    rfl
  | _ => simp [normalizeItem, comp_def]

theorem normalizeItem_truncateOld (h : normalizeItem item = item) :
    normalizeItem (truncateOld item) = truncateOld item := by
  have hlen (text : Text) := length_truncateText text (show 3 ≤ maxItemText by decide)
  obtain ⟨_, body⟩ := item
  cases body with
  | tool =>
    rw [← h]
    simp [normalizeItem, truncateOld, truncateOptional, comp_def, truncateToolText_of_le (hlen _)]
  | _ => exact h

/-! ## Neighbours -/

def Clear (test : Option Item → Item → Bool) : Option Item → List Item → Prop
  | _, [] => True
  | last, item :: rest => test last item = false ∧ Clear test (some item) rest

section Clear

variable {test : Option Item → Item → Bool}

theorem clear_concat (list : List Item) (item : Item) :
    Clear test none (list ++ [item]) ↔ Clear test none list ∧ test list.getLast? item = false := by
  suffices h : ∀ last, Clear test last (list ++ [item]) ↔
      Clear test last list ∧ test (list.getLast?.or last) item = false by simpa using h none
  induction list with
  | nil => simp [Clear]
  | cons first rest ih =>
    intro last
    cases h : rest.getLast? <;> simp [Clear, ih, and_assoc, getLast?_cons, h]

theorem foldl_of_clear {step : List Item → Item → List Item}
    (hstep : ∀ acc item, test acc.getLast? item = false → step acc item = acc ++ [item]) (list : List Item) :
    ∀ acc, Clear test acc.getLast? list → list.foldl step acc = acc ++ list := by
  induction list with
  | nil => simp
  | cons item list ih =>
    rintro acc ⟨hitem, hrest⟩
    rw [foldl_cons, hstep acc item hitem, ih _ (by simpa using hrest), append_assoc]
    rfl

theorem clear_truncateOlder (hlast : ∀ last item, test (some (truncateOld last)) item = test (some last) item)
    (hitem : ∀ last item, test last (truncateOld item) = test last item) (list : List Item) :
    Clear test none (truncateOlder list) ↔ Clear test none list := by
  suffices h : ∀ n last last', (∀ item, test last item = test last' item) →
      (Clear test last ((list.take n).map truncateOld ++ list.drop n) ↔ Clear test last' list) from
    h _ none none fun _ => rfl
  induction list with
  | nil => simp [Clear]
  | cons item list ih =>
    intro n last last' h
    cases n with
    | zero => simp [Clear, h]
    | succ n =>
      rw [take_succ_cons, drop_succ_cons, map_cons, cons_append, Clear, Clear, hitem, h, ih n _ _ (hlast item)]

end Clear

/-! ## Echoes -/

theorem clear_keptItems (list : List Item) : Clear echoesReview none (keptItems list) := by
  induction list using List.reverseRecOn with
  | nil => trivial
  | append_singleton list item ih =>
    unfold keptItems at ih ⊢
    rw [foldl_concat, pushUnlessEcho]
    split
    · exact ih
    · exact (clear_concat _ _).2 ⟨ih, Bool.eq_false_of_not_eq_true ‹_›⟩

theorem keptItems_eq_self_iff : keptItems list = list ↔ Clear echoesReview none list := by
  refine ⟨fun h => h ▸ clear_keptItems list, fun h => foldl_of_clear (fun acc item he => ?_) list [] h⟩
  exact if_neg (by simp [he])

theorem echoesReview_truncateOld (last item : Item) :
    echoesReview (some (truncateOld last)) item = echoesReview (some last) item := by
  obtain ⟨_, body⟩ := last
  cases body <;> simp [truncateOld, echoesReview]

theorem echoesReview_item_truncateOld (last : Option Item) (item : Item) :
    echoesReview last (truncateOld item) = echoesReview last item := by
  obtain ⟨_, body⟩ := item
  cases body <;> rfl

/-- Whether the message is no echo of the review before it until its sentinel is stripped and its text cut. -/
def turnsEcho (last : Option Item) (item : Item) : Bool := echoesReview last (normalizeItem item)

theorem clear_map_normalizeItem (list : List Item) :
    Clear echoesReview none (list.map normalizeItem) ↔ Clear turnsEcho none list := by
  have hlast (last item : Item) : echoesReview (some (normalizeItem last)) item = echoesReview (some last) item := by
    obtain ⟨_, body⟩ := last
    cases body <;> simp [normalizeItem, echoesReview]
  suffices h : ∀ last last', (∀ item, echoesReview last item = echoesReview last' item) →
      (Clear echoesReview last (list.map normalizeItem) ↔ Clear turnsEcho last' list) from h none none fun _ => rfl
  induction list with
  | nil => exact fun _ _ _ => Iff.rfl
  | cons item list ih =>
    intro last last' h
    rw [map_cons, Clear, Clear, h, turnsEcho, ih _ _ (hlast item)]

/-! ## Explorations -/

def statusOf : Option Item → Option ExploreStatus
  | some ⟨_, .explore status _⟩ => some status
  | _ => none

def folds (explore : Explore) (last : Option Item) (item : Item) : Bool :=
  match item.body with
  | .explore status _ => statusOf last == some status
  | _ => (explorationOf explore item).isSome

theorem folds_truncateOld (explore : Explore) (last item : Item) :
    folds explore (some (truncateOld last)) item = folds explore (some last) item := by
  obtain ⟨_, body⟩ := last
  cases body <;> rfl

theorem folds_item_truncateOld (explore : Explore) (last : Option Item) (item : Item) :
    folds explore last (truncateOld item) = folds explore last item := by
  obtain ⟨_, body⟩ := item
  cases body <;> rfl

section Folded

variable (explore : Explore) (list result : List Item) (item : Item)

/-- An item is put behind the others, or is an exploration that is put behind them or into the last one. -/
theorem summarizeItem_cases : (explorationOf explore item = none ∧ summarizeItem explore result item = result ++ [item]) ∨
      ∃ e front id entries, explorationOf explore item = some e ∧
        summarizeItem explore result item = front ++ [⟨id, .explore e.1 entries⟩] ∧
        (front = result ∧ statusOf result.getLast? ≠ some e.1 ∨ ∃ old, result = front ++ [⟨id, .explore e.1 old⟩]) := by
  unfold summarizeItem
  cases h : explorationOf explore item with
  | none => exact .inl ⟨rfl, rfl⟩
  | some e =>
    dsimp only
    unfold pushExplore
    split
    · rename_i lastId lastStatus old hlast
      split
      · rename_i hstatus
        obtain ⟨front, rfl⟩ := getLast?_eq_some_iff.1 hlast
        rw [dropLast_concat]
        exact .inr ⟨e, front, lastId, _, rfl, by rw [hstatus], .inr ⟨old, by rw [hstatus]⟩⟩
      · exact .inr ⟨e, result, item.id, _, rfl, rfl, .inl ⟨rfl, by simpa [statusOf, hlast]⟩⟩
    · rename_i hlast
      refine .inr ⟨e, result, item.id, _, rfl, rfl, .inl ⟨rfl, ?_⟩⟩
      unfold statusOf
      split
      · exact absurd ‹_› (hlast _ _ _)
      · exact fun h => by cases h

theorem summarizeItem_of_not_folds (h : folds explore result.getLast? item = false) :
    summarizeItem explore result item = result ++ [item] := by
  obtain ⟨id, body⟩ := item
  cases body with
  | explore status entries =>
    change pushExplore result id status entries = _
    unfold pushExplore
    split
    · rename_i hlast
      rw [if_neg (by simpa [folds, statusOf, hlast] using h)]
    · rfl
  | tool t =>
    have hnone : explorationOf explore ⟨id, .tool t⟩ = none := by simpa [folds] using h
    rw [summarizeItem, hnone]
  | _ => rfl

theorem clear_foldl : Clear (folds explore) none (list.foldl (summarizeItem explore) []) := by
  induction list using List.reverseRecOn with
  | nil => trivial
  | append_singleton list item ih =>
    rw [foldl_concat]
    generalize list.foldl (summarizeItem explore) [] = result at ih
    rcases summarizeItem_cases explore result item with
      ⟨hnone, h⟩ | ⟨e, front, id, entries, _, h, ⟨rfl, hstatus⟩ | ⟨old, rfl⟩⟩
    · rw [h, clear_concat]
      refine ⟨ih, ?_⟩
      obtain ⟨_, body⟩ := item
      cases body with
      | explore => cases hnone
      | _ => simp [folds, hnone]
    · rw [h, clear_concat]
      exact ⟨ih, by simpa [folds] using hstatus⟩
    · rw [h, clear_concat]
      exact (clear_concat front ⟨id, .explore e.1 old⟩).1 ih

theorem echoesReview_of_exploration (item : Item) {e} (h : explorationOf explore item = some e) :
    (∀ last, echoesReview last item = false) ∧ ∀ next, echoesReview (some item) next = false := by
  obtain ⟨_, body⟩ := item
  cases body with
  | explore | tool => simp [echoesReview]
  | _ => cases h

/-- Folding leaves reviews and messages, and which of them are neighbours. -/
theorem clear_foldl_iff : (Clear echoesReview none (list.foldl (summarizeItem explore) []) ↔ Clear echoesReview none list) ∧
      ∀ item, echoesReview (list.foldl (summarizeItem explore) []).getLast? item = echoesReview list.getLast? item := by
  induction list using List.reverseRecOn with
  | nil => exact ⟨Iff.rfl, fun _ => rfl⟩
  | append_singleton list item ih =>
    rw [foldl_concat]
    generalize list.foldl (summarizeItem explore) [] = result at ih
    have hexplore id st es := echoesReview_of_exploration explore ⟨id, .explore st es⟩ rfl
    rcases summarizeItem_cases explore result item with ⟨_, h⟩ | ⟨e, front, id, entries, hsome, h, ⟨rfl, _⟩ | ⟨old, rfl⟩⟩
    · rw [h, clear_concat, clear_concat, ih.1, ih.2]
      simp
    · have hitem := echoesReview_of_exploration explore _ hsome
      simpa [h, clear_concat, hitem, hexplore] using ih.1
    · have hitem := echoesReview_of_exploration explore _ hsome
      simpa [h, clear_concat, hitem, hexplore] using ih.1

theorem mem_foldl_summarizeItem : ∀ item ∈ list.foldl (summarizeItem explore) [], item ∈ list ∨ normalizeItem item = item := by
  induction list using List.reverseRecOn with
  | nil => simp
  | append_singleton list next ih =>
    rw [foldl_concat]
    generalize list.foldl (summarizeItem explore) [] = result at ih
    intro item hmem
    have hold : item ∈ result → item ∈ list ++ [next] ∨ normalizeItem item = item := fun h =>
      (ih item h).imp_left (mem_append_left _)
    rcases summarizeItem_cases explore result next with ⟨_, h⟩ | ⟨e, front, id, entries, _, h, hfront⟩
    · rw [h] at hmem
      rcases List.mem_append.1 hmem with hmem | hmem
      · exact hold hmem
      · exact .inl (mem_append_right _ hmem)
    rw [h] at hmem
    rcases List.mem_append.1 hmem with hmem | hmem
    · rcases hfront with ⟨rfl, _⟩ | ⟨old, rfl⟩
      · exact hold hmem
      · exact hold (mem_append_left _ hmem)
    · rw [mem_singleton.1 hmem]
      exact .inr rfl

end Folded

/-! ## All stages -/

theorem truncateOlder_idem (list : List Item) : truncateOlder (truncateOlder list) = truncateOlder list := by
  have hidem (item : Item) : truncateOld (truncateOld item) = truncateOld item := by
    obtain ⟨_, body⟩ := item
    cases body <;> simp [truncateOld, truncateOptional, comp_def]
  have hlen := length_truncateOlder list
  have hcut : ((list.take (list.length - toolOutputRecentItems)).map truncateOld).length =
      list.length - toolOutputRecentItems := by simp
  conv_lhs => rw [truncateOlder, hlen]
  unfold truncateOlder
  rw [take_left' hcut, drop_left' hcut]
  simp [hidem, comp_def]

theorem limitItems_of_within (h : Within m items.length) : limitItems m items = items := by
  cases m with
  | none => rfl
  | some n => simp [limitItems, Nat.sub_eq_zero_of_le (h n rfl)]

variable (explore : Explore) (m : Option Nat) (items : List Item)

theorem prepareThreadItems_eq : prepareThreadItems explore m items =
    truncateOlder (((limitItems m (keptItems items)).map normalizeItem).foldl (summarizeItem explore) []) := by
  unfold prepareThreadItems
  cases m <;> simp [limitItems, keptItems]

theorem normalized_prepareThreadItems :
    (prepareThreadItems explore m items).map normalizeItem = prepareThreadItems explore m items := by
  rw [prepareThreadItems_eq]
  have hfolded : ∀ item ∈ ((limitItems m (keptItems items)).map normalizeItem).foldl (summarizeItem explore) [],
      normalizeItem item = item := fun item h => by
    rcases mem_foldl_summarizeItem explore _ item h with h | h
    · obtain ⟨source, _, rfl⟩ := mem_map.1 h
      exact normalizeItem_idem source
    · exact h
  refine (map_congr_left fun item h => ?_).trans (map_id _)
  rcases List.mem_append.1 h with h | h
  · obtain ⟨source, hsource, rfl⟩ := mem_map.1 h
    exact normalizeItem_truncateOld (hfolded source (mem_of_mem_take hsource))
  · exact hfolded item (mem_of_mem_drop h)

/-- **A prepared list is prepared exactly when no message that stays, directly behind a completed review, turns into its
echo.** -/
theorem prepareThreadItems_idem_iff :
    prepareThreadItems explore m (prepareThreadItems explore m items) = prepareThreadItems explore m items ↔
      Clear turnsEcho none (limitItems m (keptItems items)) := by
  have hecho : Clear echoesReview none (prepareThreadItems explore m items) ↔
      Clear turnsEcho none (limitItems m (keptItems items)) := by
    rw [prepareThreadItems_eq, clear_truncateOlder echoesReview_truncateOld echoesReview_item_truncateOld,
      (clear_foldl_iff ..).1, clear_map_normalizeItem]
  have hfolds : Clear (folds explore) none (prepareThreadItems explore m items) := by
    rw [prepareThreadItems_eq, clear_truncateOlder (folds_truncateOld explore) (folds_item_truncateOld explore)]
    exact clear_foldl explore _
  rw [← hecho, ← keptItems_eq_self_iff]
  constructor
  · intro h
    have hlen := (ids_prepareThreadItems explore m (prepareThreadItems explore m items)).length_le
    rw [h, length_map, length_map] at hlen
    exact (keptItems_sublist _).eq_of_length_le hlen
  · intro h
    rw [prepareThreadItems_eq, h, limitItems_of_within (within_prepareThreadItems explore m items),
      normalized_prepareThreadItems, foldl_of_clear (summarizeItem_of_not_folds explore) _ [] hfolds, nil_append,
      prepareThreadItems_eq, truncateOlder_idem]

def reviewedReply : List Item :=
  [⟨lit "r", .review .completed (lit "ok")⟩, ⟨lit "m", .message .assistant (lit "<|begin_of_sentence|>ok") none⟩]

/-- **A reply that a sentinel kept apart from the review it repeats is dropped by the second preparation.** -/
theorem prepared_reply_is_dropped : prepareThreadItems (fun _ _ => none) none reviewedReply =
      [⟨lit "r", .review .completed (lit "ok")⟩, ⟨lit "m", .message .assistant (lit "ok") none⟩] ∧
    prepareThreadItems (fun _ _ => none) none (prepareThreadItems (fun _ _ => none) none reviewedReply) =
      [⟨lit "r", .review .completed (lit "ok")⟩] := by
  decide

end Owc.Threads
