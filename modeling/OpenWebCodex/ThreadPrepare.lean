import OpenWebCodex.ThreadItems
/-!
# ThreadPrepare — what becomes of one item when a list is prepared

`prepareThreadItems` drops echoes of a review, cuts texts, keeps the last items, folds explorations and cuts old tool
output.  Each stage is followed for one item: which items are before and behind it, and that no other item takes its id.
-/
namespace Owc.Threads

open List
open Js (Text lit)

def Absent (list : List Item) (id : Text) : Prop := ∀ item ∈ list, item.id ≠ id

/-- The item is in the list, the only one of its id, with at most `k` items behind it. -/
def Holds (list : List Item) (item : Item) (k : Nat) : Prop :=
  ∃ front back, list = front ++ item :: back ∧ Absent front item.id ∧ Absent back item.id ∧ back.length ≤ k

def Within (maxItemsPerThread : Option Nat) (n : Nat) : Prop := ∀ m, maxItemsPerThread = some m → n ≤ itemLimit m

theorem absent_of_ids {id} (h : l'.map (·.id) ⊆ l.map (·.id)) (ha : Absent l id) : Absent l' id := by
  intro item hi heq
  obtain ⟨item', hi', hid⟩ := mem_map.1 (h (mem_map_of_mem hi))
  exact ha item' hi' (hid.trans heq)

theorem itemLimit_pos (n : Nat) : 0 < itemLimit n := by
  unfold itemLimit defaultMaxItemsPerThread
  by_cases h : 0 < n
  · rwa [if_pos h]
  · rw [if_neg h]
    decide

/-! ## Echoes -/

def keptItems (items : List Item) : List Item := items.foldl pushUnlessEcho []

theorem foldl_pushUnlessEcho (items : List Item) : ∀ acc,
    ∃ rest, items.foldl pushUnlessEcho acc = acc ++ rest ∧ rest.Sublist items := by
  induction items with
  | nil => exact fun acc => ⟨[], by simp, List.Sublist.refl _⟩
  | cons item items ih =>
    intro acc
    rw [foldl_cons]
    by_cases h : echoesReview acc.getLast? item
    · have hpush : pushUnlessEcho acc item = acc := if_pos h
      rw [hpush]
      obtain ⟨rest, hrest, hsub⟩ := ih acc
      exact ⟨rest, hrest, hsub.cons _⟩
    · have hpush : pushUnlessEcho acc item = acc ++ [item] := if_neg h
      rw [hpush]
      obtain ⟨rest, hrest, hsub⟩ := ih (acc ++ [item])
      exact ⟨item :: rest, by rw [hrest, append_assoc]; rfl, hsub.cons_cons _⟩

theorem keptItems_sublist (items : List Item) : (keptItems items).Sublist items := by
  obtain ⟨_, hrest, _⟩ := foldl_pushUnlessEcho items []
  unfold keptItems
  rwa [hrest, nil_append]

variable {front back : List Item}

theorem keptItems_of_echo (h : echoesReview (keptItems front).getLast? item) :
    keptItems (front ++ item :: back) = keptItems (front ++ back) := by
  have hpush : pushUnlessEcho (front.foldl pushUnlessEcho []) item = front.foldl pushUnlessEcho [] := if_pos h
  unfold keptItems
  rw [foldl_append, foldl_append, foldl_cons, hpush]

theorem keptItems_of_not_echo (back : List Item) (h : echoesReview (keptItems front).getLast? item = false) :
    ∃ rest, keptItems (front ++ item :: back) = keptItems front ++ item :: rest ∧ rest.Sublist back := by
  have hpush : pushUnlessEcho (front.foldl pushUnlessEcho []) item = keptItems front ++ [item] :=
    if_neg (by unfold keptItems at h; simp [h])
  obtain ⟨rest, hrest, hsub⟩ := foldl_pushUnlessEcho back (keptItems front ++ [item])
  refine ⟨rest, ?_, hsub⟩
  unfold keptItems
  rw [foldl_append, foldl_cons, hpush, hrest, append_assoc]
  rfl

/-! ## The last items -/

theorem limitItems_sublist (m : Option Nat) (items : List Item) : (limitItems m items).Sublist items := by
  cases m with
  | none => exact List.Sublist.refl _
  | some => exact drop_sublist _ _

theorem within_limitItems (m : Option Nat) (items : List Item) : Within m (limitItems m items).length := by
  intro n hn
  subst hn
  change (items.drop _).length ≤ _
  rw [length_drop]
  omega

theorem limitItems_keeps (item : Item) (h : Within m (front ++ item :: back).length ∨ back = []) :
    ∃ front', limitItems m (front ++ item :: back) = front' ++ item :: back ∧ front'.Sublist front := by
  cases m with
  | none => exact ⟨front, rfl, List.Sublist.refl _⟩
  | some n =>
    have hpos := itemLimit_pos n
    have hle : (front ++ item :: back).length - itemLimit n ≤ front.length := by
      rcases h with h | rfl
      · have := h n rfl
        omega
      · rw [length_append, length_cons, length_nil]
        omega
    refine ⟨front.drop ((front ++ item :: back).length - itemLimit n), ?_, drop_sublist _ _⟩
    exact drop_append_of_le_length hle

/-! ## Explorations -/

theorem ids_pushExplore (result : List Item) (id : Text) (status : ExploreStatus) (entries : List ExploreEntry) :
    ((pushExplore result id status entries).map (·.id)).Sublist (result.map (·.id) ++ [id]) := by
  unfold pushExplore
  split
  · rename_i lastId lastStatus lastEntries hlast
    split
    · -- the exploration before it keeps its id
      obtain ⟨_, rfl⟩ := getLast?_eq_some_iff.1 hlast
      simp
    · simp
  · simp

section

variable (explore : Explore)

theorem ids_summarizeItem (result : List Item) (item : Item) :
    ((summarizeItem explore result item).map (·.id)).Sublist (result.map (·.id) ++ [item.id]) := by
  unfold summarizeItem
  split
  · exact ids_pushExplore _ _ _ _
  · simp

theorem ids_foldl_summarizeItem (items : List Item) : ∀ result,
    ((items.foldl (summarizeItem explore) result).map (·.id)).Sublist (result.map (·.id) ++ items.map (·.id)) := by
  induction items with
  | nil => simp
  | cons item items ih =>
    intro result
    rw [foldl_cons]
    refine (ih _).trans ?_
    rw [map_cons, ← singleton_append, ← append_assoc]
    exact (ids_summarizeItem explore result item).append (List.Sublist.refl _)

def EndsPlain (list : List Item) : Prop :=
  ∀ item, list.getLast? = some item → ∀ status entries, item.body ≠ .explore status entries

theorem summarizeItem_append (hacc : EndsPlain acc) (result : List Item) (item : Item) :
    summarizeItem explore (acc ++ result) item = acc ++ summarizeItem explore result item := by
  unfold summarizeItem
  cases explorationOf explore item with
  | none => simp
  | some e =>
    obtain ⟨_, _⟩ := e
    unfold pushExplore
    rcases eq_nil_or_concat result with rfl | ⟨init, last, rfl⟩
    · cases h : acc.getLast? with
      | none => simp [h]
      | some last =>
        obtain ⟨id, body⟩ := last
        have hb := hacc _ h
        cases body with
        | explore st es => exact absurd rfl (hb st es)
        | _ => simp [h]
    · obtain ⟨_, body⟩ := last
      cases body with
      | explore =>
        simp only [concat_eq_append, ← append_assoc, getLast?_append, getLast?_singleton, Option.some_or, dropLast_concat]
        split <;> simp
      | _ => simp [← append_assoc]

theorem foldl_summarizeItem_append (hacc : EndsPlain acc) (items : List Item) :
    ∀ result, items.foldl (summarizeItem explore) (acc ++ result) = acc ++ items.foldl (summarizeItem explore) result := by
  induction items with
  | nil => exact fun _ => rfl
  | cons item items ih =>
    intro result
    rw [foldl_cons, foldl_cons, summarizeItem_append explore hacc, ih]

theorem foldl_summarizeItem_keeps (h : explorationOf explore item = none) (front back : List Item) :
    (front ++ item :: back).foldl (summarizeItem explore) [] =
      front.foldl (summarizeItem explore) [] ++ item :: back.foldl (summarizeItem explore) [] := by
  have hplain : EndsPlain (front.foldl (summarizeItem explore) [] ++ [item]) := by
    intro last hlast status entries hbody
    rw [getLast?_append, getLast?_singleton, Option.some_or, Option.some.injEq] at hlast
    subst hlast
    unfold explorationOf at h
    rw [hbody] at h
    cases h
  have hitem : summarizeItem explore (front.foldl (summarizeItem explore) []) item =
      front.foldl (summarizeItem explore) [] ++ [item] := by
    unfold summarizeItem
    rw [h]
  have := foldl_summarizeItem_append explore hplain back []
  rw [foldl_append, foldl_cons, hitem]
  rwa [append_nil, append_assoc] at this

end

/-! ## Old tool output -/

@[simp] theorem id_truncateOld (item : Item) : (truncateOld item).id = item.id := by
  unfold truncateOld
  split <;> rfl

@[simp] theorem id_normalizeItem (item : Item) : (normalizeItem item).id = item.id := rfl

theorem id_comp_truncateOld : (fun item : Item => item.id) ∘ truncateOld = (fun item : Item => item.id) := funext id_truncateOld

theorem ids_truncateOlder (items : List Item) : (truncateOlder items).map (·.id) = items.map (·.id) := by
  unfold truncateOlder
  rw [map_append, map_map, id_comp_truncateOld, ← map_append, take_append_drop]

theorem length_truncateOlder (items : List Item) : (truncateOlder items).length = items.length := by
  have h := congrArg List.length (ids_truncateOlder items)
  rwa [length_map, length_map] at h

theorem truncateOlder_keeps (front back : List Item) (item : Item) :
    ∃ front' item' back', truncateOlder (front ++ item :: back) = front' ++ item' :: back' ∧
      (item' = item ∨ (item' = truncateOld item ∧ toolOutputRecentItems ≤ back.length)) ∧
      front'.map (·.id) = front.map (·.id) ∧ back'.map (·.id) = back.map (·.id) := by
  have hlen : (front ++ item :: back).length = front.length + 1 + back.length := by
    rw [length_append, length_cons]
    omega
  unfold truncateOlder
  rw [hlen]
  by_cases h : toolOutputRecentItems ≤ back.length
  · -- the cut is behind the item
    have hcut : front.length + 1 + back.length - toolOutputRecentItems =
        (front ++ [item]).length + (back.length - toolOutputRecentItems) := by
      rw [length_append, length_singleton]
      omega
    refine ⟨front.map truncateOld, truncateOld item, (back.take (back.length - toolOutputRecentItems)).map truncateOld ++
      back.drop (back.length - toolOutputRecentItems), ?_, .inr ⟨rfl, h⟩, by rw [map_map, id_comp_truncateOld], ?_⟩
    · rw [hcut, show front ++ item :: back = (front ++ [item]) ++ back by simp]
      dsimp only
      rw [take_length_add_append, drop_length_add_append]
      simp
    · rw [map_append, map_map, id_comp_truncateOld, ← map_append, take_append_drop]
  · have hcut : front.length + 1 + back.length - toolOutputRecentItems ≤ front.length := by omega
    refine ⟨(front.take (front.length + 1 + back.length - toolOutputRecentItems)).map truncateOld ++
      front.drop (front.length + 1 + back.length - toolOutputRecentItems), item, back, ?_, .inl rfl, ?_, rfl⟩
    · dsimp only
      rw [take_append_of_le_length hcut, drop_append_of_le_length hcut, append_assoc]
    · rw [map_append, map_map, id_comp_truncateOld, ← map_append, take_append_drop]

/-! ## All stages -/

section

variable (explore : Explore) (m : Option Nat)

theorem ids_prepareThreadItems (items : List Item) :
    ((prepareThreadItems explore m items).map (·.id)).Sublist ((keptItems items).map (·.id)) := by
  unfold prepareThreadItems
  rw [ids_truncateOlder]
  refine (ids_foldl_summarizeItem explore _ []).trans ?_
  rw [map_nil, nil_append]
  refine ((limitItems_sublist m _).map _).trans ?_
  rw [map_map]
  exact List.Sublist.refl _

theorem within_prepareThreadItems (items : List Item) : Within m (prepareThreadItems explore m items).length := by
  intro n hn
  have h := (ids_foldl_summarizeItem explore (limitItems m ((keptItems items).map normalizeItem)) []).length_le
  rw [map_nil, nil_append, length_map, length_map] at h
  unfold prepareThreadItems
  rw [length_truncateOlder]
  exact Nat.le_trans h (within_limitItems m _ n hn)

/-- **An item that echoes the review before it is dropped.** -/
theorem prepareThreadItems_of_echo (item : Item) (hfront : Absent front item.id) (hback : Absent back item.id)
    (h : echoesReview (keptItems front).getLast? item) :
    Absent (prepareThreadItems explore m (front ++ item :: back)) item.id := by
  have hsub := (ids_prepareThreadItems explore m (front ++ item :: back)).subset
  rw [keptItems_of_echo h] at hsub
  refine absent_of_ids hsub (absent_of_ids ((keptItems_sublist (front ++ back)).map _).subset ?_)
  intro other ho
  rcases mem_append.1 ho with ho | ho
  · exact hfront other ho
  · exact hback other ho

end

/-- **Any other item stays the only one of its id**, with its texts cut, if it is within the limit or the last one and is
not read as exploration. -/
theorem prepareThreadItems_keeps (explore : Explore) (item : Item)
    (hfront : Absent front item.id) (hback : Absent back item.id)
    (hecho : echoesReview (keptItems front).getLast? item = false)
    (hexplore : explorationOf explore (normalizeItem item) = none)
    (hroom : Within m (front ++ item :: back).length ∨ back = []) :
    ∃ item', (item' = normalizeItem item ∨ (item' = truncateOld (normalizeItem item) ∧ toolOutputRecentItems ≤ back.length)) ∧
      Holds (prepareThreadItems explore m (front ++ item :: back)) item' back.length := by
  obtain ⟨rest, hkept, hrest⟩ := keptItems_of_not_echo back hecho
  have hroom' : Within m ((keptItems front).map normalizeItem ++ normalizeItem item :: rest.map normalizeItem).length ∨
      rest.map normalizeItem = [] := by
    rcases hroom with h | rfl
    · refine .inl fun n hn => Nat.le_trans ?_ (h n hn)
      have h1 := (keptItems_sublist front).length_le
      have h2 := hrest.length_le
      simp only [length_append, length_map, length_cons]
      omega
    · exact .inr (by rw [sublist_nil.1 hrest]; rfl)
  obtain ⟨front₁, hlimit, hfront₁⟩ := limitItems_keeps (normalizeItem item) hroom'
  obtain ⟨front₂, item', back₂, htrunc, hitem', hfront₂, hback₂⟩ := truncateOlder_keeps
    (front₁.foldl (summarizeItem explore) []) ((rest.map normalizeItem).foldl (summarizeItem explore) []) (normalizeItem item)
  have hprepare : prepareThreadItems explore m (front ++ item :: back) = front₂ ++ item' :: back₂ := by
    change truncateOlder ((limitItems m ((keptItems (front ++ item :: back)).map normalizeItem)).foldl _ _) = _
    rw [hkept, map_append, map_cons, hlimit, foldl_summarizeItem_keeps explore hexplore, htrunc]
  have hfrontIds : (front₂.map (·.id)).Sublist (front.map (·.id)) := by
    rw [hfront₂]
    refine (ids_foldl_summarizeItem explore _ []).trans ?_
    rw [map_nil, nil_append]
    refine (hfront₁.map _).trans ?_
    rw [map_map]
    exact (keptItems_sublist front).map _
  have hbackIds : (((rest.map normalizeItem).foldl (summarizeItem explore) []).map (·.id)).Sublist (back.map (·.id)) := by
    refine (ids_foldl_summarizeItem explore _ []).trans ?_
    rw [map_nil, nil_append, map_map]
    exact hrest.map _
  have hlen := hbackIds.length_le
  have hlen₂ := congrArg List.length hback₂
  rw [length_map, length_map] at hlen hlen₂
  have hid : item'.id = item.id := by
    rcases hitem' with rfl | ⟨rfl, _⟩
    · rfl
    · rw [id_truncateOld, id_normalizeItem]
  refine ⟨item', ?_, front₂, back₂, hprepare, ?_, ?_, by omega⟩
  · rcases hitem' with h | ⟨h, hold⟩
    · exact .inl h
    · exact .inr ⟨h, by omega⟩
  · rw [hid]
    exact absent_of_ids hfrontIds.subset hfront
  · rw [hid]
    rw [← hback₂] at hbackIds
    exact absent_of_ids hbackIds.subset hback

end Owc.Threads
