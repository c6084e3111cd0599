import OpenWebCodex.ThreadHistoryChanges
/-!
# ThreadHistoryShows — a projection that shows a list of turns

A projection shows a list of turns when it finds, by the ids, the metadata and the items of each of them.  What the builder
does to its turns and reports, the projection follows: a new turn, a changed turn, an item written into a turn, turns
removed from the end.
-/
namespace Owc.ThreadHistory

open List Option
open Rollout (RolloutItem ThreadItem)

def findTurn (turns : List Turn) (id : Str) : Option Turn := turns.find? (·.id == id)

def findItem (items : List ThreadItem) (id : Str) : Option ThreadItem := items.find? (·.id == id)

/-- The projection finds exactly the turns of the list, with their metadata and items. -/
structure Shows (P : Projection) (turns : List Turn) : Prop where
  metadata : ∀ id, P.turns id = (findTurn turns id).map Turn.change
  contents : ∀ id itemId, P.items (id, itemId) = (findTurn turns id).bind (fun t => findItem t.items itemId)

structure Distinct (turns : List Turn) : Prop where
  ids : (turns.map (·.id)).Nodup
  items : ∀ t ∈ turns, (t.items.map (·.id)).Nodup

instance (turns : List Turn) : Decidable (Distinct turns) :=
  decidable_of_iff ((turns.map (·.id)).Nodup ∧ ∀ t ∈ turns, (t.items.map (·.id)).Nodup)
    ⟨fun h => ⟨h.1, h.2⟩, fun h => ⟨h.ids, h.items⟩⟩

/-! ## Finding -/

variable {turns : List Turn} {id : Str}

theorem findTurn_eq_none : findTurn turns id = none ↔ id ∉ turns.map (·.id) := by
  simp only [findTurn, find?_eq_none, beq_iff_eq, List.mem_map, not_exists, not_and]

theorem findTurn_append (turns rest : List Turn) (id : Str) :
    findTurn (turns ++ rest) id = (findTurn turns id).or (findTurn rest id) := find?_append

theorem findTurn_cons (t : Turn) (turns : List Turn) (id : Str) :
    findTurn (t :: turns) id = if id = t.id then some t else findTurn turns id := by
  unfold findTurn
  rw [find?_cons]
  by_cases h : id = t.id
  · simp [h]
  · have hne : (t.id == id) = false := by simpa using fun h' => h h'.symm
    rw [if_neg h, hne]

theorem findTurn_singleton (t : Turn) (id : Str) : findTurn [t] id = if id = t.id then some t else none :=
  findTurn_cons t [] id

theorem findItem_append (items rest : List ThreadItem) (id : Str) :
    findItem (items ++ rest) id = (findItem items id).or (findItem rest id) := find?_append

variable {items : List ThreadItem}

theorem findItem_eq_none : findItem items id = none ↔ id ∉ items.map (·.id) := by
  simp only [findItem, find?_eq_none, beq_iff_eq, List.mem_map, not_exists, not_and]

theorem findItem_cons (item : ThreadItem) (items : List ThreadItem) (id : Str) :
    findItem (item :: items) id = if id = item.id then some item else findItem items id := by
  unfold findItem
  rw [find?_cons]
  by_cases h : id = item.id
  · simp [h]
  · have hne : (item.id == id) = false := by simpa using fun h' => h h'.symm
    rw [if_neg h, hne]

theorem findItem_singleton (item : ThreadItem) (id : Str) :
    findItem [item] id = if id = item.id then some item else none := findItem_cons item [] id

theorem findItem_of_mem (h : (items.map (·.id)).Nodup) (hi : item ∈ items) : findItem items item.id = some item := by
  induction items with
  | nil => cases hi
  | cons first items ih =>
    rw [map_cons, nodup_cons] at h
    rw [findItem_cons]
    rcases mem_cons.1 hi with rfl | hi
    · rw [if_pos rfl]
    · have hne : item.id ≠ first.id := fun heq => h.1 (heq ▸ List.mem_map_of_mem hi)
      rw [if_neg hne]
      exact ih h.2 hi

/-- An item written: found under its id, and every other as before. -/
def Writes (item : ThreadItem) (items items' : List ThreadItem) : Prop :=
  ∀ id, findItem items' id = if id = item.id then some item else findItem items id

theorem writes_upsertTurnItem (items : List ThreadItem) (item : ThreadItem) :
    Writes item items (upsertTurnItem items item) := by
  intro id
  induction items with
  | nil => exact findItem_singleton item id
  | cons existing rest ih =>
    unfold upsertTurnItem
    by_cases he : existing.id = item.id
    · have heq : (existing.id == item.id) := by simpa using he
      rw [if_pos heq, findItem_cons, findItem_cons, he]
      split <;> rfl
    · have heq : ¬ (existing.id == item.id) := by simpa using he
      rw [if_neg heq, findItem_cons, findItem_cons, ih]
      by_cases hex : id = existing.id
      · rw [if_pos hex, if_pos hex, if_neg fun h => he (hex.symm.trans h)]
      · rw [if_neg hex, if_neg hex]

theorem writes_push (h : item.id ∉ items.map (·.id)) : Writes item items (items ++ [item]) := by
  intro id
  rw [findItem_append, findItem_singleton]
  by_cases hid : id = item.id
  · rw [if_pos hid, if_pos hid, hid, findItem_eq_none.2 h, none_or]
  · rw [if_neg hid, if_neg hid, or_none]

theorem writes_last (hid : item.id = last.id)
    (h : last.id ∉ items.map (·.id)) : Writes item (items ++ [last]) (items ++ [item]) := by
  intro id
  rw [findItem_append, findItem_append, findItem_singleton, findItem_singleton, ← hid]
  by_cases hk : id = item.id
  · rw [if_pos hk, if_pos hk, hk, hid, findItem_eq_none.2 h, none_or]
  · rw [if_neg hk, if_neg hk, if_neg hk]

/-! ## What the projection follows -/

theorem shows_empty : Shows .empty [] := ⟨fun _ => rfl, fun _ _ => rfl⟩

variable {P : Projection}

theorem Shows.append (h : Shows P turns) (hid : t.id ∉ turns.map (·.id))
    (hitems : t.items = []) : Shows (P.upsertTurns [t.change]) (turns ++ [t]) := by
  have hnone := findTurn_eq_none.2 hid
  refine ⟨fun id => ?_, fun id itemId => ?_⟩
  · show (if id = t.id then some t.change else P.turns id) = _
    rw [findTurn_append, findTurn_singleton, h.metadata]
    by_cases hk : id = t.id
    · rw [if_pos hk, if_pos hk, hk, hnone]
      rfl
    · rw [if_neg hk, if_neg hk, or_none]
  · show P.items (id, itemId) = _
    rw [findTurn_append, findTurn_singleton, h.contents]
    split
    · next hk =>
      rw [hk, hnone, none_or, bind_none, bind_some, hitems]
      rfl
    · rw [or_none]

structure Replaces (id : Str) (t t' : Turn) (turns turns' : List Turn) : Prop where
  before : findTurn turns id = some t
  after : ∀ k, findTurn turns' k = if k = id then some t' else findTurn turns k

theorem replaces_last (t' : Turn) (hid : t.id ∉ turns.map (·.id)) (heq : t'.id = t.id) :
    Replaces t.id t t' (turns ++ [t]) (turns ++ [t']) := by
  have hnone := findTurn_eq_none.2 hid
  refine ⟨by rw [findTurn_append, hnone, findTurn_singleton, if_pos rfl]; rfl, fun k => ?_⟩
  rw [findTurn_append, findTurn_append, findTurn_singleton, findTurn_singleton, heq]
  by_cases hk : k = t.id
  · rw [if_pos hk, if_pos hk, hk, hnone, none_or]
  · rw [if_neg hk, if_neg hk, if_neg hk]

theorem replaces_updateTurn (h : findTurn turns id = some t) (f : Turn → Turn)
    (hf : ∀ t, (f t).id = t.id) (rest : List Turn) :
    Replaces id t (f t) (turns ++ rest) (updateTurn id f turns ++ rest) := by
  have hall : ∀ turns, ∀ k, findTurn (updateTurn id f turns) k =
      if k = id then (findTurn turns id).map f else findTurn turns k := by
    intro turns k
    induction turns with
    | nil =>
      split <;> rfl
    | cons first turns ih =>
      unfold updateTurn
      by_cases hfirst : first.id = id
      · have heq : (first.id == id) := by simpa using hfirst
        rw [if_pos heq, findTurn_cons, findTurn_cons, findTurn_cons, hf, hfirst, if_pos rfl]
        split <;> rfl
      have heq : ¬ (first.id == id) := by simpa using hfirst
      have hne : ¬ id = first.id := fun h => hfirst h.symm
      rw [if_neg heq, findTurn_cons, findTurn_cons, findTurn_cons, ih]
      simp only [hne, if_false]
      by_cases hk : k = first.id
      · rw [if_pos hk, if_pos hk, if_neg fun h => hfirst (hk.symm.trans h)]
      · rw [if_neg hk, if_neg hk]
  refine ⟨by rw [findTurn_append, h, some_or], fun k => ?_⟩
  rw [findTurn_append, findTurn_append, hall]
  by_cases hk : k = id
  · rw [if_pos hk, if_pos hk, h, map_some, some_or]
  · rw [if_neg hk, if_neg hk]

section

variable {turns turns' : List Turn} (h : Shows P turns) {t t' : Turn} (hr : Replaces id t t' turns turns')
include h hr

theorem Shows.change (hid : t'.id = id) (hitems : t'.items = t.items) : Shows (P.upsertTurns [t'.change]) turns' := by
  refine ⟨fun k => ?_, fun k itemId => ?_⟩
  · show (if k = t'.id then some t'.change else P.turns k) = _
    rw [hr.after, hid, h.metadata]
    by_cases hk : k = id
    · rw [if_pos hk, if_pos hk]
      rfl
    · rw [if_neg hk, if_neg hk]
  · show P.items (k, itemId) = _
    rw [hr.after, h.contents]
    by_cases hk : k = id
    · rw [if_pos hk, hk, hr.before, bind_some, bind_some, hitems]
    · rw [if_neg hk]

theorem Shows.write (hchange : t'.change = t.change) (hitems : Writes item t.items t'.items) :
    Shows (P.upsertItems [⟨id, item⟩]) turns' := by
  refine ⟨fun k => ?_, fun k itemId => ?_⟩
  · show P.turns k = _
    rw [hr.after, h.metadata]
    by_cases hk : k = id
    · rw [if_pos hk, hk, hr.before, map_some, map_some, hchange]
    · rw [if_neg hk]
  · show (if (k, itemId) = (id, item.id) then some item else P.items (k, itemId)) = _
    rw [hr.after, h.contents]
    by_cases hk : k = id
    · subst hk
      rw [if_pos rfl, bind_some, hitems, hr.before, bind_some]
      by_cases hi : itemId = item.id
      · rw [if_pos hi, if_pos (by rw [hi])]
      · rw [if_neg hi, if_neg fun h => hi (Prod.mk.inj h).2]
    · rw [if_neg hk, if_neg fun h => hk (Prod.mk.inj h).1]

end

theorem Shows.take (h : Shows P turns) (hids : (turns.map (·.id)).Nodup) (n : Nat) :
    Shows (P.delete ((turns.drop n).map (·.id))) (turns.take n) := by
  have hfind : ∀ id, findTurn (turns.take n) id =
      if id ∈ (turns.drop n).map (·.id) then none else findTurn turns id := by
    intro id
    have hsplit : findTurn turns id = (findTurn (turns.take n) id).or (findTurn (turns.drop n) id) := by
      rw [← findTurn_append, take_append_drop]
    split
    · next hgone =>
      rw [findTurn_eq_none]
      intro hkept
      rw [← take_append_drop n turns, map_append, nodup_append] at hids
      exact hids.2.2 id hkept id hgone rfl
    · next hgone =>
      rw [hsplit, findTurn_eq_none.2 hgone, or_none]
  refine ⟨fun id => ?_, fun id itemId => ?_⟩
  · show (if id ∈ _ then none else P.turns id) = _
    rw [hfind, h.metadata]
    split <;> rfl
  · show (if id ∈ _ then none else P.items (id, itemId)) = _
    rw [hfind, h.contents]
    split <;> rfl

end Owc.ThreadHistory
