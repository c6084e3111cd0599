import OpenWebCodex.Latest
import OpenWebCodex.ThreadHistory
/-!
# ThreadHistoryChanges — change sets and the projection they maintain

The changes of a batch of items are coalesced: the latest snapshot of each item and turn stays, and the changes of a turn
that is removed go.  A projection deletes the removed turns of a change set and then upserts its turns and items; applying
the coalesced changes is applying the change set of each item in turn.
-/
namespace Owc.ThreadHistory

open Rollout (RolloutItem ThreadItem)

/-! ## The accumulator -/

def ItemChange.key (change : ItemChange) : Str × Str := (change.turnId, change.item.id)

structure Accumulator where
  changedItems : Latest (Str × Str) ItemChange
  changedTurns : Latest Str TurnChange
  removedTurnIds : List Str

namespace Accumulator

def empty : Accumulator := ⟨.empty, .empty, []⟩

def pushItemChange (a : Accumulator) (change : ItemChange) : Accumulator :=
  { a with changedItems := a.changedItems.push ItemChange.key change }

def pushTurnChange (a : Accumulator) (change : TurnChange) : Accumulator :=
  { a with changedTurns := a.changedTurns.push TurnChange.turnId change }

def pushRemovedTurnId (a : Accumulator) (turnId : Str) : Accumulator :=
  { removedTurnIds := if a.removedTurnIds.contains turnId then a.removedTurnIds else a.removedTurnIds ++ [turnId]
    changedTurns := a.changedTurns.erase turnId
    changedItems := a.changedItems.eraseWhere (fun key => key.1 == turnId) }

def push (a : Accumulator) (changes : ChangeSet) : Accumulator :=
  let a := changes.removedTurnIds.foldl pushRemovedTurnId a
  let a := changes.changedItems.foldl pushItemChange a
  changes.changedTurns.foldl pushTurnChange a

def finish (a : Accumulator) : ChangeSet := ⟨a.changedItems.values, a.changedTurns.values, a.removedTurnIds⟩

end Accumulator

def Builder.accumulate (env : Env) (s : Builder × Accumulator) (item : RolloutItem) : Builder × Accumulator :=
  let (b, changes) := s.1.handleRolloutItemWithChanges env item
  (b, s.2.push changes)

def Builder.handleRolloutItemsWithChanges (env : Env) (b : Builder) (items : List RolloutItem) : Builder × ChangeSet :=
  let (b, a) := items.foldl (Builder.accumulate env) (b, Accumulator.empty)
  (b, a.finish)

/-! ## The projection -/

/-- What a projector stores: the metadata of each turn and the items of each turn, by their ids. -/
@[ext] structure Projection where
  turns : Str → Option TurnChange
  items : Str × Str → Option ThreadItem

namespace Projection

def empty : Projection := ⟨fun _ => none, fun _ => none⟩

def delete (P : Projection) (ids : List Str) : Projection where
  turns id := if id ∈ ids then none else P.turns id
  items key := if key.1 ∈ ids then none else P.items key

def upsertTurns (P : Projection) (changes : List TurnChange) : Projection :=
  { P with turns := Latest.writes TurnChange.turnId (fun change => change) changes P.turns }

def upsertItems (P : Projection) (changes : List ItemChange) : Projection :=
  { P with items := Latest.writes ItemChange.key ItemChange.item changes P.items }

theorem delete_nil (P : Projection) : P.delete [] = P := by
  simp [delete]

theorem delete_cons (P : Projection) (id : Str) (ids : List Str) : (P.delete [id]).delete ids = P.delete (id :: ids) := by
  apply Projection.ext
  · funext turn
    by_cases h1 : turn ∈ ids <;> by_cases h2 : turn = id <;> simp [delete, h1, h2]
  · funext key
    by_cases h1 : key.1 ∈ ids <;> by_cases h2 : key.1 = id <;> simp [delete, h1, h2]

/-- Delete the removed turns, then upsert the changed turns and items. -/
def apply (P : Projection) (changes : ChangeSet) : Projection :=
  ((P.delete changes.removedTurnIds).upsertTurns changes.changedTurns).upsertItems changes.changedItems

end Projection

/-! ## Coalescing -/

structure Accumulator.Valid (a : Accumulator) : Prop where
  items : a.changedItems.Valid ItemChange.key
  turns : a.changedTurns.Valid TurnChange.turnId

namespace Accumulator

variable {a : Accumulator}

theorem Valid.turns_apply (ha : a.Valid) (P : Projection) (id : Str) :
    (P.apply a.finish).turns id = (a.changedTurns.find id).or (if id ∈ a.removedTurnIds then none else P.turns id) := by
  show Latest.writes _ _ a.changedTurns.values _ id = _
  rw [ha.turns.writes_values, Option.map_id_fun']
  rfl

theorem Valid.items_apply (ha : a.Valid) (P : Projection) (key : Str × Str) : (P.apply a.finish).items key =
      ((a.changedItems.find key).map ItemChange.item).or (if key.1 ∈ a.removedTurnIds then none else P.items key) := by
  show Latest.writes _ _ a.changedItems.values _ key = _
  rw [ha.items.writes_values]
  rfl

theorem Valid.pushItemChange (ha : a.Valid) (change : ItemChange) (P : Projection) : (a.pushItemChange change).Valid ∧
      P.apply (a.pushItemChange change).finish = (P.apply a.finish).upsertItems [change] :=
  ⟨⟨(ha.items.push_spec change).1, ha.turns⟩, Projection.ext rfl (ha.items.writes_push _ change _)⟩

theorem Valid.pushTurnChange (ha : a.Valid) (change : TurnChange) (P : Projection) : (a.pushTurnChange change).Valid ∧
      P.apply (a.pushTurnChange change).finish = (P.apply a.finish).upsertTurns [change] :=
  ⟨⟨ha.items, (ha.turns.push_spec change).1⟩, Projection.ext (ha.turns.writes_push _ change _) rfl⟩

theorem Valid.pushRemovedTurnId (ha : a.Valid) (turnId : Str) (P : Projection) : (a.pushRemovedTurnId turnId).Valid ∧
      P.apply (a.pushRemovedTurnId turnId).finish = (P.apply a.finish).delete [turnId] := by
  have hv : (a.pushRemovedTurnId turnId).Valid := ⟨ha.items.eraseWhere _, (ha.turns.erase_spec _).1⟩
  have hmem : ∀ id, id ∈ (a.pushRemovedTurnId turnId).removedTurnIds ↔ id ∈ a.removedTurnIds ∨ id = turnId := by
    intro id
    show id ∈ (if a.removedTurnIds.contains turnId then _ else _) ↔ _
    split
    · next hc =>
      have hin : turnId ∈ a.removedTurnIds := by simpa using hc
      exact ⟨.inl, fun h => h.elim (fun h => h) fun h => h ▸ hin⟩
    · simp
  refine ⟨hv, Projection.ext (funext fun id => ?_) (funext fun key => ?_)⟩
  · rw [hv.turns_apply]
    show (Latest.find (a.changedTurns.erase turnId) id).or _ = if id ∈ [turnId] then none else (P.apply a.finish).turns id
    rw [ha.turns_apply, (ha.turns.erase_spec _).2]
    by_cases hid : id = turnId <;> simp [hid, hmem]
  · rw [hv.items_apply]
    show ((Latest.find (a.changedItems.eraseWhere _) key).map _).or _ =
      if key.1 ∈ [turnId] then none else (P.apply a.finish).items key
    rw [ha.items_apply, ha.items.find_eraseWhere]
    by_cases hid : key.1 = turnId <;> simp [hid, hmem]

theorem Valid.foldl {β : Type} {f : Accumulator → β → Accumulator} {g : Projection → List β → Projection} {P : Projection}
    (hnil : ∀ Q, g Q [] = Q) (hcons : ∀ Q c cs, g (g Q [c]) cs = g Q (c :: cs))
    (h : ∀ a, Valid a → ∀ c, (f a c).Valid ∧ P.apply (f a c).finish = g (P.apply a.finish) [c]) (ha : a.Valid)
    (cs : List β) : (cs.foldl f a).Valid ∧ P.apply (cs.foldl f a).finish = g (P.apply a.finish) cs := by
  induction cs generalizing a with
  | nil => exact ⟨ha, (hnil _).symm⟩
  | cons c cs ih =>
    obtain ⟨hv, happly⟩ := h a ha c
    obtain ⟨hv', happly'⟩ := ih hv
    exact ⟨hv', by rw [List.foldl_cons, happly', happly, hcons]⟩

/-- **Coalescing a change set and applying what is left is applying the change set.** -/
theorem Valid.push (ha : a.Valid) (changes : ChangeSet) (P : Projection) :
    (a.push changes).Valid ∧ P.apply (a.push changes).finish = (P.apply a.finish).apply changes := by
  obtain ⟨hv1, h1⟩ := ha.foldl Projection.delete_nil Projection.delete_cons (fun a ha id => ha.pushRemovedTurnId id P)
    changes.removedTurnIds
  obtain ⟨hv2, h2⟩ := hv1.foldl (g := Projection.upsertItems) (fun _ => rfl) (fun _ _ _ => rfl)
    (fun a ha change => ha.pushItemChange change P) changes.changedItems
  obtain ⟨hv3, h3⟩ := hv2.foldl (g := Projection.upsertTurns) (fun _ => rfl) (fun _ _ _ => rfl)
    (fun a ha change => ha.pushTurnChange change P) changes.changedTurns
  exact ⟨hv3, h3.trans (by rw [h2, h1]; rfl)⟩

theorem valid_empty : empty.Valid := ⟨Latest.valid_empty, Latest.valid_empty⟩

end Accumulator

def Builder.project (env : Env) (s : Builder × Projection) (item : RolloutItem) : Builder × Projection :=
  let (b, changes) := s.1.handleRolloutItemWithChanges env item
  (b, s.2.apply changes)

theorem project_batch (env : Env) (b : Builder) (P : Projection) (items : List RolloutItem) :
    ((b.handleRolloutItemsWithChanges env items).1, P.apply (b.handleRolloutItemsWithChanges env items).2) =
      items.foldl (Builder.project env) (b, P) := by
  have hrun : ∀ (items : List RolloutItem) (b : Builder) (a : Accumulator), a.Valid →
      ((items.foldl (Builder.accumulate env) (b, a)).1, P.apply (items.foldl (Builder.accumulate env) (b, a)).2.finish) =
        items.foldl (Builder.project env) (b, P.apply a.finish) := by
    intro items
    induction items with
    | nil => exact fun b a _ => rfl
    | cons item items ih =>
      intro b a ha
      obtain ⟨hv, happly⟩ := ha.push (Builder.handleRolloutItemWithChanges env b item).2 P
      rw [List.foldl_cons, List.foldl_cons]
      refine (ih _ _ hv).trans ?_
      rw [happly]
      rfl
  refine (hrun items b .empty Accumulator.valid_empty).trans ?_
  have hempty : P.apply Accumulator.empty.finish = P := P.delete_nil
  rw [hempty]

end Owc.ThreadHistory
