import Mathlib.Data.List.Basic
import Mathlib.Data.List.Nodup
import Mathlib.Logic.Function.Iterate
/-!
# Pairing — items of a list that ask and answer by key

Some items ask, some answer, none does both; an answer belongs to the ask of its key wherever either stands.  The list is
completed by answers put behind asks by index, and shortened from its front together with the partner of what is removed.
-/
namespace Owc.Pairing

open List

/-! ## Insertion by index -/

section Insertion

variable {α : Type}

/-- Items put behind others of the list, listed by index and inserted from the last on, so that no index shifts. -/
def insertBehind (items : List α) (inserted : List (Nat × α)) : List α :=
  inserted.foldr (fun p items => items.insertIdx (p.1 + 1) p.2) items

theorem insertBehind_shift (x : α) (items : List α) (inserted : List (Nat × α)) :
    insertBehind (x :: items) (inserted.map (fun p => (p.1 + 1, p.2))) = x :: insertBehind items inserted := by
  induction inserted with
  | nil => rfl
  | cons p inserted ih =>
    show (insertBehind (x :: items) (inserted.map _)).insertIdx (p.1 + 1 + 1) p.2 = _
    rw [ih]
    rfl

def found (f : α → Option α) (items : List α) (start : Nat) : List (Nat × α) :=
  (items.zipIdx start).filterMap (fun p => (f p.1).map (fun y => (p.2, y)))

theorem found_cons (f : α → Option α) (x : α) (items : List α) (start : Nat) :
    found f (x :: items) start = ((f x).map (fun y => (start, y))).toList ++ found f items (start + 1) := by
  unfold found
  rw [zipIdx_cons, filterMap_cons]
  cases f x <;> rfl

theorem found_succ (f : α → Option α) (items : List α) (start : Nat) :
    found f items (start + 1) = (found f items start).map (fun p => (p.1 + 1, p.2)) := by
  induction items generalizing start with
  | nil => rfl
  | cons x items ih =>
    rw [found_cons, found_cons, ih, map_append]
    congr 1
    cases f x <;> rfl

/-- **Inserting by index from the last on puts each item right behind the one it was found for.** -/
theorem insertBehind_found (f : α → Option α) (items : List α) :
    insertBehind items (found f items 0) = items.flatMap (fun x => x :: (f x).toList) := by
  induction items with
  | nil => rfl
  | cons x items ih =>
    rw [found_cons, found_succ, flatMap_cons, ← ih]
    have hrest := insertBehind_shift x items (found f items 0)
    cases f x with
    | none => exact hrest
    | some y => exact congrArg (fun items : List α => items.insertIdx (0 + 1) y) hrest

end Insertion

/-! ## Removal from the front -/

section Removal

variable {α Key : Type}

/-- What is left of a list, and every item left has its partner if it had one. -/
structure Keeps (ask answer : α → Option Key) (items rest : List α) : Prop where
  sublist : rest.Sublist items
  answered : ∀ x ∈ rest, ∀ key, ask x = some key → (∃ y ∈ items, answer y = some key) → ∃ y ∈ rest, answer y = some key
  asked : ∀ y ∈ rest, ∀ key, answer y = some key → (∃ x ∈ items, ask x = some key) → ∃ x ∈ rest, ask x = some key

theorem Keeps.refl (ask answer : α → Option Key) (items : List α) : Keeps ask answer items items :=
  ⟨List.Sublist.refl items, fun _ _ _ _ h => h, fun _ _ _ _ h => h⟩

theorem Keeps.trans {ask answer : α → Option Key} {items rest rest' : List α} (h : Keeps ask answer items rest)
    (h' : Keeps ask answer rest rest') : Keeps ask answer items rest' :=
  ⟨h'.sublist.trans h.sublist,
    fun x hx key hkey hpartner => h'.answered x hx key hkey (h.answered x (h'.sublist.subset hx) key hkey hpartner),
    fun y hy key hkey hpartner => h'.asked y hy key hkey (h.asked y (h'.sublist.subset hy) key hkey hpartner)⟩

variable {items : List α}

/-- A step that keeps partners where no key stands twice keeps them over any number of steps. -/
theorem Keeps.iterate {ask answer : α → Option Key} {step : List α → List α}
    (hstep : ∀ items, (items.filterMap ask).Nodup → (items.filterMap answer).Nodup → Keeps ask answer items (step items))
    (n : Nat) (hasks : (items.filterMap ask).Nodup) (hanswers : (items.filterMap answer).Nodup) :
    Keeps ask answer items (step^[n] items) := by
  induction n generalizing items with
  | zero => exact .refl ask answer items
  | succ n ih =>
    rw [Function.iterate_succ_apply]
    have hone := hstep items hasks hanswers
    exact hone.trans (ih (hasks.sublist (hone.sublist.filterMap ask)) (hanswers.sublist (hone.sublist.filterMap answer)))

variable {keyOf : α → Option Key}

theorem eq_of_key_eq (hkeys : (items.filterMap keyOf).Nodup) {key : Key} {x y : α}
    (hx : x ∈ items) (hy : y ∈ items) (hxkey : keyOf x = some key) (hykey : keyOf y = some key) : x = y := by
  induction items with
  | nil => cases hx
  | cons z items ih =>
    have hrest := hkeys.sublist ((sublist_cons_self z items).filterMap keyOf)
    have hfresh : ∀ w ∈ items, keyOf z = some key → keyOf w ≠ some key := by
      intro w hw hz hwkey
      rw [filterMap_cons_some hz, nodup_cons] at hkeys
      exact hkeys.1 (mem_filterMap.2 ⟨w, hw, hwkey⟩)
    rcases mem_cons.1 hx with rfl | hxmem <;> rcases mem_cons.1 hy with rfl | hymem
    · rfl
    · exact absurd hykey (hfresh y hymem hxkey)
    · exact absurd hxkey (hfresh x hxmem hykey)
    · exact ih hrest hxmem hymem

variable [DecidableEq Key]

def dropKey (keyOf : α → Option Key) (key : Option Key) (items : List α) : List α :=
  match key with
  | some key => items.eraseP (fun x => keyOf x = some key)
  | none => items

def dropFirst (ask answer : α → Option Key) : List α → List α
  | [] => []
  | x :: items => dropKey ask (answer x) (dropKey answer (ask x) items)

theorem dropKey_sublist (keyOf : α → Option Key) (key : Option Key) (items : List α) :
    (dropKey keyOf key items).Sublist items := by
  cases key with
  | none => exact List.Sublist.refl items
  | some => exact eraseP_sublist

theorem mem_dropKey_of_ne {key : Key} {x : α} (hx : x ∈ items)
    (hne : keyOf x ≠ some key) : x ∈ dropKey keyOf (some key) items :=
  (mem_eraseP_of_neg (by simpa using hne)).2 hx

theorem ne_of_mem_dropKey {key : Key} (hkeys : (items.filterMap keyOf).Nodup)
    {x : α} (hx : x ∈ dropKey keyOf (some key) items) : keyOf x ≠ some key := by
  induction items with
  | nil => cases hx
  | cons y items ih =>
    unfold dropKey at hx ih
    dsimp only at hx ih
    by_cases hy : keyOf y = some key
    · rw [filterMap_cons_some hy, nodup_cons] at hkeys
      rw [eraseP_cons_of_pos (by simpa using hy)] at hx
      intro hkey
      exact hkeys.1 (mem_filterMap.2 ⟨x, hx, hkey⟩)
    · rw [eraseP_cons_of_neg (by simpa using hy)] at hx
      rcases mem_cons.1 hx with rfl | hx
      · exact hy
      · exact ih (hkeys.sublist ((sublist_cons_self y items).filterMap keyOf)) hx

/-- A key removed by either of two descriptions of its items that agree on the list. -/
theorem eraseP_eq_dropKey {key : Key} {p : α → Bool}
    (h : ∀ x ∈ items, p x = true ↔ keyOf x = some key) : items.eraseP p = dropKey keyOf (some key) items := by
  induction items with
  | nil => rfl
  | cons x items ih =>
    have hx := h x mem_cons_self
    have hrest := ih fun y hy => h y (mem_cons_of_mem x hy)
    unfold dropKey at hrest ⊢
    dsimp only at hrest ⊢
    rw [eraseP_cons, eraseP_cons, hrest]
    by_cases hk : keyOf x = some key
    · rw [hx.2 hk]
      simp [hk]
    · rw [Bool.eq_false_iff.2 fun hp => hk (hx.1 hp)]
      simp [hk]

section Front

variable {ask answer : α → Option Key} (hone : ∀ x, ask x = none ∨ answer x = none)
include hone

theorem dropFirst_cons (x : α) (items : List α) : (ask x = none ∧ answer x = none ∧ dropFirst ask answer (x :: items) = items) ∨
    (∃ key, ask x = some key ∧ answer x = none ∧ dropFirst ask answer (x :: items) = dropKey answer (some key) items) ∨
    (∃ key, ask x = none ∧ answer x = some key ∧ dropFirst ask answer (x :: items) = dropKey ask (some key) items) := by
  cases hask : ask x with
  | some key =>
    have hanswer := (hone x).resolve_left (by simp [hask])
    refine .inr (.inl ⟨key, rfl, hanswer, ?_⟩)
    rw [dropFirst, hask, hanswer]
    rfl
  | none =>
    cases hanswer : answer x with
    | none =>
      refine .inl ⟨rfl, rfl, ?_⟩
      rw [dropFirst, hask, hanswer]
      rfl
    | some key =>
      refine .inr (.inr ⟨key, rfl, rfl, ?_⟩)
      rw [dropFirst, hask, hanswer]
      rfl

/-- What asks and is left behind a removal still finds its answer: the item removed was not it, nor was the partner. -/
theorem answered_dropFirst (hasks : (items.filterMap ask).Nodup) :
    ∀ x ∈ dropFirst ask answer items, ∀ key, ask x = some key → (∃ y ∈ items, answer y = some key) →
      ∃ y ∈ dropFirst ask answer items, answer y = some key := by
  cases items with
  | nil => simp [dropFirst]
  | cons first items =>
    rintro x hx key hkey ⟨y, hy, hanswer⟩
    have hnodup : (items.filterMap ask).Nodup :=
      hasks.sublist ((sublist_cons_self first items).filterMap ask)
    rcases dropFirst_cons hone first items with ⟨-, hfirst, heq⟩ | ⟨k, hfirst, hnone, heq⟩ | ⟨k, hnone, hfirst, heq⟩ <;>
      rw [heq] at hx ⊢ <;> rcases mem_cons.1 hy with rfl | hy
    · cases hfirst.symm.trans hanswer
    · exact ⟨y, hy, hanswer⟩
    · cases hnone.symm.trans hanswer
    · refine ⟨y, mem_dropKey_of_ne hy ?_, hanswer⟩
      intro hk
      -- the item removed and `x` would both ask for the answer of `y`
      have hsame : k = key := Option.some.inj (hk.symm.trans hanswer)
      rw [filterMap_cons_some hfirst, nodup_cons] at hasks
      exact hasks.1 (mem_filterMap.2 ⟨x, (dropKey_sublist _ _ _).subset hx, hsame ▸ hkey⟩)
    · have hsame : k = key := Option.some.inj (hfirst.symm.trans hanswer)
      exact absurd (hsame ▸ hkey) (ne_of_mem_dropKey hnodup hx)
    · refine ⟨y, mem_dropKey_of_ne hy ?_, hanswer⟩
      rw [(hone y).resolve_right (by simp [hanswer])]
      simp

omit hone in
theorem dropFirst_sublist (items : List α) : (dropFirst ask answer items).Sublist items := by
  cases items with
  | nil => exact List.Sublist.refl _
  | cons x items =>
    exact ((dropKey_sublist _ _ _).trans (dropKey_sublist _ _ _)).trans (sublist_cons_self x items)

theorem dropFirst_comm (items : List α) : dropFirst ask answer items = dropFirst answer ask items := by
  cases items with
  | nil => rfl
  | cons x =>
    rw [dropFirst, dropFirst]
    rcases hone x with h | h <;> rw [h] <;> rfl

theorem keeps_dropFirst (hasks : (items.filterMap ask).Nodup) (hanswers : (items.filterMap answer).Nodup) :
    Keeps ask answer items (dropFirst ask answer items) where
  sublist := dropFirst_sublist items
  answered := answered_dropFirst hone hasks
  asked := by
    rw [dropFirst_comm hone]
    exact answered_dropFirst (fun x => (hone x).symm) hanswers

end Front

end Removal

end Owc.Pairing
