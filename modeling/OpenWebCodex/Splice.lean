import Mathlib.Data.List.Sort
/-!
# Splice — edits of a list, sorted and carried out from the right

An `Edit` replaces the `len` items from `start` on.  Carrying out a list of edits from the right, each on the list the
edits after it left, is reading the list from the left with every edited range replaced (`spliceAll_eq_substitute`),
once no edit reaches into the next.  The edits of a stable sort by `start` are so arranged exactly when the unsorted
ones are pairwise apart (`pairwise_before_insertionSort`).
-/
namespace Owc.Splice

open List

variable {α : Type}

structure Edit (α : Type) where
  start : Nat
  len : Nat
  new : List α
deriving DecidableEq

namespace Edit

def splice (l : List α) (e : Edit α) : List α := l.take e.start ++ e.new ++ l.drop (e.start + e.len)

/-- `e` ends at or before the start of `f`. -/
def Before (e f : Edit α) : Prop := e.start + e.len ≤ f.start

def Fits (n : Nat) (e : Edit α) : Prop := e.start + e.len ≤ n

def Le (e f : Edit α) : Prop := e.start ≤ f.start

instance : DecidableRel (Before (α := α)) := fun e f => inferInstanceAs (Decidable (e.start + e.len ≤ f.start))
instance (n : Nat) : DecidablePred (Fits (α := α) n) := fun e => inferInstanceAs (Decidable (e.start + e.len ≤ n))
instance : DecidableRel (Le (α := α)) := fun e f => inferInstanceAs (Decidable (e.start ≤ f.start))

/-- **Two edits that leave each other's range alone** once sorted, `e` being the earlier of the two when they start at
one place. -/
def Apart (e f : Edit α) : Prop := if e.start ≤ f.start then e.Before f else f.Before e

instance : DecidableRel (Apart (α := α)) := fun e f =>
  inferInstanceAs (Decidable (if e.start ≤ f.start then e.Before f else f.Before e))

theorem apart_iff {e f : Edit α} : e.Apart f ↔ e.start + e.len ≤ f.start ∨ (f.start < e.start ∧ f.start + f.len ≤ e.start) := by
  unfold Apart Before
  split <;> omega

end Edit

/-- The edited list, read from the left: the items up to each edit, then its new ones. -/
def substituteFrom (l : List α) : Nat → List (Edit α) → List α
  | pos, []      => l.drop pos
  | pos, e :: es => (l.drop pos).take (e.start - pos) ++ e.new ++ substituteFrom l (e.start + e.len) es

def substitute (l : List α) (es : List (Edit α)) : List α := substituteFrom l 0 es

def spliceAll (l : List α) (es : List (Edit α)) : List α := es.foldr (fun e acc => e.splice acc) l

/-- Edits from `pos` on leave at least `pos` items. -/
theorem le_length_spliceAll (l : List α) (pos : Nat) (hl : pos ≤ l.length) : ∀ (es : List (Edit α)),
    (∀ e ∈ es, pos ≤ e.start) → pos ≤ (spliceAll l es).length
  | [], _ => hl
  | e :: es, h => by
    have ih := le_length_spliceAll l pos hl es fun f hf => h f (mem_cons_of_mem _ hf)
    have he := h e mem_cons_self
    show pos ≤ (e.splice (spliceAll l es)).length
    unfold Edit.splice
    rw [length_append, length_append, length_take]
    omega

/-! ## From the right and from the left -/

theorem take_append_take_drop (l : List α) {a b : Nat} (h : a ≤ b) : l.take a ++ (l.drop a).take (b - a) = l.take b := by
  rw [take_drop, Nat.add_sub_cancel' h]
  conv => rhs; rw [← take_append_drop a (l.take b)]
  rw [take_take, Nat.min_eq_left h]

/-- The items before the first edit stay, the rest is read from the left. -/
theorem spliceAll_eq_take_append (l : List α) : ∀ (es : List (Edit α)) (pos : Nat), pos ≤ l.length →
    (∀ e ∈ es, pos ≤ e.start) → es.Pairwise Edit.Before → (∀ e ∈ es, e.Fits l.length) →
    spliceAll l es = l.take pos ++ substituteFrom l pos es
  | [], pos, _, _, _, _ => (take_append_drop pos l).symm
  | e :: es, pos, _, hpos, hb, hfit => by
    have he : e.start + e.len ≤ l.length := hfit e mem_cons_self
    have ih := spliceAll_eq_take_append l es (e.start + e.len) he (fun f hf => rel_of_pairwise_cons hb hf) hb.of_cons
      (fun f hf => hfit f (mem_cons_of_mem _ hf))
    have hlen : (l.take (e.start + e.len)).length = e.start + e.len := length_take_of_le he
    show e.splice (spliceAll l es) = _
    unfold Edit.splice substituteFrom
    rw [ih, take_append_of_le_length (by omega), take_take, Nat.min_eq_left (by omega),
      drop_left' hlen, ← take_append_take_drop l (hpos e mem_cons_self)]
    simp only [append_assoc]

/-- **Carrying out edits from the right replaces every range and nothing else**, once none reaches into the next. -/
theorem spliceAll_eq_substitute (l : List α) (es : List (Edit α)) (hb : es.Pairwise Edit.Before)
    (hfit : ∀ e ∈ es, e.Fits l.length) : spliceAll l es = substitute l es := by
  rw [spliceAll_eq_take_append l es 0 (Nat.zero_le _) (fun _ _ => Nat.zero_le _) hb hfit]
  rfl

/-! ## Sorting -/

theorem pairwise_before_orderedInsert (e : Edit α) : ∀ (l : List (Edit α)), l.Pairwise Edit.Le →
    ((l.orderedInsert Edit.Le e).Pairwise Edit.Before ↔ (∀ f ∈ l, e.Apart f) ∧ l.Pairwise Edit.Before)
  | [], _ => by simp
  | f :: l, hs => by
    have hf : ∀ g ∈ l, f.Le g := fun g hg => rel_of_pairwise_cons hs hg
    rw [orderedInsert_cons]
    by_cases hef : e.Le f
    · have hall : ∀ g ∈ f :: l, (e.Apart g ↔ e.Before g) := fun g hg => by
        have hle : e.start ≤ g.start := by
          rcases mem_cons.1 hg with rfl | hg
          · exact hef
          · exact Nat.le_trans hef (hf g hg)
        unfold Edit.Apart
        rw [if_pos hle]
      rw [if_pos hef, pairwise_cons]
      exact and_congr_left' ⟨fun h g hg => (hall g hg).2 (h g hg), fun h g hg => (hall g hg).1 (h g hg)⟩
    · have hap : e.Apart f ↔ f.Before e := by
        unfold Edit.Apart
        rw [if_neg (show ¬ e.start ≤ f.start from hef)]
      rw [if_neg hef, pairwise_cons, pairwise_cons, pairwise_before_orderedInsert e l hs.of_cons]
      simp only [mem_orderedInsert, mem_cons, forall_eq_or_imp, hap]
      tauto

/-- **A stable sort leaves no edit reaching into the next exactly when the edits were pairwise apart.** -/
theorem pairwise_before_insertionSort : ∀ (l : List (Edit α)),
    (l.insertionSort Edit.Le).Pairwise Edit.Before ↔ l.Pairwise Edit.Apart
  | [] => by simp
  | e :: l => by
    have : Std.Total (Edit.Le (α := α)) := ⟨fun a b => Nat.le_total a.start b.start⟩
    have : IsTrans (Edit α) Edit.Le := ⟨fun _ _ _ h1 h2 => Nat.le_trans h1 h2⟩
    rw [insertionSort_cons, pairwise_before_orderedInsert e _ (pairwise_insertionSort Edit.Le l),
      pairwise_cons, pairwise_before_insertionSort l]
    simp only [mem_insertionSort]

end Owc.Splice
