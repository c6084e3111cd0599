import Mathlib.Data.List.Basic
import Mathlib.Logic.Relation
/-!
# Ascend — walking up a chain that may be cyclic

`f a` is the parent of `a`.  The walk goes from parent to parent until there is none or one it has visited, and its fuel
bounds the steps.  With more fuel than parents are left to visit it passes every ancestor.
-/
namespace Owc.Ascend

open List

variable {α : Type} [DecidableEq α] (f : α → Option α)

/-- The parents visited, from `next` on, none of them in `visited`. -/
def ascend : Nat → List α → Option α → List α
  | 0, _, _ => []
  | _ + 1, _, none => []
  | n + 1, visited, some p => if p ∈ visited then [] else p :: ascend n (p :: visited) (f p)

def Parent (a b : α) : Prop := f a = some b

variable {f}

theorem ancestor_of_mem_ascend : ∀ {n : Nat} {visited : List α} {a x : α}, x ∈ ascend f n visited (f a) →
    Relation.TransGen (Parent f) a x
  | 0, _, _, _, h => (not_mem_nil h).elim
  | n + 1, visited, a, x, h => by
    cases hp : f a with
    | none =>
      rw [hp] at h
      exact (not_mem_nil h).elim
    | some =>
      rw [hp] at h
      unfold ascend at h
      split at h
      · exact (not_mem_nil h).elim
      · rcases mem_cons.1 h with rfl | h
        · exact .single hp
        · exact .head hp (ancestor_of_mem_ascend h)

/-- With more fuel than parents outside `visited`, the walk ends where every parent of a passed one has been passed. -/
theorem ascend_closed {parents : List α} (hf : ∀ a b, f a = some b → b ∈ parents) :
    ∀ (n : Nat) (visited : List α) (next : Option α), (∀ p, next = some p → p ∈ parents) →
      (parents.filter (fun p => decide (p ∉ visited))).length < n →
      (∀ p, next = some p → p ∈ visited ∨ p ∈ ascend f n visited next) ∧
        ∀ p ∈ ascend f n visited next, ∀ q, f p = some q → q ∈ visited ∨ q ∈ ascend f n visited next
  | 0, _, _, _, hn => absurd hn (Nat.not_lt_zero _)
  | n + 1, _, none, _, _ => ⟨fun _ h => (Option.some_ne_none _ h.symm).elim, fun _ h => (not_mem_nil h).elim⟩
  | n + 1, visited, some p, hnext, hn => by
    unfold ascend
    split
    · next hp =>
      refine ⟨fun q hq => ?_, fun _ h => (not_mem_nil h).elim⟩
      cases hq
      exact .inl hp
    · next hp =>
      -- `p` is a parent that has not been visited, so fewer are left
      have hless : (parents.filter fun q => decide (q ∉ p :: visited)).length <
          (parents.filter fun q => decide (q ∉ visited)).length := by
        have hsub : (parents.filter fun q => decide (q ∉ p :: visited)).Sublist
            (parents.filter fun q => decide (q ∉ visited)) :=
          monotone_filter_right _ fun q hq => by simp only [decide_eq_true_eq, mem_cons, not_or] at hq ⊢; exact hq.2
        refine Nat.lt_of_le_of_ne hsub.length_le fun heq => ?_
        have hmem : p ∈ parents.filter (fun q => decide (q ∉ visited)) :=
          mem_filter.2 ⟨hnext p rfl, decide_eq_true hp⟩
        rw [← hsub.eq_of_length heq] at hmem
        simp at hmem
      obtain ⟨hfirst, hrest⟩ := ascend_closed hf n (p :: visited) (f p) (hf p) (by omega)
      have hpass : ∀ q, q ∈ p :: visited ∨ q ∈ ascend f n (p :: visited) (f p) →
          q ∈ visited ∨ q ∈ p :: ascend f n (p :: visited) (f p) := by
        intro q hq
        rcases hq with hq | hq
        · rcases mem_cons.1 hq with rfl | hq
          · exact .inr mem_cons_self
          · exact .inl hq
        · exact .inr (mem_cons_of_mem _ hq)
      refine ⟨fun q hq => by cases hq; exact .inr mem_cons_self, fun q hq r hr => hpass r ?_⟩
      rcases mem_cons.1 hq with rfl | hq
      · exact hfirst r hr
      · exact hrest q hq r hr

/-- **The walk passes every ancestor**, whether the chain is cyclic or not. -/
theorem mem_ascend_of_ancestor {parents : List α} (hf : ∀ a b, f a = some b → b ∈ parents) {a x : α}
    (h : Relation.TransGen (Parent f) a x) : x = a ∨ x ∈ ascend f (parents.length + 1) [a] (f a) := by
  obtain ⟨hfirst, hrest⟩ := ascend_closed hf (parents.length + 1) [a] (f a) (hf a) (Nat.lt_succ_of_le (length_filter_le _ _))
  have hvisited : ∀ q, q ∈ [a] ∨ q ∈ ascend f (parents.length + 1) [a] (f a) →
      q = a ∨ q ∈ ascend f (parents.length + 1) [a] (f a) := fun q hq => hq.imp mem_singleton.1 id
  induction h with
  | single h => exact hvisited _ (hfirst _ h)
  | tail _ hbc ih =>
    rcases ih with rfl | ih
    · exact hvisited _ (hfirst _ hbc)
    · exact hvisited _ (hrest _ ih _ hbc)

end Owc.Ascend
