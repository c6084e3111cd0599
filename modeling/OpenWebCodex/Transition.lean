import Mathlib.Data.List.Basic
/-!
# Transition — runs of a system that takes one action at a time

`step s a` is the state after action `a`, or none where `a` cannot happen.  `Meets` says that every action of a run
meets a condition where it is taken, `Always` that every state of a run has a property.  An invariant is shown once for
a step and holds along every run.
-/
namespace Owc.Transition

open Option

variable {σ α : Type} (step : σ → α → Option σ)

def run : σ → List α → Option σ
  | s, [] => some s
  | s, a :: as => (step s a).bind (fun t => run t as)

/-- Every action of the run meets `C` in the state it is taken in. -/
def Meets (C : σ → α → Prop) : σ → List α → Prop
  | _, [] => True
  | s, a :: as => C s a ∧ ∀ t, step s a = some t → Meets C t as

/-- `Meets` for a condition that can be computed. -/
def checks (C : σ → α → Bool) : σ → List α → Bool
  | _, [] => true
  | s, a :: as => C s a && (step s a).all (fun t => checks C t as)

/-- Every state of the run satisfies `P`, the first included. -/
def Always (P : σ → Prop) : σ → List α → Prop
  | s, [] => P s
  | s, a :: as => P s ∧ ∀ t, step s a = some t → Always P t as

variable {step}

theorem run_append : ∀ (as bs : List α) (s : σ), run step s (as ++ bs) = (run step s as).bind (fun t => run step t bs)
  | [], _, _ => rfl
  | a :: as, bs, s => by
    simp only [List.cons_append, run]
    cases step s a with
    | none => rfl
    | some t => exact run_append as bs t

theorem run_concat {b : α} {as : List α} {s t u : σ} (h : run step s as = some t) (hb : step t b = some u) :
    run step s (as ++ [b]) = some u := by
  rw [run_append, h, bind_some, run, hb]
  rfl

theorem run_cons_append {a b : α} {as : List α} {s t : σ} (h : run step s (a :: as ++ [b]) = some t) :
    ∃ u v, step s a = some u ∧ run step u as = some v ∧ step v b = some t := by
  rw [run_append] at h
  obtain ⟨v, hv, h⟩ := bind_eq_some_iff.1 h
  obtain ⟨u, hu, hv⟩ := bind_eq_some_iff.1 hv
  obtain ⟨w, hw, h⟩ := bind_eq_some_iff.1 h
  cases h
  exact ⟨u, v, hu, hv, hw⟩

/-- **What every allowed step keeps, every run of allowed steps keeps.** -/
theorem run_invariant {I : σ → Prop} {C : σ → α → Prop} (hstep : ∀ s a t, I s → C s a → step s a = some t → I t) :
    ∀ {as : List α} {s t : σ}, I s → Meets step C s as → run step s as = some t → I t
  | [], _, _, hi, _, h => by cases h; exact hi
  | a :: as, s, t, hi, hm, h => by
    obtain ⟨u, hu, h⟩ := bind_eq_some_iff.1 h
    exact run_invariant hstep (hstep s a u hi hm.1 hu) (hm.2 u hu) h

theorem meets_of_checks {C : σ → α → Bool} : ∀ {as : List α} {s : σ}, checks step C s as → Meets step (fun s a => C s a) s as
  | [], _, _ => trivial
  | a :: as, s, h => by
    obtain ⟨hc, ht⟩ := Bool.and_eq_true_iff.1 h
    refine ⟨hc, fun t hs => meets_of_checks ?_⟩
    rwa [hs] at ht

theorem meets_of_decide {C : σ → α → Prop} [∀ s a, Decidable (C s a)] {as : List α} {s : σ}
    (h : checks step (fun s a => decide (C s a)) s as) : Meets step C s as := by
  have hm := meets_of_checks h
  simpa only [decide_eq_true_eq] using hm

theorem Meets.mono {C D : σ → α → Prop} (hCD : ∀ s a, C s a → D s a) :
    ∀ {as : List α} {s : σ}, Meets step C s as → Meets step D s as
  | [], _, _ => trivial
  | a :: _, s, h => ⟨hCD s a h.1, fun t ht => (h.2 t ht).mono hCD⟩

theorem meets_true (C : σ → α → Prop) (hC : ∀ s a, C s a) : ∀ (as : List α) (s : σ), Meets step C s as
  | [], _ => trivial
  | a :: as, s => ⟨hC s a, fun t _ => meets_true C hC as t⟩

theorem run_invariant_of_step {I : σ → Prop} (hstep : ∀ s a t, I s → step s a = some t → I t) {as : List α} {s t : σ}
    (hi : I s) (h : run step s as = some t) : I t :=
  run_invariant (C := fun _ _ => True) (fun s a t hs _ h => hstep s a t hs h) hi (meets_true _ (fun _ _ => trivial) as s) h

/-- **A property is lost in a run exactly where a step breaks it.**  `B` marks the steps that break `P`. -/
theorem always_iff_meets {P : σ → Prop} {B C : σ → α → Prop} (hkeep : ∀ s a t, P s → C s a → ¬ B s a → step s a = some t → P t)
    (hbreak : ∀ s a, C s a → B s a → ∃ t, step s a = some t ∧ ¬ P t) :
    ∀ {as : List α} {s : σ}, P s → Meets step C s as → (Always step P s as ↔ Meets step (fun s a => ¬ B s a) s as)
  | [], _, hp, _ => iff_of_true hp trivial
  | a :: as, s, hp, hc => by
    constructor
    · rintro ⟨_, ha⟩
      have hb : ¬ B s a := by
        intro hb
        obtain ⟨t, ht, hnp⟩ := hbreak s a hc.1 hb
        have h := ha t ht
        cases as with
        | nil => exact hnp h
        | cons => exact hnp h.1
      refine ⟨hb, fun t ht => ?_⟩
      exact (always_iff_meets hkeep hbreak (hkeep s a t hp hc.1 hb ht) (hc.2 t ht)).1 (ha t ht)
    · rintro ⟨hb, hm⟩
      refine ⟨hp, fun t ht => ?_⟩
      exact (always_iff_meets hkeep hbreak (hkeep s a t hp hc.1 hb ht) (hc.2 t ht)).2 (hm t ht)

end Owc.Transition
