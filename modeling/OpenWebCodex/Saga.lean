/-!
# Saga — fallible steps over shared state, and what undoes them

A step answers with a value or an error and leaves a state behind, an error too.  `compensate` runs an undo step after an error and
answers with that error, or with the undo step's own.
-/
namespace Owc.Saga

variable {ε σ α β : Type}

def Outcome (ε σ α : Type) : Type := Except ε α × σ

def ok (a : α) (s : σ) : Outcome ε σ α := (.ok a, s)

def fail (e : ε) (s : σ) : Outcome ε σ α := (.error e, s)

def Outcome.andThen : Outcome ε σ α → (α → σ → Outcome ε σ β) → Outcome ε σ β
  | (.ok a, s), next => next a s
  | (.error e, s), _ => fail e s

def Outcome.compensate : Outcome ε σ α → (σ → Outcome ε σ Unit) → Outcome ε σ α
  | (.ok a, s), _ => ok a s
  | (.error e, s), undo => (undo s).andThen fun _ t => fail e t

/-- **All or nothing**: an error leaves the state at `s`, a value has `P`. -/
def Outcome.Atomic (s : σ) (P : σ → Prop) : Outcome ε σ α → Prop
  | (.ok _, t) => P t
  | (.error _, t) => t = s

@[simp] theorem ok_andThen (a : α) (s : σ) (next : α → σ → Outcome ε σ β) : (ok a s).andThen next = next a s := rfl

@[simp] theorem fail_andThen (e : ε) (s : σ) (next : α → σ → Outcome ε σ β) : (fail e s).andThen next = fail e s := rfl

@[simp] theorem ok_compensate (a : α) (s : σ) (undo : σ → Outcome ε σ Unit) : (ok a s).compensate undo = ok a s := rfl

@[simp] theorem fail_compensate (e : ε) (s : σ) (undo : σ → Outcome ε σ Unit) :
    (fail e s : Outcome ε σ α).compensate undo = (undo s).andThen fun _ t => fail e t := rfl

@[simp] theorem atomic_ok (s t : σ) (P : σ → Prop) (a : α) : (ok a t : Outcome ε σ α).Atomic s P ↔ P t := Iff.rfl

@[simp] theorem atomic_fail (s t : σ) (P : σ → Prop) (e : ε) : (fail e t : Outcome ε σ α).Atomic s P ↔ t = s := Iff.rfl

theorem atomic_compensate_of_idle {s : σ} {P : σ → Prop} {o : Outcome ε σ α} {undo : σ → Outcome ε σ Unit}
    (h : (undo o.2).2 = o.2) : (o.compensate undo).Atomic s P ↔ o.Atomic s P := by
  obtain ⟨e | _, t⟩ := o
  · change (undo t).2 = t at h
    change ((undo t).andThen fun _ t => fail e t).Atomic s P ↔ t = s
    generalize undo t = r at h ⊢
    subst h
    obtain ⟨_ | _, t⟩ := r <;> rfl
  · rfl

end Owc.Saga
