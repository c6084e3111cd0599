import Mathlib
/-!
# Table — rows under keys

A table is a list of rows, each under its key.  `put` writes a row, `updateWhere` and `updateAll` are `UPDATE` with the
guard of their `WHERE`, `select` lists the rows a guard accepts.  Every statement is read back through `get`.
-/
namespace Owc

open List Prod

abbrev Table (K α : Type) := List (K × α)

namespace Table

variable {K α : Type} [DecidableEq K]

@[local grind =] def get : Table K α → K → Option α
  | [], _ => none
  | (j, a) :: t, k => if j = k then some a else get t k

def put : Table K α → K → α → Table K α
  | [], k, a => [(k, a)]
  | (j, b) :: t, k, a => if j = k then (k, a) :: t else (j, b) :: put t k a

def erase (t : Table K α) (k : K) : Table K α := t.filter (fun e => decide (e.1 ≠ k))

def extend (t overlay : Table K α) : Table K α := overlay.foldr (fun e t => put t e.1 e.2) t

/-- `UPDATE … WHERE id = k AND p`. -/
def updateWhere (t : Table K α) (k : K) (p : α → Bool) (f : α → α) : Table K α :=
  match get t k with
  | none => t
  | some a => if p a then put t k (f a) else t

/-- Whether `UPDATE … WHERE id = k AND p` affects its row. -/
def holds (t : Table K α) (k : K) (p : α → Bool) : Bool := (get t k).any p

/-- `UPDATE … WHERE p`. -/
def updateAll (t : Table K α) (p : α → Bool) (f : α → α) : Table K α :=
  t.map (fun e => (e.1, if p e.2 then f e.2 else e.2))

/-- `SELECT … WHERE p`, each row under the key it is read back by. -/
def select (t : Table K α) (p : α → Bool) : List (K × α) :=
  t.filterMap (fun e => (get t e.1).bind (fun a => if p a then some (e.1, a) else none))

def anyRow (t : Table K α) (p : K → α → Bool) : Bool := t.any (fun e => (get t e.1).any (p e.1))

theorem get_put (k : K) (a : α) (j : K) : ∀ t : Table K α, get (put t k a) j = if j = k then some a else get t j
  | [] => by
    simp only [put, get]
    by_cases h : j = k
    · simp [h]
    · simp [h, Ne.symm h]
  | (i, b) :: t => by
    have ih := get_put k a j t
    by_cases hi : i = k
    · subst hi
      by_cases h : j = i
      · simp [put, get, h]
      · simp [put, get, h, Ne.symm h]
    · by_cases h : i = j
      · subst h
        simp [put, get, hi]
      · simp [put, get, hi, h, ih]

@[simp] theorem get_put_self (t : Table K α) (k : K) (a : α) : get (put t k a) k = some a := by rw [get_put, if_pos rfl]

theorem get_extend (t : Table K α) (k : K) : ∀ overlay : Table K α, get (extend t overlay) k = (get overlay k).or (get t k)
  | [] => rfl
  | (j, a) :: overlay => by
    show get (put (extend t overlay) j a) k = _
    rw [get_put, get_extend t k overlay]
    by_cases h : j = k
    · simp [get, h]
    · simp [get, h, Ne.symm h]

theorem get_put_of_ne {j k : K} (h : j ≠ k) (t : Table K α) (a : α) : get (put t k a) j = get t j := by
  rw [get_put, if_neg h]

variable {t : Table K α}

/-- A row read back after a write is the one written, or an old one under another key. -/
theorem get_put_some {k j : K} {a b : α} (h : get (put t k a) j = some b) : (j = k ∧ b = a) ∨ (j ≠ k ∧ get t j = some b) := by
  rw [get_put] at h
  split at h
  · next hj =>
    rw [Option.some.injEq] at h
    exact .inl ⟨hj, h.symm⟩
  · next hj =>
    exact .inr ⟨hj, h⟩

theorem isSome_get_put {k j : K} (a : α) (h : (get t j).isSome) : (get (put t k a) j).isSome := by
  rw [get_put]
  by_cases hj : j = k
  · simp [hj]
  · simpa [hj] using h

theorem isSome_get_of_put {k j : K} {a : α} (hj : j ≠ k) (h : (get (put t k a) j).isSome) : (get t j).isSome := by
  rwa [get_put_of_ne hj] at h

theorem get_filter (p : K → Bool) (j : K) : ∀ t : Table K α, get (t.filter (fun e => p e.1)) j = if p j then get t j else none
  | [] => by simp [get]
  | (i, b) :: t => by
    have ih := get_filter p j t
    by_cases hi : p i
    · rw [filter_cons_of_pos (by simpa using hi)]
      by_cases h : i = j
      · subst h
        simp [get, hi]
      · simp only [get, h, if_false]
        exact ih
    · rw [filter_cons_of_neg (by simpa using hi), ih]
      by_cases h : i = j
      · subst h
        simp [hi]
      · simp [get, h]

theorem get_erase (k j : K) (t : Table K α) : get (erase t k) j = if j = k then none else get t j := by
  rw [erase, get_filter (fun i => decide (i ≠ k)) j t]
  by_cases hj : j = k <;> simp [hj]

theorem get_of_get_erase {k j : K} {a : α} (h : get (erase t k) j = some a) : get t j = some a := by
  rw [get_erase] at h
  split at h
  · cases h
  · exact h

theorem length_erase_le (t : Table K α) (k : K) : (erase t k).length ≤ t.length := length_filter_le _ t

variable {k : K}

theorem length_erase_lt (h : (get t k).isSome) : (erase t k).length < t.length := by
  refine Nat.lt_of_le_of_ne (length_erase_le t k) fun heq => ?_
  have hself : erase t k = t := filter_sublist.eq_of_length heq
  have hnone := get_erase k k t
  rw [hself, if_pos rfl] at hnone
  rw [hnone] at h
  cases h

theorem length_put_le (k : K) (a : α) : ∀ t : Table K α, (put t k a).length ≤ t.length + 1
  | [] => Nat.le_refl 1
  | (j, b) :: t => by
    by_cases h : j = k
    · simp [put, h]
    · simp only [put, h, if_false, length_cons]
      exact Nat.succ_le_succ (length_put_le k a t)

theorem length_put_of_get (k : K) (a : α) : ∀ {t : Table K α}, (get t k).isSome → (put t k a).length = t.length
  | [], h => nomatch h
  | (j, b) :: t, h => by
    by_cases hj : j = k
    · simp [put, hj]
    · simp only [get, hj, if_false] at h
      simp only [put, hj, if_false, length_cons]
      exact congrArg (· + 1) (length_put_of_get k a h)

theorem put_put (k : K) (a b : α) : ∀ t : Table K α, put (put t k a) k b = put t k b
  | [] => by simp [put]
  | (j, c) :: t => by
    by_cases h : j = k
    · simp [put, h]
    · simp only [put, h, if_false]
      exact congrArg ((j, c) :: ·) (put_put k a b t)

theorem erase_put (k : K) (a : α) : ∀ t : Table K α, erase (put t k a) k = erase t k
  | [] => by simp [put, erase]
  | (j, b) :: t => by
    by_cases h : j = k
    · simp [put, erase, h]
    · simp only [put, h, if_false, erase, filter_cons, ne_eq, not_false_eq_true, decide_true, if_true]
      exact congrArg ((j, b) :: ·) (erase_put k a t)

theorem get_updateWhere (t : Table K α) (k : K) (p : α → Bool) (f : α → α) (j : K) :
    get (updateWhere t k p f) j = (get t j).map (fun a => if j = k ∧ p a then f a else a) := by
  unfold updateWhere
  by_cases hj : j = k
  · cases h : get t k with
    | none => simp [hj, h]
    | some a => by_cases hp : p a <;> simp [hp, hj, h]
  · cases get t k with
    | none => simp [hj]
    | some a => by_cases hp : p a <;> simp [hp, hj, get_put]

variable {p : α → Bool}

theorem updateWhere_of_not_holds (f : α → α) (h : holds t k p = false) : updateWhere t k p f = t := by
  unfold updateWhere
  unfold holds at h
  cases hg : get t k with
  | none => rfl
  | some => simp_all

theorem isSome_get_updateWhere (t : Table K α) (k : K) (p : α → Bool) (f : α → α) (j : K) :
    (get (updateWhere t k p f) j).isSome = (get t j).isSome := by
  rw [get_updateWhere, Option.isSome_map]

theorem holds_iff : holds t k p ↔ ∃ a, get t k = some a ∧ p a := by
  simp only [holds, Option.any_eq_true]

theorem get_updateAll (p : α → Bool) (f : α → α) (j : K) :
    ∀ t : Table K α, get (updateAll t p f) j = (get t j).map (fun a => if p a then f a else a)
  | [] => rfl
  | (i, b) :: t => by
    have ih := get_updateAll p f j t
    unfold updateAll at ih ⊢
    by_cases h : i = j
    · simp [get, h]
    · simp [get, h, ih]

theorem mem_select {a : α} (h : (k, a) ∈ select t p) : get t k = some a ∧ p a := by
  obtain ⟨e, _, he⟩ := mem_filterMap.1 h
  obtain ⟨b, hb, hs⟩ := Option.bind_eq_some_iff.1 he
  split at hs
  · next hp =>
    rw [Option.some.injEq, mk.injEq] at hs
    obtain ⟨rfl, rfl⟩ := hs
    exact ⟨hb, hp⟩
  · cases hs

theorem mem_of_get {a : α} : ∀ {t : Table K α}, get t k = some a → (k, a) ∈ t
  | (i, b) :: t, h => by
    by_cases hi : i = k
    · simp only [get, hi, if_true, Option.some.injEq] at h
      simp [hi, h]
    · simp only [get, hi, if_false] at h
      exact mem_cons_of_mem _ (mem_of_get h)

theorem isSome_get_of_mem {e : K × α} : ∀ {t : Table K α}, e ∈ t → (get t e.1).isSome
  | (j, b) :: t, h => by
    by_cases hj : j = e.1
    · simp [get, hj]
    rcases mem_cons.1 h with rfl | h
    · exact absurd rfl hj
    · simp only [get, hj, if_false]
      exact isSome_get_of_mem h

theorem mem_select_of_get {a : α} (h : get t k = some a) (hp : p a) : (k, a) ∈ select t p := by
  refine mem_filterMap.2 ⟨(k, a), mem_of_get h, ?_⟩
  simp [h, hp]

theorem anyRow_iff {p : K → α → Bool} : anyRow t p ↔ ∃ k a, get t k = some a ∧ p k a := by
  unfold anyRow
  rw [any_eq_true]
  constructor
  · rintro ⟨e, _, he⟩
    cases hg : get t e.1 with
    | none => rw [hg] at he; cases he
    | some a => exact ⟨e.1, a, hg, by rwa [hg] at he⟩
  · rintro ⟨k, a, hg, hp⟩
    exact ⟨(k, a), mem_of_get hg, by rw [hg]; exact hp⟩

theorem put_of_get_none (a : α) : ∀ {t : Table K α}, get t k = none → put t k a = t ++ [(k, a)]
  | [], _ => rfl
  | (j, b) :: t, h => by
    unfold get at h
    split at h
    · cases h
    · next hne => rw [put, if_neg hne, put_of_get_none a h, cons_append]

theorem get_append (k : K) (later : Table K α) : ∀ t : Table K α, get (t ++ later) k = (get t k).or (get later k)
  | [] => rfl
  | (j, b) :: t => by
    rw [cons_append, get, get]
    split
    · rfl
    · exact get_append k later t

theorem get_eq_none_iff : get t k = none ↔ k ∉ t.map fst := by
  constructor
  · intro hnone hmem
    obtain ⟨e, he, rfl⟩ := mem_map.1 hmem
    have hsome := isSome_get_of_mem he
    rw [hnone] at hsome
    cases hsome
  · intro hnot
    cases hget : get t k with
    | none => rfl
    | some => exact absurd (mem_map.2 ⟨_, mem_of_get hget, rfl⟩) hnot

/-! ## Distinct keys -/

def Distinct (t : Table K α) : Prop := (t.map Prod.fst).Nodup

def weigh (f : α → Nat) (t : Table K α) : Nat := (t.map (fun e => f e.2)).sum

omit [DecidableEq K] in
theorem Distinct.filter (h : Distinct t) (p : K × α → Bool) : Distinct (t.filter p) :=
  List.Nodup.sublist (filter_sublist.map _) h

theorem Distinct.append (h : Distinct t) (hnone : get t k = none) (a : α) : Distinct (t ++ [(k, a)]) := by
  unfold Distinct
  rw [map_append, nodup_append]
  refine ⟨h, by simp, fun j hj i hi hji => ?_⟩
  rw [map_singleton, mem_singleton] at hi
  subst hji hi
  exact get_eq_none_iff.1 hnone hj

theorem Distinct.put (h : Distinct t) (k : K) (a : α) : Distinct (put t k a) := by
  have hkeys : ∀ {t : Table K α}, k ∈ t.map fst → (Table.put t k a).map fst = t.map fst := by
    intro t hmem
    induction t with
    | nil => cases hmem
    | cons e t ih =>
      rw [Table.put]
      split
      · next he => simp [he]
      · next he =>
        rw [map_cons, mem_cons] at hmem
        rw [map_cons, map_cons, ih (hmem.resolve_left (Ne.symm he))]
  by_cases hmem : k ∈ t.map fst
  · rw [Distinct, hkeys hmem]
    exact h
  · have hnone := get_eq_none_iff.2 hmem
    rw [put_of_get_none a hnone]
    exact h.append hnone a

omit [DecidableEq K] in
theorem weigh_append (f : α → Nat) (t : Table K α) (k : K) (a : α) : weigh f (t ++ [(k, a)]) = weigh f t + f a := by
  simp [weigh]

theorem erase_of_get_none (h : get t k = none) : erase t k = t := by
  rw [erase, filter_eq_self]
  intro e he
  rw [decide_eq_true_eq]
  rintro rfl
  exact get_eq_none_iff.1 h (mem_map.2 ⟨e, he, rfl⟩)

/-- Where keys are distinct, the row of a key is erased with its weight. -/
theorem weigh_erase (f : α → Nat) {a : α} :
    ∀ {t : Table K α}, Distinct t → get t k = some a → weigh f (erase t k) + f a = weigh f t
  | [], _, h => (nomatch h)
  | (j, b) :: t, hdistinct, h => by
    unfold Distinct at hdistinct
    rw [map_cons, nodup_cons] at hdistinct
    unfold get at h
    split at h
    · next heq =>
      subst heq
      cases h
      have hrest : erase ((j, a) :: t) j = t :=
        (filter_cons_of_neg (by simp)).trans (erase_of_get_none (get_eq_none_iff.2 hdistinct.1))
      rw [hrest]
      simp [weigh, Nat.add_comm]
    · next hne =>
      have hrest : erase ((j, b) :: t) k = (j, b) :: erase t k := filter_cons_of_pos (by simpa using hne)
      have ih := weigh_erase f hdistinct.2 h
      rw [hrest]
      simp only [weigh, map_cons, sum_cons] at ih ⊢
      omega

end Table
end Owc
