import OpenWebCodex.Table
/-!
# Latest — writes under keys, the latest for each key

A list of slots in the order of the first write for each key, and the slot of each key.  A second write for a key replaces
its slot in place, and a key that is erased leaves an empty slot.  Writing what is left is writing everything.
-/
namespace Owc

open List Option

structure Latest (K V : Type) where
  slots : List (Option V)
  indexes : Table K Nat

namespace Latest

variable {K V W : Type} [DecidableEq K]

def empty : Latest K V := ⟨[], []⟩

def push (key : V → K) (l : Latest K V) (v : V) : Latest K V :=
  match l.indexes.get (key v) with
  | some i => { l with slots := l.slots.set i (some v) }
  | none => ⟨l.slots ++ [some v], l.indexes.put (key v) l.slots.length⟩

def erase (l : Latest K V) (k : K) : Latest K V :=
  match l.indexes.get k with
  | some i => ⟨l.slots.set i none, l.indexes.erase k⟩
  | none => l

def eraseWhere (l : Latest K V) (p : K → Bool) : Latest K V := ((l.indexes.map Prod.fst).filter p).foldl erase l

def values (l : Latest K V) : List V := l.slots.filterMap (fun slot => slot)

def find (l : Latest K V) (k : K) : Option V := (l.indexes.get k).bind (fun i => (l.slots[i]?).join)

/-- Every key has its slot, and every slot its key. -/
structure Valid (key : V → K) (l : Latest K V) : Prop where
  slot_of_index : ∀ k i, l.indexes.get k = some i → ∃ v, l.slots[i]? = some (some v) ∧ key v = k
  index_of_slot : ∀ i v, l.slots[i]? = some (some v) → l.indexes.get (key v) = some i

variable {key : V → K}

theorem valid_empty : Valid key empty where
  slot_of_index _ _ h := by cases h
  index_of_slot i _ h := by cases i <;> cases h

variable {l : Latest K V}

section

variable (hl : Valid key l)
include hl

theorem Valid.find_eq_some {k : K} {v : V} : l.find k = some v ↔ key v = k ∧ ∃ i : Nat, l.slots[i]? = some (some v) := by
  unfold find
  constructor
  · intro h
    obtain ⟨i, hi, hv⟩ := bind_eq_some_iff.1 h
    obtain ⟨w, hw, hk⟩ := hl.slot_of_index k i hi
    rw [hw] at hv
    cases hv
    exact ⟨hk, i, hw⟩
  · rintro ⟨hk, i, hi⟩
    rw [← hk, hl.index_of_slot i v hi, bind_some, hi]
    rfl

theorem Valid.mem_values {v : V} : v ∈ l.values ↔ l.find (key v) = some v := by
  rw [hl.find_eq_some, values, mem_filterMap]
  constructor
  · rintro ⟨slot, hslot, rfl⟩
    exact ⟨rfl, mem_iff_getElem?.1 hslot⟩
  · rintro ⟨_, hi⟩
    exact ⟨some v, mem_iff_getElem?.2 hi, rfl⟩

/-! ## Operations -/

/-- **The slot of a key written anew**, with a value of the key or, with the key gone, with nothing. -/
theorem Valid.set {k : K} {i : Nat} (hi : l.indexes.get k = some i) {x : Option V} (hx : ∀ v, x = some v → key v = k)
    {indexes : Table K Nat} (hget : ∀ j, indexes.get j = if j = k then x.map (fun _ => i) else l.indexes.get j) :
    Valid key ⟨l.slots.set i x, indexes⟩ ∧ ∀ j, find ⟨l.slots.set i x, indexes⟩ j = if j = k then x else l.find j := by
  obtain ⟨w, hw, hkw⟩ := hl.slot_of_index k i hi
  have hlt : i < l.slots.length := (List.getElem?_eq_some_iff.1 hw).1
  have hset : (l.slots.set i x)[i]? = some x := getElem?_set_self hlt
  have hother : ∀ j n, j ≠ k → l.indexes.get j = some n → (l.slots.set i x)[n]? = l.slots[n]? := by
    intro j n hj hn
    refine getElem?_set_ne ?_
    rintro rfl
    obtain ⟨u, hu, hku⟩ := hl.slot_of_index j i hn
    rw [hw] at hu
    cases hu
    exact hj (hku.symm.trans hkw)
  refine ⟨⟨fun j n hn => ?_, fun n u hu => ?_⟩, fun j => ?_⟩
  · rw [hget] at hn
    split at hn
    · next hj =>
      obtain ⟨v, hv, rfl⟩ := map_eq_some_iff.1 hn
      exact ⟨v, by rw [hset, hv], (hx v hv).trans hj.symm⟩
    · next hj =>
      obtain ⟨u, hu, hku⟩ := hl.slot_of_index j n hn
      exact ⟨u, (hother j n hj hn).trans hu, hku⟩
  · by_cases hin : i = n
    · subst hin
      have hxu := some.inj (hset.symm.trans hu)
      rw [hget, if_pos (hx u hxu), hxu]
      rfl
    · have hn := hl.index_of_slot n u ((getElem?_set_ne hin).symm.trans hu)
      rw [hget, if_neg, hn]
      rintro rfl
      exact hin (some.inj (hi.symm.trans hn))
  · unfold find
    dsimp only
    rw [hget]
    split
    · cases x with
      | none => rfl
      | some => rw [map_some, bind_some, hset, join_some]
    · next hj =>
      cases hn : l.indexes.get j with
      | none => rfl
      | some n => rw [bind_some, bind_some, hother j n hj hn]

theorem Valid.push_spec (v : V) :
    Valid key (l.push key v) ∧ ∀ k, (l.push key v).find k = if k = key v then some v else l.find k := by
  unfold Latest.push
  cases hv : l.indexes.get (key v) with
  | some =>
    refine hl.set hv (fun u hu => by cases hu; rfl) fun j => ?_
    split
    · next hj => rw [hj, hv, map_some]
    · rfl
  | none =>
    have hold : ∀ k j, l.indexes.get k = some j → (l.slots ++ [some v])[j]? = l.slots[j]? := by
      intro k j hj
      obtain ⟨u, hu, _⟩ := hl.slot_of_index k j hj
      exact getElem?_append_left (List.getElem?_eq_some_iff.1 hu).1
    refine ⟨⟨fun k j hj => ?_, fun j u hu => ?_⟩, fun k => ?_⟩
    · obtain ⟨hk, rfl⟩ | ⟨_, hj⟩ := Table.get_put_some hj
      · exact ⟨v, getElem?_concat_length, hk.symm⟩
      · obtain ⟨u, hu, hk⟩ := hl.slot_of_index k j hj
        exact ⟨u, (hold k j hj).trans hu, hk⟩
    · rw [Table.get_put]
      by_cases hj : j < l.slots.length
      · rw [getElem?_append_left hj] at hu
        have hget := hl.index_of_slot j u hu
        rw [if_neg (fun hk => by rw [hk, hv] at hget; cases hget), hget]
      have hlast : j = l.slots.length := by
        have := (List.getElem?_eq_some_iff.1 hu).1
        rw [length_append, length_singleton] at this
        omega
      subst hlast
      rw [getElem?_concat_length, some.injEq, some.injEq] at hu
      rw [if_pos (by rw [hu])]
    · unfold find
      dsimp only
      rw [Table.get_put]
      split
      · rw [bind_some, getElem?_concat_length, join_some]
      · cases hj : l.indexes.get k with
        | none => rfl
        | some j => rw [bind_some, bind_some, hold k j hj]

theorem Valid.erase_spec (k : K) : Valid key (l.erase k) ∧ ∀ j, (l.erase k).find j = if j = k then none else l.find j := by
  unfold Latest.erase
  cases hk : l.indexes.get k with
  | none =>
    refine ⟨hl, fun j => ?_⟩
    by_cases hj : j = k
    · rw [if_pos hj, hj, find, hk, bind_none]
    · rw [if_neg hj]
  | some => exact hl.set hk (fun _ h => by cases h) fun j => Table.get_erase k j _

theorem Valid.foldl_erase (ks : List K) :
    Valid key (ks.foldl Latest.erase l) ∧ ∀ j, (ks.foldl Latest.erase l).find j = if j ∈ ks then none else l.find j := by
  induction ks generalizing l with
  | nil => exact ⟨hl, fun j => by simp⟩
  | cons k ks ih =>
    obtain ⟨hvalid, hfind⟩ := ih (hl.erase_spec k).1
    refine ⟨hvalid, fun j => ?_⟩
    rw [foldl_cons, hfind, (hl.erase_spec k).2]
    by_cases hj : j ∈ ks <;> by_cases hk : j = k <;> simp [hj, hk]

theorem Valid.eraseWhere (p : K → Bool) : Valid key (l.eraseWhere p) :=
  (hl.foldl_erase _).1

theorem Valid.find_eraseWhere (p : K → Bool) (k : K) : (l.eraseWhere p).find k = if p k = true then none else l.find k := by
  unfold Latest.eraseWhere
  rw [(hl.foldl_erase _).2]
  cases hi : l.indexes.get k with
  | none =>
    have : l.find k = none := by rw [find, hi, bind_none]
    rw [this, ite_self, ite_self]
  | some i =>
    have hmem : k ∈ l.indexes.map Prod.fst := List.mem_map.2 ⟨(k, i), Table.mem_of_get hi, rfl⟩
    simp [mem_filter, hmem]

end

/-! ## Writing -/

def writes (key : V → K) (out : V → W) (vs : List V) (f : K → Option W) : K → Option W :=
  vs.foldl (fun f v k => if k = key v then some (out v) else f k) f

theorem writes_append (out : V → W) (vs ws : List V) (f : K → Option W) :
    writes key out (vs ++ ws) f = writes key out ws (writes key out vs f) := foldl_append

theorem writes_of_not_mem (out : V → W) {vs : List V} {k : K} (h : ∀ v ∈ vs, key v ≠ k) (f : K → Option W) :
    writes key out vs f k = f k := by
  induction vs generalizing f with
  | nil => rfl
  | cons v vs ih =>
    show writes key out vs _ k = _
    rw [ih fun w hw => h w (mem_cons_of_mem _ hw)]
    exact if_neg (h v mem_cons_self).symm

theorem writes_of_unique (out : V → W) {vs : List V} {w : V} (hw : w ∈ vs) (h : ∀ v ∈ vs, key v = key w → v = w)
    (f : K → Option W) : writes key out vs f (key w) = some (out w) := by
  induction vs generalizing f with
  | nil => cases hw
  | cons v vs ih =>
    show writes key out vs _ _ = _
    have hrest := fun u hu => h u (mem_cons_of_mem v hu)
    by_cases hmem : w ∈ vs
    · exact ih hmem hrest _
    have hvw : v = w := by
      rcases mem_cons.1 hw with rfl | hw
      · rfl
      · exact absurd hw hmem
    rw [writes_of_not_mem out fun u hu hk => hmem (hrest u hu hk ▸ hu), hvw]
    exact if_pos rfl

/-- **The values that are left write what is found.** -/
theorem Valid.writes_values (hl : Valid key l) (out : V → W) (f : K → Option W) (k : K) :
    writes key out l.values f k = ((l.find k).map out).or (f k) := by
  cases hk : l.find k with
  | none =>
    rw [map_none, none_or]
    refine writes_of_not_mem out (fun v hv hkey => ?_) f
    rw [hl.mem_values, hkey, hk] at hv
    cases hv
  | some w =>
    have hkey : key w = k := (hl.find_eq_some.1 hk).1
    subst hkey
    rw [map_some, some_or]
    refine writes_of_unique out (hl.mem_values.2 hk) (fun v hv hkey => ?_) f
    rw [hl.mem_values, hkey, hk] at hv
    exact (some.inj hv).symm

theorem Valid.writes_push (hl : Valid key l) (out : V → W) (v : V) (f : K → Option W) :
    writes key out (l.push key v).values f = writes key out [v] (writes key out l.values f) := by
  obtain ⟨hpush, hfind⟩ := hl.push_spec v
  funext k
  show _ = if k = key v then some (out v) else _
  rw [hpush.writes_values, hfind, hl.writes_values]
  split <;> rfl

end Latest
end Owc
