import OpenWebCodex.Table
import OpenWebCodex.Text
/-!
# Json — JSON values

A JSON value as a program holds it: an object is its members in key order, as an ordered map iterates them, and a number
is a natural number, a negative integer or a finite binary float.  `get` and `erase` on members are the table's;
`insert` keeps the key order.  Equality is decided by one walk over both values.
-/
namespace Owc

open List

/-- A finite float is given by its value, so the two zeros are one. -/
inductive Number
  | posInt (n : Nat)
  | negInt (n : Int)
  | float (q : Rat)
deriving DecidableEq

def Number.toRat : Number → Rat
  | .posInt n => n
  | .negInt n => n
  | .float q => q

inductive Json
  | null
  | bool (b : Bool)
  | number (n : Number)
  | string (s : Str)
  | array (values : List Json)
  | object (members : List (Str × Json))

namespace Json

abbrev Map := Table Str Json

mutual

def beq : Json → Json → Bool
  | .null, .null => true
  | .bool a, .bool b => a == b
  | .number m, .number n => m == n
  | .string s, .string t => s == t
  | .array xs, .array ys => beqValues xs ys
  | .object xs, .object ys => beqMembers xs ys
  | _, _ => false

def beqValues : List Json → List Json → Bool
  | [], [] => true
  | x :: xs, y :: ys => beq x y && beqValues xs ys
  | _, _ => false

def beqMembers : List (Str × Json) → List (Str × Json) → Bool
  | [], [] => true
  | (j, x) :: xs, (k, y) :: ys => j == k && beq x y && beqMembers xs ys
  | _, _ => false

end

mutual

theorem beq_iff : ∀ v w, beq v w ↔ v = w
  | .null, w => by cases w <;> simp [beq]
  | .bool _, w => by cases w <;> simp [beq]
  | .number _, w => by cases w <;> simp [beq]
  | .string _, w => by cases w <;> simp [beq]
  | .array xs, w => by cases w <;> simp [beq, beqValues_iff xs]
  | .object xs, w => by cases w <;> simp [beq, beqMembers_iff xs]

theorem beqValues_iff : ∀ xs ys, beqValues xs ys ↔ xs = ys
  | [], ys => by cases ys <;> simp [beqValues]
  | x :: xs, ys => by cases ys <;> simp [beqValues, beq_iff x, beqValues_iff xs]

theorem beqMembers_iff : ∀ xs ys : List (Str × Json), beqMembers xs ys ↔ xs = ys
  | [], ys => by cases ys <;> simp [beqMembers]
  | (j, x) :: xs, ys => by
    cases ys with
    | nil => simp [beqMembers]
    | cons y => obtain ⟨k, y⟩ := y; simp [beqMembers, beq_iff x, beqMembers_iff xs]

end

instance : DecidableEq Json := fun v w => decidable_of_iff (beq v w = true) (beq_iff v w)

theorem sizeOf_lt_array (h : v ∈ values) : sizeOf v < sizeOf (array values) := by
  have hlt := sizeOf_lt_of_mem h
  simp only [array.sizeOf_spec]
  omega

theorem sizeOf_lt_object {e} (h : e ∈ members) : sizeOf e.2 < sizeOf (object members) := by
  have hlt := sizeOf_lt_of_mem h
  obtain ⟨k, v⟩ := e
  simp only [Prod.mk.sizeOf_spec, object.sizeOf_spec] at hlt ⊢
  omega

/-- Induction over a value: a property of the parts is a property of the whole. -/
@[elab_as_elim]
theorem inductOn {motive : Json → Prop} (null : motive .null) (bool : ∀ b, motive (.bool b))
    (number : ∀ n, motive (.number n)) (string : ∀ s, motive (.string s))
    (array : ∀ values, (∀ v ∈ values, motive v) → motive (.array values))
    (object : ∀ members, (∀ e ∈ members, motive e.2) → motive (.object members)) : ∀ v, motive v
  | .null => null
  | .bool b => bool b
  | .number n => number n
  | .string s => string s
  | .array values => array values fun v _ => inductOn null bool number string array object v
  | .object members => object members fun e _ => inductOn null bool number string array object e.2
termination_by v => sizeOf v
decreasing_by exacts [sizeOf_lt_array ‹_›, sizeOf_lt_object ‹_›]

/-! ## Reading a value -/

def asStr : Json → Option Str
  | .string s => some s
  | _ => none

def asArray : Json → Option (List Json)
  | .array values => some values
  | _ => none

def asObject : Json → Option Map
  | .object members => some members
  | _ => none

theorem eq_of_asArray {v : Json} {values : List Json} (h : v.asArray = some values) : v = .array values := by
  cases v with
  | array => rw [Option.some.inj h]
  | _ => cases h

theorem eq_of_asObject {v : Json} {members : Map} (h : v.asObject = some members) : v = .object members := by
  cases v with
  | object => rw [Option.some.inj h]
  | _ => cases h

def get (v : Json) (key : Str) : Option Json := v.asObject.bind (·.get key)

/-! ## Building an object -/

/-- `value` under `key`, before the first larger key. -/
def Map.place : Map → Str → Json → Map
  | [], key, value => [(key, value)]
  | (k, v) :: m, key, value => if key < k then (key, value) :: (k, v) :: m else (k, v) :: Map.place m key value

def Map.insert (m : Map) (key : Str) (value : Json) : Map := Map.place (m.erase key) key value

def Map.ofList (members : List (Str × Json)) : Map := members.foldl (fun m e => m.insert e.1 e.2) []

variable {e : Str × Json}

theorem Map.mem_place : ∀ {m}, e ∈ Map.place m key value → e = (key, value) ∨ e ∈ m
  | [], h => by
    rw [Map.place, mem_singleton] at h
    exact .inl h
  | (k, v) :: m, h => by
    rw [Map.place] at h
    split at h
    · exact mem_cons.1 h
    rcases mem_cons.1 h with rfl | h
    · exact .inr mem_cons_self
    · rcases Map.mem_place h with h | h
      · exact .inl h
      · exact .inr (mem_cons_of_mem _ h)

theorem Map.mem_insert {m : Map} {key : Str} {value : Json} (h : e ∈ m.insert key value) :
    e = (key, value) ∨ (e ∈ m ∧ e.1 ≠ key) := by
  rcases Map.mem_place h with h | h
  · exact .inl h
  · obtain ⟨hm, hk⟩ := mem_filter.1 h
    exact .inr ⟨hm, by simpa using hk⟩

theorem Map.mem_foldl_insert : ∀ {members : List (Str × Json)} {m : Map},
    e ∈ members.foldl (fun m e => Map.insert m e.1 e.2) m → e ∈ m ∨ e ∈ members
  | [], m, h => .inl h
  | (k, v) :: members, m, h => by
    rw [foldl_cons] at h
    rcases Map.mem_foldl_insert h with h | h
    · rcases Map.mem_insert h with h | h
      · exact .inr (mem_cons.2 (.inl h))
      · exact .inl h.1
    · exact .inr (mem_cons_of_mem _ h)

theorem Map.mem_ofList (h : e ∈ Map.ofList members) : e ∈ members := by
  rcases Map.mem_foldl_insert h with h | h
  · cases h
  · exact h

/-! ## Objects without repeated keys -/

mutual

/-- No object at any depth has a key twice, as no map does. -/
def unique : Json → Bool
  | .array values => uniqueValues values
  | .object members => decide (members.map (·.1)).Nodup && uniqueMembers members
  | .null | .bool _ | .number _ | .string _ => true

def uniqueValues : List Json → Bool
  | [] => true
  | v :: vs => unique v && uniqueValues vs

def uniqueMembers : List (Str × Json) → Bool
  | [] => true
  | (_, v) :: ms => unique v && uniqueMembers ms

end

theorem uniqueValues_iff : ∀ vs, uniqueValues vs ↔ ∀ v ∈ vs, unique v
  | [] => by simp [uniqueValues]
  | v :: vs => by simp [uniqueValues, uniqueValues_iff vs]

theorem uniqueMembers_iff : ∀ ms : List (Str × Json), uniqueMembers ms ↔ ∀ e ∈ ms, unique e.2
  | [] => by simp [uniqueMembers]
  | (_, v) :: ms => by simp [uniqueMembers, uniqueMembers_iff ms]

theorem Map.get_of_mem : ∀ {m : Map}, (m.map (·.1)).Nodup → (k, v) ∈ m → m.get k = some v
  | (j, w) :: m, hn, h => by
    rw [map_cons, nodup_cons] at hn
    rw [Table.get]
    rcases mem_cons.1 h with he | h
    · cases he
      rw [if_pos rfl]
    have hne : j ≠ k := by
      rintro rfl
      exact hn.1 (mem_map.2 ⟨(j, v), h, rfl⟩)
    rw [if_neg hne]
    exact Map.get_of_mem hn.2 h

section

variable {m : Map} (h : unique (.object m) = true)
include h

theorem get_of_unique (he : e ∈ m) : m.get e.1 = some e.2 ∧ unique e.2 := by
  rw [unique, Bool.and_eq_true, decide_eq_true_eq] at h
  exact ⟨Map.get_of_mem h.1 he, (uniqueMembers_iff m).1 h.2 e he⟩

theorem unique_of_get (hv : m.get k = some v) : unique v := (get_of_unique h (Table.mem_of_get hv)).2

theorem unique_object_of_get {k : Str} {members : Map} (hm : (m.get k).bind asObject = some members) :
    unique (.object members) := by
  obtain ⟨v, hv, ho⟩ := Option.bind_eq_some_iff.1 hm
  rw [← eq_of_asObject ho]
  exact unique_of_get h hv

end

end Json
end Owc
