import OpenWebCodex.Table
/-!
# Arrivals — numbered items that arrive in any order, some of them more than once

The first copy of a number counts.  What can be released in order are the first copies below the first number that has not
arrived; the other first copies wait.
-/
namespace Owc.Arrivals

open List

variable {α : Type}

abbrev firstCopy (arrivals : List (Nat × α)) (seq : Nat) : Option α := Table.get arrivals seq

structure IsNext (arrivals : List (Nat × α)) (next : Nat) : Prop where
  below : ∀ seq < next, (firstCopy arrivals seq).isSome
  missing : firstCopy arrivals next = none

/-- The first copies from one number to another, in order. -/
def copies (arrivals : List (Nat × α)) (start count : Nat) : List α :=
  (List.range' start count).filterMap (firstCopy arrivals)

def firsts (arrivals : List (Nat × α)) : Table Nat α :=
  arrivals.foldl (fun kept arrival => if (kept.get arrival.1).isSome then kept else kept ++ [arrival]) []

/-- The first copies at or above a number. -/
def waiting (arrivals : List (Nat × α)) (start : Nat) : Table Nat α :=
  (firsts arrivals).filter (fun arrival => decide (start ≤ arrival.1))

section

variable (arrivals : List (Nat × α))

theorem firsts_append (arrival : Nat × α) : firsts (arrivals ++ [arrival]) =
      if ((firsts arrivals).get arrival.1).isSome then firsts arrivals else firsts arrivals ++ [arrival] := by
  unfold firsts
  rw [foldl_append]
  rfl

theorem get_firsts (seq : Nat) : (firsts arrivals).get seq = firstCopy arrivals seq := by
  induction arrivals using reverseRecOn with
  | nil => rfl
  | append_singleton arrivals arrival ih =>
    have happend : firstCopy (arrivals ++ [arrival]) seq = (firstCopy arrivals seq).or (Table.get [arrival] seq) :=
      Table.get_append seq [arrival] arrivals
    rw [firsts_append, happend, ← ih]
    split
    · next hseen =>
      obtain ⟨_, hcopy⟩ := Option.isSome_iff_exists.1 hseen
      by_cases heq : arrival.1 = seq <;> simp_all [Table.get]
    · rw [Table.get_append]

theorem get_waiting (start seq : Nat) :
    (waiting arrivals start).get seq = if start ≤ seq then firstCopy arrivals seq else none := by
  rw [waiting, Table.get_filter fun number => decide (start ≤ number), get_firsts]
  simp only [decide_eq_true_eq]

theorem erase_waiting (start : Nat) : (waiting arrivals start).erase start = waiting arrivals (start + 1) := by
  unfold waiting Table.erase
  rw [filter_filter]
  apply filter_congr
  intro arrival _
  rw [← Bool.decide_and, decide_eq_decide]
  omega

end

variable {arrivals : List (Nat × α)}

theorem waiting_append_of_isSome {seq : Nat} (h : (firstCopy arrivals seq).isSome) (item : α)
    (start : Nat) : waiting (arrivals ++ [(seq, item)]) start = waiting arrivals start := by
  unfold waiting
  rw [firsts_append, if_pos (by rwa [get_firsts])]

theorem waiting_append_of_le {seq start : Nat} (h : firstCopy arrivals seq = none) (hle : start ≤ seq) (item : α) :
    waiting (arrivals ++ [(seq, item)]) start = waiting arrivals start ++ [(seq, item)] := by
  unfold waiting
  rw [firsts_append, if_neg (by rw [get_firsts, h]; exact Bool.false_ne_true), filter_append,
    filter_cons_of_pos (by simpa using hle)]
  rfl

theorem waiting_append_of_lt {seq start : Nat} (h : firstCopy arrivals seq = none)
    (hlt : seq < start) (item : α) : waiting (arrivals ++ [(seq, item)]) start = waiting arrivals start := by
  unfold waiting
  rw [firsts_append, if_neg (by rw [get_firsts, h]; exact Bool.false_ne_true), filter_append,
    filter_cons_of_neg (by simpa using hlt)]
  exact append_nil _

theorem firstCopy_append (arrivals : List (Nat × α)) (seq number : Nat) (item : α) :
    firstCopy (arrivals ++ [(number, item)]) seq =
      (firstCopy arrivals seq).or (if number = seq then some item else none) := by
  rw [firstCopy, Table.get_append]
  rfl

theorem firstCopy_append_of_isSome {seq : Nat} (h : (firstCopy arrivals seq).isSome)
    (later : List (Nat × α)) : firstCopy (arrivals ++ later) seq = firstCopy arrivals seq := by
  rw [firstCopy, Table.get_append, Option.or_of_isSome h]

section

variable {next other : Nat} (h : IsNext arrivals next)
include h

theorem IsNext.le (h' : IsNext arrivals other) : next ≤ other :=
  Nat.not_lt.1 fun hlt => by simpa [h'.missing] using h.below other hlt

theorem IsNext.unique (h' : IsNext arrivals other) : next = other := Nat.le_antisymm (h.le h') (h'.le h)

theorem IsNext.isSome_append (later : List (Nat × α)) : ∀ seq < next, (firstCopy (arrivals ++ later) seq).isSome :=
  fun seq hlt => firstCopy_append_of_isSome (h.below seq hlt) later ▸ h.below seq hlt

theorem IsNext.append_of_ne {seq : Nat} (hne : seq ≠ next) (item : α) : IsNext (arrivals ++ [(seq, item)]) next :=
  ⟨h.isSome_append _, by rw [firstCopy_append, h.missing, if_neg hne]; rfl⟩

end

theorem copies_add (arrivals : List (Nat × α)) (start count more : Nat) :
    copies arrivals start (count + more) = copies arrivals start count ++ copies arrivals (start + count) more := by
  unfold copies
  rw [← range'_append_1, filterMap_append]

theorem copies_succ {start : Nat} {item : α} (h : firstCopy arrivals start = some item)
    (count : Nat) : copies arrivals start (count + 1) = item :: copies arrivals (start + 1) count := by
  unfold copies
  rw [range'_succ, filterMap_cons, h]

theorem copies_append {start count : Nat}
    (h : ∀ seq < start + count, (firstCopy arrivals seq).isSome) (later : List (Nat × α)) :
    copies (arrivals ++ later) start count = copies arrivals start count := by
  unfold copies
  apply filterMap_congr
  intro seq hmem
  exact firstCopy_append_of_isSome (h seq (mem_range'_1.1 hmem).2) later

theorem copies_eq {items : List α}
    (h : ∀ seq < items.length, firstCopy arrivals seq = items[seq]?) : copies arrivals 0 items.length = items := by
  have hcopies : copies arrivals 0 items.length = (range items.length).filterMap (fun seq => items[seq]?) := by
    unfold copies
    rw [← range_eq_range']
    exact filterMap_congr fun seq hmem => h seq (mem_range.1 hmem)
  rw [hcopies]
  clear hcopies h
  induction items using reverseRecOn with
  | nil => rfl
  | append_singleton items item ih =>
    rw [length_append, length_singleton, range_succ, filterMap_append]
    have hbefore : (range items.length).filterMap (fun seq => (items ++ [item])[seq]?) =
        (range items.length).filterMap (fun seq => items[seq]?) :=
      filterMap_congr fun seq hmem => getElem?_append_left (mem_range.1 hmem)
    rw [hbefore, ih]
    simp

end Owc.Arrivals
