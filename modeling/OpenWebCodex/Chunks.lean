import Mathlib.Data.List.Basic
import Mathlib.Tactic.Common
/-!
# Chunks — a list cut into pieces of one size, the last of which may be shorter

How many pieces there are is a division rounded up, which is used through its bound only: so many pieces of a size are enough
exactly if they hold the list.
-/
namespace Owc.Chunks

open List

def divCeil (n d : Nat) : Nat := (n + d - 1) / d

def chunksOf {α : Type} (size : Nat) (items : List α) : List (List α) :=
  (List.range (divCeil items.length size)).map (fun i => (items.drop (i * size)).take size)

theorem divCeil_le_iff {n d m : Nat} (hd : 0 < d) : divCeil n d ≤ m ↔ n ≤ m * d := by
  unfold divCeil
  rw [← Nat.lt_succ_iff, Nat.div_lt_iff_lt_mul hd, Nat.succ_mul]
  omega

theorem le_divCeil_mul {n d : Nat} (hd : 0 < d) : n ≤ divCeil n d * d := (divCeil_le_iff hd).1 (Nat.le_refl _)

theorem divCeil_pos {n d : Nat} (hn : 0 < n) (hd : 0 < d) : 0 < divCeil n d := by
  have h := le_divCeil_mul (n := n) hd
  rcases Nat.eq_zero_or_pos (divCeil n d) with hzero | hpos
  · rw [hzero] at h
    omega
  · exact hpos

/-- As many pieces of a size as needed are at most `m` exactly if `m` pieces need at most that size. -/
theorem divCeil_le_comm {n d m : Nat} (hd : 0 < d) (hm : 0 < m) : divCeil n d ≤ m ↔ divCeil n m ≤ d := by
  rw [divCeil_le_iff hd, divCeil_le_iff hm, Nat.mul_comm]

theorem divCeil_anti {n d e : Nat} (hd : 0 < d) (h : d ≤ e) : divCeil n e ≤ divCeil n d := by
  rw [divCeil_le_iff (by omega)]
  exact Nat.le_trans (le_divCeil_mul hd) (Nat.mul_le_mul_left _ h)

variable {α : Type}

@[simp] theorem length_chunksOf (size : Nat) (items : List α) : (chunksOf size items).length = divCeil items.length size := by
  simp [chunksOf]

theorem flatten_windows (size : Nat) (items : List α) (m : Nat) :
    ((List.range m).map (fun i => (items.drop (i * size)).take size)).flatten = items.take (m * size) := by
  induction m with
  | zero => simp
  | succ m ih =>
    rw [range_succ, map_append, flatten_append, ih, Nat.succ_mul, take_add]
    simp

theorem flatten_chunksOf {size : Nat} (hsize : 0 < size) (items : List α) : (chunksOf size items).flatten = items := by
  unfold chunksOf
  rw [flatten_windows, take_of_length_le (le_divCeil_mul hsize)]

theorem getElem?_chunksOf {size i : Nat} (items : List α) (h : i < divCeil items.length size) :
    (chunksOf size items)[i]? = some ((items.drop (i * size)).take size) := by
  simp [chunksOf, h]

theorem length_le_of_mem_chunksOf {size : Nat} {items chunk : List α} (h : chunk ∈ chunksOf size items) :
    chunk.length ≤ size := by
  obtain ⟨i, -, rfl⟩ := mem_map.1 h
  exact length_take_le _ _

theorem ne_nil_of_mem_chunksOf {size : Nat} (hsize : 0 < size) {items chunk : List α} (h : chunk ∈ chunksOf size items) :
    chunk ≠ [] := by
  obtain ⟨i, hi, rfl⟩ := mem_map.1 h
  have hlt : i * size < items.length := by
    by_contra hle
    have hcount := (divCeil_le_iff (m := i) hsize).2 (Nat.not_lt.1 hle)
    exact absurd (mem_range.1 hi) (Nat.not_lt.2 hcount)
  rw [ne_eq, take_eq_nil_iff, drop_eq_nil_iff]
  omega

end Owc.Chunks
