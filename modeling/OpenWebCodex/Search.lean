import Mathlib.Data.List.Infix
import Mathlib.Tactic.Common
/-!
# Search — the first place of a needle in a text that comes in parts

If a needle is not in a first part, it can begin in it only in the longest end of the part that begins the needle; all before
that end can be given away (`find_append_of_none`).
-/
namespace Owc.Search

open List Nat Option

variable {α : Type} [DecidableEq α]

def find (needle : List α) : List α → Option Nat
  | [] => if needle.isPrefixOf [] then some 0 else none
  | a :: text => if needle.isPrefixOf (a :: text) then some 0 else (find needle text).map (· + 1)

def longestSuffixPrefixUpTo (text needle : List α) : Nat → Nat
  | 0 => 0
  | k + 1 => if (needle.take (k + 1)).isSuffixOf text then k + 1 else longestSuffixPrefixUpTo text needle k

def longestSuffixPrefixLen (text needle : List α) : Nat :=
  longestSuffixPrefixUpTo text needle (min text.length (needle.length - 1))

def At (needle text : List α) (i : Nat) : Prop := i ≤ text.length ∧ needle <+: text.drop i

variable {needle text : List α}

theorem find_eq_none_iff : find needle text = none ↔ ∀ i, ¬At needle text i := by
  induction text with
  | nil =>
    rw [find]
    split
    · next h =>
      exact iff_of_false (by simp) fun hnone => hnone 0 ⟨le_refl _, isPrefixOf_iff_prefix.1 h⟩
    · next h =>
      refine iff_of_true rfl fun i hat => h ?_
      rw [ isPrefixOf_iff_prefix]
      simpa [At] using hat.2
  | cons a text ih =>
    rw [find]
    split
    · next h =>
      exact iff_of_false (by simp) fun hnone => hnone 0 ⟨zero_le _, isPrefixOf_iff_prefix.1 h⟩
    · next h =>
      rw [map_eq_none_iff, ih]
      constructor
      · rintro hnone (_ | i) ⟨hle, hpre⟩
        · exact h ( isPrefixOf_iff_prefix.2 hpre)
        · exact hnone i ⟨le_of_succ_le_succ hle, hpre⟩
      · exact fun hnone i hat => hnone (i + 1) ⟨succ_le_succ hat.1, hat.2⟩

variable {i : Nat}

theorem find_eq_some_iff : find needle text = some i ↔ At needle text i ∧ ∀ j < i, ¬At needle text j := by
  induction text generalizing i with
  | nil =>
    rw [find]
    split
    · next h =>
      constructor
      · rintro ⟨⟩
        exact ⟨⟨le_refl _, isPrefixOf_iff_prefix.1 h⟩, fun j hj => absurd hj (not_lt_zero j)⟩
      · rintro ⟨⟨hle, -⟩, -⟩
        rw [le_zero.1 hle]
    · next h =>
      refine iff_of_false (by simp) fun hat => h ?_
      rw [ isPrefixOf_iff_prefix]
      simpa [At] using hat.1.2
  | cons a text ih =>
    rw [find]
    split
    · next h =>
      have hzero : At needle (a :: text) 0 := ⟨zero_le _, isPrefixOf_iff_prefix.1 h⟩
      constructor
      · rintro ⟨⟩
        exact ⟨hzero, fun j hj => absurd hj (not_lt_zero j)⟩
      · rintro ⟨-, hfirst⟩
        cases i with
        | zero => rfl
        | succ i => exact absurd hzero (hfirst 0 (succ_pos i))
    · next h =>
      rw [map_eq_some_iff]
      have hzero : ¬At needle (a :: text) 0 := fun hat => h ( isPrefixOf_iff_prefix.2 hat.2)
      have hsucc : ∀ j, At needle (a :: text) (j + 1) ↔ At needle text j := by
        intro j
        exact and_congr_left fun _ => succ_le_succ_iff
      constructor
      · rintro ⟨j, hj, rfl⟩
        obtain ⟨hat, hfirst⟩ := ih.1 hj
        refine ⟨(hsucc j).2 hat, ?_⟩
        rintro (_ | k) hk
        · exact hzero
        · exact fun hatk => hfirst k (lt_of_succ_lt_succ hk) ((hsucc k).1 hatk)
      · rintro ⟨hat, hfirst⟩
        cases i with
        | zero => exact absurd hat hzero
        | succ i =>
          refine ⟨i, ih.2 ⟨(hsucc i).1 hat, fun j hj hatj => ?_⟩, rfl⟩
          exact hfirst (j + 1) (succ_lt_succ hj) ((hsucc j).2 hatj)

theorem At.eq (h : At needle text i) : text = text.take i ++ needle ++ text.drop (i + needle.length) := by
  obtain ⟨after, hafter⟩ := h.2
  have hdrop : text.drop (i + needle.length) = after := by
    rw [← drop_drop, ← hafter, drop_left]
  rw [hdrop, append_assoc, hafter, take_append_drop]

theorem At.length_le (h : At needle text i) : i + needle.length ≤ text.length := by
  have hlength := h.2.length_le
  have hle := h.1
  rw [length_drop] at hlength
  omega

theorem At.append (h : At needle text i) (more : List α) : At needle (text ++ more) i := by
  refine ⟨le_trans h.1 (by simp), ?_⟩
  rw [drop_append_of_le_length h.1]
  exact h.2.trans (prefix_append _ _)

theorem At.of_append {needle text more : List α} (h : At needle (text ++ more) i)
    (hle : i + needle.length ≤ text.length) : At needle text i := by
  refine ⟨by omega, ?_⟩
  have hpre := h.2
  rw [drop_append_of_le_length (by omega)] at hpre
  exact prefix_of_prefix_length_le hpre (prefix_append _ _) (by rw [length_drop]; omega)

theorem find_append_of_some (h : find needle text = some i) (more : List α) : find needle (text ++ more) = some i := by
  obtain ⟨hat, hfirst⟩ := find_eq_some_iff.1 h
  refine find_eq_some_iff.2 ⟨hat.append more, fun j hj hatj => ?_⟩
  have hle := hat.length_le
  exact hfirst j hj (hatj.of_append (by omega))

theorem find_drop {d : Nat} (hd : d ≤ text.length) (h : ∀ i < d, ¬At needle text i) :
    find needle text = (find needle (text.drop d)).map (d + ·) := by
  have hshift : ∀ j, At needle text (d + j) ↔ At needle (text.drop d) j := by
    intro j
    unfold At
    rw [drop_drop, length_drop]
    exact and_congr_left fun _ => by omega
  cases hrest : find needle (text.drop d) with
  | none =>
    rw [Option.map_none, find_eq_none_iff]
    intro i hat
    rcases lt_or_ge i d with hlt | hge
    · exact h i hlt hat
    · obtain ⟨j, rfl⟩ := Nat.exists_eq_add_of_le hge
      exact find_eq_none_iff.1 hrest j ((hshift j).1 hat)
  | some j =>
    obtain ⟨hat, hfirst⟩ := find_eq_some_iff.1 hrest
    refine find_eq_some_iff.2 ⟨(hshift j).2 hat, fun i hi hati => ?_⟩
    rcases lt_or_ge i d with hlt | hge
    · exact h i hlt hati
    · obtain ⟨k, rfl⟩ := Nat.exists_eq_add_of_le hge
      exact hfirst k (Nat.lt_of_add_lt_add_left hi) ((hshift k).1 hati)

/-! ## What may still begin the needle -/

theorem longestSuffixPrefixUpTo_spec (text needle : List α) (bound : Nat) : longestSuffixPrefixUpTo text needle bound ≤ bound ∧
      needle.take (longestSuffixPrefixUpTo text needle bound) <:+ text ∧
      ∀ k ≤ bound, needle.take k <:+ text → k ≤ longestSuffixPrefixUpTo text needle bound := by
  induction bound with
  | zero => exact ⟨le_refl _, by simp [longestSuffixPrefixUpTo], fun k hk _ => hk⟩
  | succ bound ih =>
    rw [longestSuffixPrefixUpTo]
    split
    · next h =>
      exact ⟨le_refl _, isSuffixOf_iff_suffix.1 h, fun k hk _ => hk⟩
    · next h =>
      obtain ⟨hle, hsuffix, hmax⟩ := ih
      refine ⟨le_succ_of_le hle, hsuffix, fun k hk hsuffixK => ?_⟩
      rcases lt_or_ge bound k with hlt | hge
      · obtain rfl : k = bound + 1 := by omega
        exact absurd (isSuffixOf_iff_suffix.2 hsuffixK) h
      · exact hmax k hge hsuffixK

def held (needle text : List α) : List α := text.drop (text.length - longestSuffixPrefixLen text needle)

def shown (needle text : List α) : List α := text.take (text.length - longestSuffixPrefixLen text needle)

theorem shown_append_held (needle text : List α) : shown needle text ++ held needle text = text := take_append_drop _ _

theorem longestSuffixPrefixLen_le (text needle : List α) : longestSuffixPrefixLen text needle ≤ text.length :=
  le_trans (longestSuffixPrefixUpTo_spec text needle _).1 (min_le_left _ _)

theorem length_held (needle text : List α) : (held needle text).length = longestSuffixPrefixLen text needle := by
  have hle := longestSuffixPrefixLen_le text needle
  rw [held, length_drop]
  omega

theorem le_longestSuffixPrefixLen (hpre : text.drop i <+: needle)
    (hlt : text.length - i < needle.length) : text.length - i ≤ longestSuffixPrefixLen text needle := by
  refine (longestSuffixPrefixUpTo_spec text needle _).2.2 _ (by omega) ?_
  have htake := prefix_iff_eq_take.1 hpre
  rw [length_drop] at htake
  rw [← htake]
  exact drop_suffix _ _

theorem held_isPrefix {needle : List α} (hne : needle ≠ []) (text : List α) :
    held needle text <+: needle ∧ (held needle text).length < needle.length := by
  have hspec := longestSuffixPrefixUpTo_spec text needle (min text.length (needle.length - 1))
  have hpos := length_pos_iff.2 hne
  have hbound : longestSuffixPrefixLen text needle ≤ needle.length - 1 := le_trans hspec.1 (min_le_right _ _)
  have htake : (needle.take (longestSuffixPrefixLen text needle)).length = longestSuffixPrefixLen text needle := by
    rw [length_take]
    omega
  have hheld : held needle text = needle.take (longestSuffixPrefixLen text needle) := by
    have hsuffix : needle.take (longestSuffixPrefixLen text needle) =
        text.drop (text.length - (needle.take (longestSuffixPrefixLen text needle)).length) :=
      suffix_iff_eq_drop.1 hspec.2.1
    rw [htake] at hsuffix
    exact hsuffix.symm
  rw [length_held]
  exact ⟨hheld ▸ take_prefix _ _, by omega⟩

theorem not_at_of_lt {needle text more : List α} (h : find needle text = none)
    (hi : i < text.length - longestSuffixPrefixLen text needle) : ¬At needle (text ++ more) i := by
  intro hat
  rcases lt_or_ge text.length (i + needle.length) with hlt | hge
  · have hpre := hat.2
    rw [drop_append_of_le_length (by omega)] at hpre
    have hbegin : text.drop i <+: needle :=
      prefix_of_prefix_length_le (prefix_append _ _) hpre (by rw [length_drop]; omega)
    have hle := le_longestSuffixPrefixLen hbegin (by omega)
    omega
  · exact find_eq_none_iff.1 h i (hat.of_append hge)

theorem length_shown (needle text : List α) : (shown needle text).length = text.length - longestSuffixPrefixLen text needle := by
  rw [shown, length_take]
  omega

theorem drop_append_eq_held (needle text more : List α) :
    (text ++ more).drop (text.length - longestSuffixPrefixLen text needle) = held needle text ++ more := by
  rw [drop_append_of_le_length (sub_le _ _)]
  rfl

theorem find_append_of_none (h : find needle text = none) (more : List α) :
    find needle (text ++ more) = (find needle (held needle text ++ more)).map ((shown needle text).length + ·) := by
  rw [length_shown, find_drop (d := text.length - longestSuffixPrefixLen text needle) (by rw [length_append]; omega)
    (fun i hi => not_at_of_lt h hi), drop_append_eq_held]

theorem append_eq_shown (needle text more : List α) : text ++ more = shown needle text ++ (held needle text ++ more) := by
  rw [← append_assoc, shown_append_held]

theorem take_append_shown (needle text more : List α) (i : Nat) :
    (text ++ more).take ((shown needle text).length + i) = shown needle text ++ (held needle text ++ more).take i := by
  rw [append_eq_shown needle text more, take_length_add_append]

theorem drop_append_shown (needle text more : List α) (i : Nat) :
    (text ++ more).drop ((shown needle text).length + i) = (held needle text ++ more).drop i := by
  rw [append_eq_shown needle text more, drop_length_add_append]

theorem longestSuffixPrefixLen_append (hne : needle ≠ []) (more : List α) :
    longestSuffixPrefixLen (text ++ more) needle = longestSuffixPrefixLen (held needle text ++ more) needle := by
  have hpos := length_pos_iff.2 hne
  have hsuffix : held needle text ++ more <:+ text ++ more := by
    rw [← drop_append_eq_held needle text more]
    exact drop_suffix _ _
  have hwhole := longestSuffixPrefixUpTo_spec (text ++ more) needle (min (text ++ more).length (needle.length - 1))
  have hpart := longestSuffixPrefixUpTo_spec (held needle text ++ more) needle
    (min (held needle text ++ more).length (needle.length - 1))
  apply le_antisymm
  · -- an end that begins the needle and reaches into the first part is held back there
    have hlength : longestSuffixPrefixLen (text ++ more) needle ≤ (held needle text ++ more).length := by
      by_contra hlong
      have hle := longestSuffixPrefixLen_le (text ++ more) needle
      have hbound : longestSuffixPrefixLen (text ++ more) needle ≤ needle.length - 1 :=
        le_trans hwhole.1 (min_le_right _ _)
      obtain ⟨hbegin, -⟩ := held_isPrefix hne (text ++ more)
      rw [length_append] at hle hlong
      rw [length_held] at hlong
      have hi : (text ++ more).length - longestSuffixPrefixLen (text ++ more) needle ≤ text.length := by
        rw [length_append]
        omega
      rw [held, drop_append_of_le_length hi] at hbegin
      have hheld := le_longestSuffixPrefixLen ((prefix_append _ _).trans hbegin) (by rw [length_append]; omega)
      rw [length_append] at hheld
      omega
    refine hpart.2.2 _ (Nat.le_min.2 ⟨hlength, Nat.le_trans hwhole.1 (Nat.min_le_right _ _)⟩) ?_
    exact suffix_of_suffix_length_le hwhole.2.1 hsuffix (le_trans (by
      rw [length_take]
      exact min_le_left _ _) hlength)
  · exact hwhole.2.2 _ (Nat.le_min.2 ⟨Nat.le_trans (longestSuffixPrefixLen_le _ _) hsuffix.length_le,
      le_trans hpart.1 (min_le_right _ _)⟩) (hpart.2.1.trans hsuffix)

theorem held_append {needle : List α} (hne : needle ≠ []) (text more : List α) :
    held needle (text ++ more) = held needle (held needle text ++ more) := by
  have hle := longestSuffixPrefixLen_le (held needle text ++ more) needle
  rw [held, longestSuffixPrefixLen_append hne, append_eq_shown needle text more, length_append, Nat.add_sub_assoc hle,
    drop_length_add_append]
  rfl

theorem shown_append {needle : List α} (hne : needle ≠ []) (text more : List α) :
    shown needle (text ++ more) = shown needle text ++ shown needle (held needle text ++ more) := by
  have hwhole := shown_append_held needle (text ++ more)
  rw [held_append hne] at hwhole
  have hparts : shown needle text ++ shown needle (held needle text ++ more) ++ held needle (held needle text ++ more) =
      text ++ more := by
    rw [append_assoc, shown_append_held, ← append_eq_shown]
  exact append_cancel_right (hwhole.trans hparts.symm)

end Owc.Search
