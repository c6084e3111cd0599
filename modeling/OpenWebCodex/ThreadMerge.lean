import Mathlib.Data.List.Infix
import OpenWebCodex.ThreadItems
/-!
# ThreadMerge — joining a delta to the text before it

`mergeStreamingText` takes a delta that repeats the text, its start or its end for one sent twice.  `Joins` is the exact
condition under which it only appends; in every other case the text comes out shorter.
-/
namespace Owc.Threads

open List
open Js (Text lit)

theorem truncateText_of_le (h : text.length ≤ n) : truncateText text n = text := by
  unfold truncateText
  rw [if_pos h]

/-! ## Sentinels -/

theorem stripSentinel_lt {next : Text} (h : stripSentinel text = some next) : next.length < text.length := by
  obtain ⟨sentinel, hs, rfl⟩ := Option.map_eq_some_iff.1 h
  have hpos : ∀ s ∈ leadingProviderSentinels, 0 < s.length := by decide
  have hfound : Js.startsWith (text.dropWhile Js.isSpace) sentinel = true := find?_some hs
  have hlen := (Js.startsWith_iff.1 hfound).length_le
  have hparts : text.length = (text.takeWhile Js.isSpace).length + (text.dropWhile Js.isSpace).length := by
    rw [← length_append, takeWhile_append_dropWhile]
  have := hpos sentinel (mem_of_find?_eq_some hs)
  rw [length_append, length_drop]
  omega

theorem stripRounds_eq_or_lt : ∀ n text, stripRounds n text = text ∨ (stripRounds n text).length < text.length
  | 0, _ => .inl rfl
  | n + 1, text => by
    unfold stripRounds
    cases h : stripSentinel text with
    | none => exact .inl rfl
    | some next =>
      have hlt := stripSentinel_lt h
      rcases stripRounds_eq_or_lt n next with heq | hn
      · exact .inr (by simpa [heq] using hlt)
      · exact .inr (Nat.lt_trans hn hlt)

theorem strip_eq_or_lt (text : Text) :
    stripLeadingProviderSentinel text = text ∨ (stripLeadingProviderSentinel text).length < text.length :=
  stripRounds_eq_or_lt _ _

/-! ## Overlaps -/

variable {e d : Text}

theorem overlap_eq_zero_iff : ∀ {n}, overlap e d n = 0 ↔ ∀ k < n, ¬ d.take (k + 1) <:+ e
  | 0 => by simp [overlap]
  | n + 1 => by
    unfold overlap
    by_cases h : d.take (n + 1) <:+ e
    · rw [if_pos (Js.endsWith_iff.2 h)]
      constructor
      · intro h0
        omega
      · intro hall
        exact absurd h (hall n (Nat.lt_succ_self n))
    · rw [if_neg fun hb => h (Js.endsWith_iff.1 hb), overlap_eq_zero_iff]
      constructor
      · intro hall k hk
        by_cases hkn : k = n
        · rw [hkn]; exact h
        · exact hall k (by omega)
      · intro hall k hk
        exact hall k (by omega)

theorem no_overlap_iff : (∀ k < min e.length d.length, ¬ d.take (k + 1) <:+ e) ↔ ∀ k < d.length, ¬ d.take (k + 1) <:+ e := by
  constructor
  · intro h k hk hs
    have hle := hs.length_le
    rw [length_take] at hle
    exact h k (by omega) hs
  · intro h k hk
    exact h k (by omega)

/-- **The delta is one that `mergeStreamingText` appends**: it holds no leading sentinel and, unless one of the two is
empty, is not a start of the text and has no start that ends the text. -/
def Joins (e d : Text) : Prop :=
  stripLeadingProviderSentinel d = d ∧ (e = [] ∨ d = [] ∨ (¬ d <+: e ∧ ∀ k < d.length, ¬ d.take (k + 1) <:+ e))

instance (e d : Text) : Decidable (Joins e d) := inferInstanceAs (Decidable (_ ∧ (_ ∨ _ ∨ (_ ∧ _))))

theorem mergeStreamingText_cases (he : e ≠ []) (hd : stripLeadingProviderSentinel d ≠ []) :
    (e <+: stripLeadingProviderSentinel d ∧ mergeStreamingText e d = stripLeadingProviderSentinel d) ∨
    (stripLeadingProviderSentinel d <+: e ∧ mergeStreamingText e d = e) ∨
    (¬ e <+: stripLeadingProviderSentinel d ∧ ¬ stripLeadingProviderSentinel d <+: e ∧ mergeStreamingText e d =
      e ++ (stripLeadingProviderSentinel d).drop (overlap e (stripLeadingProviderSentinel d)
        (min e.length (stripLeadingProviderSentinel d).length))) := by
  unfold mergeStreamingText
  generalize stripLeadingProviderSentinel d = c at hd ⊢
  dsimp only
  rw [if_neg (by simpa using hd), if_neg (by simpa using he)]
  by_cases heq : c = e
  · subst heq
    exact .inl ⟨prefix_rfl, by simp⟩
  rw [if_neg (by simpa using heq)]
  by_cases hce : e <+: c
  · exact .inl ⟨hce, if_pos (Js.startsWith_iff.2 hce)⟩
  rw [if_neg fun h => hce (Js.startsWith_iff.1 h)]
  by_cases hec : c <+: e
  · exact .inr (.inl ⟨hec, if_pos (Js.startsWith_iff.2 hec)⟩)
  · exact .inr (.inr ⟨hce, hec, if_neg fun h => hec (Js.startsWith_iff.1 h)⟩)

theorem mergeStreamingText_nil : mergeStreamingText [] d = stripLeadingProviderSentinel d := by
  unfold mergeStreamingText
  cases stripLeadingProviderSentinel d <;> rfl

theorem mergeStreamingText_of_strip_nil (h : stripLeadingProviderSentinel d = []) : mergeStreamingText e d = e := by
  unfold mergeStreamingText
  rw [h]
  rfl

theorem length_mergeStreamingText_le (e d : Text) :
    (mergeStreamingText e d).length ≤ e.length + (stripLeadingProviderSentinel d).length := by
  by_cases he : e = []
  · rw [he, mergeStreamingText_nil]
    exact Nat.le_add_left _ _
  by_cases hd : stripLeadingProviderSentinel d = []
  · rw [mergeStreamingText_of_strip_nil hd]
    exact Nat.le_add_right _ _
  rcases mergeStreamingText_cases he hd with ⟨_, h⟩ | ⟨_, h⟩ | ⟨_, _, h⟩
  · rw [h]
    exact Nat.le_add_left _ _
  · rw [h]
    exact Nat.le_add_right _ _
  · rw [h, length_append, length_drop]
    omega

theorem mergeStreamingText_of_joins (h : Joins e d) : mergeStreamingText e d = e ++ d := by
  obtain ⟨hs, h⟩ := h
  by_cases he : e = []
  · rw [he, mergeStreamingText_nil, hs, nil_append]
  by_cases hd : d = []
  · rw [hd, mergeStreamingText_of_strip_nil (by rw [← hd, hs, hd]), append_nil]
  obtain ⟨hpre, hover⟩ := (h.resolve_left he).resolve_left hd
  have hpos := length_pos_of_ne_nil he
  rcases mergeStreamingText_cases he (by rwa [hs]) with ⟨hce, _⟩ | ⟨hec, _⟩ | ⟨_, _, heq⟩
  · -- the text starts the delta, so that a start of the delta ends the text
    rw [hs] at hce
    have hle := hce.length_le
    refine absurd ?_ (hover (e.length - 1) (by omega))
    rw [Nat.sub_add_cancel hpos, ← prefix_iff_eq_take.1 hce]
  · rw [hs] at hec
    exact absurd hec hpre
  · rw [heq, hs, overlap_eq_zero_iff.2 (no_overlap_iff.2 hover), drop_zero]

/-- **A delta that does not join loses units.** -/
theorem length_mergeStreamingText_lt (h : ¬ Joins e d) : (mergeStreamingText e d).length < e.length + d.length := by
  rcases strip_eq_or_lt d with hs | hs
  swap
  · have := length_mergeStreamingText_le e d
    omega
  have h' : ¬ (e = [] ∨ d = [] ∨ (¬ d <+: e ∧ ∀ k < d.length, ¬ d.take (k + 1) <:+ e)) := fun hj => h ⟨hs, hj⟩
  obtain ⟨he, h'⟩ := not_or.1 h'
  obtain ⟨hd, h'⟩ := not_or.1 h'
  have hepos := length_pos_of_ne_nil he
  have hdpos := length_pos_of_ne_nil hd
  rcases mergeStreamingText_cases he (by rwa [hs]) with ⟨_, heq⟩ | ⟨_, heq⟩ | ⟨_, hpre, heq⟩
  · rw [heq, hs]
    omega
  · rw [heq]
    omega
  · rw [hs] at hpre heq
    have hover : overlap e d (min e.length d.length) ≠ 0 := fun h0 =>
      h' ⟨hpre, no_overlap_iff.1 (overlap_eq_zero_iff.1 h0)⟩
    rw [heq, length_append, length_drop]
    omega

end Owc.Threads
