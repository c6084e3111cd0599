import Mathlib.Data.List.Infix
/-!
# Glob — wildcard patterns

A pattern is a list of tokens: a letter, any one letter, or any string.  A pattern in two parts matches what splits into a
match of each, and a pattern matches the empty string only if it is made of stars.
-/
namespace Owc.Glob

open List

inductive Token (α : Type)
  | star
  | any
  | letter (a : α)

variable {α : Type} [DecidableEq α]

@[local grind =] def isMatch : List (Token α) → List α → Bool
  | [], [] => true
  | [], _ :: _ => false
  | .star :: tokens, text => text.tails.any (isMatch tokens)
  | .any :: tokens, _ :: text => isMatch tokens text
  | .any :: _, [] => false
  | .letter a :: tokens, b :: text => decide (a = b) && isMatch tokens text
  | .letter _ :: _, [] => false

variable {text : List α}

theorem isMatch_nil_iff : isMatch ([] : List (Token α)) text ↔ text = [] := by
  cases text <;> simp [isMatch]

variable {tokens : List (Token α)}

theorem isMatch_star_iff : isMatch (.star :: tokens) text ↔ ∃ skipped rest, text = skipped ++ rest ∧ isMatch tokens rest := by
  rw [isMatch, any_eq_true]
  constructor
  · rintro ⟨rest, hrest, hmatch⟩
    obtain ⟨skipped, rfl⟩ := (mem_tails _ _).1 hrest
    exact ⟨skipped, rest, rfl, hmatch⟩
  · rintro ⟨skipped, rest, rfl, hmatch⟩
    exact ⟨rest, (mem_tails _ _).2 (suffix_append _ _), hmatch⟩

theorem isMatch_any_iff : isMatch (.any :: tokens) text ↔ ∃ b rest, text = b :: rest ∧ isMatch tokens rest := by
  cases text <;> simp [isMatch]

theorem isMatch_letter_iff {a : α} : isMatch (.letter a :: tokens) text ↔ ∃ rest, text = a :: rest ∧ isMatch tokens rest := by
  cases text with
  | nil => simp [isMatch]
  | cons b text =>
    rw [isMatch, Bool.and_eq_true, decide_eq_true_eq]
    constructor
    · rintro ⟨rfl, hmatch⟩
      exact ⟨text, rfl, hmatch⟩
    · rintro ⟨rest, h, hmatch⟩
      cases h
      exact ⟨rfl, hmatch⟩

theorem isMatch_append_iff {left right : List (Token α)} : ∀ {text : List α}, isMatch (left ++ right) text ↔
      ∃ first rest, text = first ++ rest ∧ isMatch left first ∧ isMatch right rest := by
  induction left with
  | nil =>
    intro text
    constructor
    · exact fun h => ⟨[], text, rfl, rfl, h⟩
    · rintro ⟨first, rest, rfl, hfirst, hrest⟩
      rw [isMatch_nil_iff.1 hfirst]
      exact hrest
  | cons token left ih =>
    intro text
    rw [cons_append]
    cases token with
    | star =>
      rw [isMatch_star_iff]
      constructor
      · rintro ⟨skipped, tail, rfl, hmatch⟩
        obtain ⟨first, rest, rfl, hfirst, hrest⟩ := ih.1 hmatch
        exact ⟨skipped ++ first, rest, (append_assoc _ _ _).symm, isMatch_star_iff.2 ⟨skipped, first, rfl, hfirst⟩, hrest⟩
      · rintro ⟨first, rest, rfl, hfirst, hrest⟩
        obtain ⟨skipped, tail, rfl, htail⟩ := isMatch_star_iff.1 hfirst
        exact ⟨skipped, tail ++ rest, append_assoc _ _ _, ih.2 ⟨tail, rest, rfl, htail, hrest⟩⟩
    | any =>
      rw [isMatch_any_iff]
      constructor
      · rintro ⟨b, tail, rfl, hmatch⟩
        obtain ⟨first, rest, rfl, hfirst, hrest⟩ := ih.1 hmatch
        exact ⟨b :: first, rest, rfl, hfirst, hrest⟩
      · rintro ⟨first, rest, rfl, hfirst, hrest⟩
        obtain ⟨b, tail, rfl, htail⟩ := isMatch_any_iff.1 hfirst
        exact ⟨b, tail ++ rest, rfl, ih.2 ⟨tail, rest, rfl, htail, hrest⟩⟩
    | letter a =>
      rw [isMatch_letter_iff]
      constructor
      · rintro ⟨tail, rfl, hmatch⟩
        obtain ⟨first, rest, rfl, hfirst, hrest⟩ := ih.1 hmatch
        exact ⟨a :: first, rest, rfl, isMatch_letter_iff.2 ⟨first, rfl, hfirst⟩, hrest⟩
      · rintro ⟨first, rest, rfl, hfirst, hrest⟩
        obtain ⟨tail, rfl, htail⟩ := isMatch_letter_iff.1 hfirst
        exact ⟨tail ++ rest, rfl, ih.2 ⟨tail, rest, rfl, htail, hrest⟩⟩

theorem ne_nil_of_isMatch (hmatch : isMatch tokens text)
    {token : Token α} (htoken : token ∈ tokens) (hstar : token ≠ .star) : text ≠ [] := by
  obtain ⟨_, _, rfl⟩ := append_of_mem htoken
  obtain ⟨_, _, rfl, _, hrest⟩ := isMatch_append_iff.1 hmatch
  refine fun hnil => ?_
  rw [(append_eq_nil_iff.1 hnil).2] at hrest
  cases token with
  | star => exact hstar rfl
  | _ => cases hrest

end Owc.Glob
