import Mathlib.Data.List.Basic
/-!
# Jsonl — records one to a line

A file is cut at newlines and each line is decoded on its own; a line that cannot be decoded is passed over.  What is written
after a newline is decoded as if it stood alone.
-/
namespace Owc.Jsonl

open List

variable {α β : Type} [DecidableEq α]

@[local grind =] def splitLines (newline : α) : List α → List (List α)
  | [] => [[]]
  | a :: text =>
    if a = newline then [] :: splitLines newline text
    else match splitLines newline text with
      | [] => [[a]]
      | line :: lines => (a :: line) :: lines

/-- A format of records: how one is written on a line, and what a line says. -/
structure Format (α β : Type) where
  newline : α
  encode : β → List α
  decode : List α → Option β
  newline_not_mem : ∀ record, newline ∉ encode record
  decode_encode : ∀ record, decode (encode record) = some record
  /-- A record that is cut off says nothing. -/
  decode_take : ∀ record n, n < (encode record).length → decode ((encode record).take n) = none
  decode_nil : decode [] = none

def parsed (format : Format α β) (file : List α) : List β := (splitLines format.newline file).filterMap format.decode

theorem splitLines_ne_nil (newline : α) (text : List α) : splitLines newline text ≠ [] := by
  cases text with
  | nil => exact cons_ne_nil _ _
  | cons =>
    rw [splitLines]
    split
    · exact cons_ne_nil _ _
    · split <;> exact cons_ne_nil _ _

theorem splitLines_of_not_mem {newline : α} {text : List α} (h : newline ∉ text) : splitLines newline text = [text] := by
  induction text with
  | nil => rfl
  | cons a text ih =>
    rw [mem_cons, not_or] at h
    obtain ⟨hne, hmem⟩ := h
    rw [splitLines, if_neg (Ne.symm hne), ih hmem]

theorem splitLines_append_newline (newline : α) (front rest : List α) :
    splitLines newline (front ++ newline :: rest) = splitLines newline front ++ splitLines newline rest := by
  induction front with
  | nil => simp [splitLines]
  | cons a front ih =>
    rw [cons_append, splitLines, splitLines, ih]
    split
    · rfl
    · obtain ⟨_, _, hlines⟩ := exists_cons_of_ne_nil (splitLines_ne_nil newline front)
      rw [hlines]
      rfl

section Format

variable (format : Format α β)

theorem parsed_append_newline (front rest : List α) :
    parsed format (front ++ format.newline :: rest) = parsed format front ++ parsed format rest := by
  rw [parsed, splitLines_append_newline, filterMap_append]
  rfl

theorem parsed_of_not_mem {text : List α} (h : format.newline ∉ text) : parsed format text = (format.decode text).toList := by
  rw [parsed, splitLines_of_not_mem h]
  cases hdecode : format.decode text <;> simp [hdecode]

theorem parsed_nil : parsed format [] = [] := by
  rw [parsed_of_not_mem format not_mem_nil, format.decode_nil]
  rfl

def Terminated (newline : α) (file : List α) : Prop := file = [] ∨ file.getLast? = some newline

def terminate (newline : α) (file : List α) : List α :=
  if file = [] ∨ file.getLast? = some newline then file else file ++ [newline]

theorem terminated_terminate (newline : α) (file : List α) : Terminated newline (terminate newline file) := by
  unfold terminate
  split
  · assumption
  · exact .inr getLast?_concat

theorem parsed_terminate (file : List α) : parsed format (terminate format.newline file) = parsed format file := by
  unfold terminate
  split
  · rfl
  · rw [parsed_append_newline, parsed_nil, append_nil]

/-- **What is written after whole lines is read as if it stood alone.** -/
theorem Terminated.parsed_append {file : List α} (h : Terminated format.newline file) (rest : List α) :
    parsed format (file ++ rest) = parsed format file ++ parsed format rest := by
  rcases h with rfl | hlast
  · rw [parsed_nil]
    rfl
  · obtain ⟨_, rfl⟩ := getLast?_eq_some_iff.1 hlast
    rw [append_assoc, singleton_append, parsed_append_newline, parsed_append_newline, parsed_nil, append_nil]

theorem parsed_line (record : β) : parsed format (format.encode record ++ [format.newline]) = [record] := by
  rw [parsed_append_newline, parsed_nil, append_nil, parsed_of_not_mem format (format.newline_not_mem record),
    format.decode_encode]
  rfl

theorem parsed_torn (record : β) {n : Nat} (h : n < (format.encode record).length) :
    parsed format ((format.encode record).take n) = [] := by
  rw [parsed_of_not_mem format fun hmem => format.newline_not_mem record (mem_of_mem_take hmem),
    format.decode_take record n h]
  rfl

omit [DecidableEq α] in
theorem terminated_append_line (file : List α) (record : β) :
    Terminated format.newline (file ++ (format.encode record ++ [format.newline])) := by
  rw [← append_assoc]
  exact .inr getLast?_concat

end Format

end Owc.Jsonl
