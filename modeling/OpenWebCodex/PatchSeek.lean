import OpenWebCodex.PatchSyntax
/-!
# PatchSeek — where a block of lines occurs in a file

`seek_sequence` (`apply-patch/src/seek_sequence.rs`): four passes of decreasing strictness over the same window of
start positions.  Callers use `seekSequence_bounds` only.  `seek_sequence_finds` says which position is found, and when one
is: a block sought at the end of the file is not sought anywhere else.
-/
namespace Owc.Patch

open List

def normaliseChar (c : Char) : Char :=
  if c.toNat ∈ [0x2010, 0x2011, 0x2012, 0x2013, 0x2014, 0x2015, 0x2212] then '-'
  else if c.toNat ∈ [0x2018, 0x2019, 0x201A, 0x201B] then '\''
  else if c.toNat ∈ [0x201C, 0x201D, 0x201E, 0x201F] then '"'
  else if c.toNat ∈ [0x00A0, 0x2002, 0x2003, 0x2004, 0x2005, 0x2006, 0x2007, 0x2008, 0x2009, 0x200A, 0x202F, 0x205F,
    0x3000] then ' '
  else c

def normalise (s : Str) : Str := s.trim.map normaliseChar

def matchesAt (view : Str → Str) (lines pattern : List Str) (i : Nat) : Bool :=
  ((lines.drop i).take pattern.length).map view == pattern.map view

/-- One pass: the first start position from `searchStart` on, in `searchStart..=lines.len() - pattern.len()`. -/
def seekPass (view : Str → Str) (lines pattern : List Str) (searchStart : Nat) : Option Nat :=
  (List.range' searchStart (lines.length - pattern.length + 1 - searchStart)).find? (matchesAt view lines pattern)

/-- The views of the passes, strictest first: verbatim, trailing whitespace off, both ends off, punctuation folded. -/
def seekViews : List (Str → Str) := [id, Str.trimEnd, Str.trim, normalise]

def seekSequence (lines pattern : List Str) (start : Nat) (eof : Bool) : Option Nat :=
  if pattern.isEmpty then some start
  else if lines.length < pattern.length then none
  else
    let searchStart := if eof && lines.length ≥ pattern.length then lines.length - pattern.length else start
    seekViews.findSome? (fun view => seekPass view lines pattern searchStart)

@[simp] theorem seekSequence_nil (lines : List Str) (start : Nat) (eof : Bool) :
    seekSequence lines [] start eof = some start := rfl

theorem seekPass_some {view : Str → Str}
    (h : seekPass view lines pattern searchStart = some i) :
    searchStart ≤ i ∧ i < lines.length - pattern.length + 1 ∧ matchesAt view lines pattern i := by
  have hm := mem_of_find?_eq_some h
  rw [mem_range'_1] at hm
  exact ⟨hm.1, by omega, find?_some h⟩

/-- **A found block lies in the file**: at or after `start`, or, for one sought at the end of the file, exactly at the
end whatever `start` is. -/
theorem seekSequence_bounds (hp : pattern ≠ [])
    (h : seekSequence lines pattern start eof = some i) :
    i + pattern.length ≤ lines.length ∧ (eof = false → start ≤ i) ∧ (eof → i + pattern.length = lines.length) := by
  unfold seekSequence at h
  rw [if_neg (by simpa using hp)] at h
  split at h
  · cases h
  rename_i hlen
  obtain ⟨view, -, hpass⟩ := exists_of_findSome?_eq_some h
  obtain ⟨h1, h2, -⟩ := seekPass_some hpass
  have hge : lines.length ≥ pattern.length := by omega
  refine ⟨by omega, fun he => ?_, fun he => ?_⟩
  · simpa [he] using h1
  · simp [he, hge] at h1
    omega

/-! ## Which position is found -/

def OccursAt (view : Str → Str) (lines pattern : List Str) (i : Nat) : Prop :=
  i + pattern.length ≤ lines.length ∧ matchesAt view lines pattern i = true

def seekStart (lines pattern : List Str) (start : Nat) (eof : Bool) : Nat :=
  if eof then lines.length - pattern.length else start

/-- The first position from `start` on of the strictest view under which the block stands anywhere from there on. -/
def StrictestFirst (lines pattern : List Str) (start i : Nat) : Prop :=
  ∃ stricter view looser, seekViews = stricter ++ view :: looser ∧
    IsLeast {j | start ≤ j ∧ OccursAt view lines pattern j} i ∧
    ∀ other ∈ stricter, ∀ j ≥ start, ¬OccursAt other lines pattern j

section Seek

variable {view : Str → Str} {lines pattern : List Str} {start i : Nat} {eof : Bool}

theorem seekPass_eq_some (hlen : pattern.length ≤ lines.length) :
    seekPass view lines pattern start = some i ↔ IsLeast {j | start ≤ j ∧ OccursAt view lines pattern j} i := by
  unfold seekPass
  rw [find?_range'_eq_some, mem_range'_1]
  constructor
  · rintro ⟨hmatch, ⟨hge, hlt⟩, hleast⟩
    refine ⟨⟨hge, by omega, hmatch⟩, fun j ⟨hj, _, hmatchj⟩ => Nat.le_of_not_lt fun hlt => ?_⟩
    simpa [hmatchj] using hleast j hj hlt
  · rintro ⟨⟨hge, hle, hmatch⟩, hleast⟩
    refine ⟨hmatch, ⟨hge, by omega⟩, fun j hj hlt => ?_⟩
    rw [Bool.not_eq_true']
    by_contra hmatchj
    exact absurd (hleast ⟨hj, by omega, by simpa using hmatchj⟩) (by omega)

theorem seekPass_eq_none (hlen : pattern.length ≤ lines.length) :
    seekPass view lines pattern start = none ↔ ∀ j ≥ start, ¬OccursAt view lines pattern j := by
  unfold seekPass
  rw [find?_range'_eq_none]
  constructor
  · rintro h j hj ⟨hle, hmatch⟩
    simpa [hmatch] using h j hj (by omega)
  · intro h j hj hlt
    have hj' := h j hj
    unfold OccursAt at hj'
    simpa [show j + pattern.length ≤ lines.length by omega] using hj'

theorem seekSequence_eq (hp : pattern ≠ []) (hlen : pattern.length ≤ lines.length) : seekSequence lines pattern start eof =
      seekViews.findSome? (fun view => seekPass view lines pattern (seekStart lines pattern start eof)) := by
  unfold seekSequence seekStart
  rw [if_neg (by simpa using hp), if_neg (by omega)]
  simp [hlen]

theorem trim_trimEnd (s : Str) : (Str.trimEnd s).trim = s.trim := by
  unfold Str.trim Str.trimEnd Str.trimStart
  induction s using List.reverseRecOn with
  | nil => rfl
  | append_singleton s c ih =>
    rw [rdropWhile_concat]
    split
    · next hc =>
      rw [ih, dropWhile_append]
      split
      · next hall => simp [List.isEmpty_iff.1 hall, hc]
      · rw [rdropWhile_concat, if_pos hc]
    · rfl

/-- Each view sees no more than the one before it. -/
theorem normalise_of_view (hview : view ∈ seekViews) (h : view s = view t) : normalise s = normalise t := by
  have htrim : s.trim = t.trim → normalise s = normalise t := congrArg (List.map normaliseChar)
  simp only [seekViews, mem_cons, not_mem_nil, or_false] at hview
  obtain rfl | rfl | rfl | rfl := hview
  · exact congrArg normalise h
  · exact htrim (by rw [← trim_trimEnd s, h, trim_trimEnd])
  · exact htrim h
  · exact h

theorem OccursAt.normalise (hview : view ∈ seekViews) (h : OccursAt view lines pattern i) :
    OccursAt normalise lines pattern i := by
  refine ⟨h.1, ?_⟩
  have hmatch := h.2
  unfold matchesAt at hmatch ⊢
  rw [beq_iff_eq, ← forall₂_eq_eq_eq, forall₂_map_left_iff, forall₂_map_right_iff] at hmatch ⊢
  exact hmatch.imp fun _ _ => normalise_of_view hview

section

variable (hp : pattern ≠ []) (h : seekSequence lines pattern start eof = some i)
include hp h

theorem seekSequence_strictestFirst : StrictestFirst lines pattern (seekStart lines pattern start eof) i := by
  have hlen : pattern.length ≤ lines.length := by
    have := (seekSequence_bounds hp h).1
    omega
  rw [seekSequence_eq hp hlen, findSome?_eq_some_iff] at h
  obtain ⟨stricter, view, looser, hviews, hpass, hstricter⟩ := h
  exact ⟨stricter, view, looser, hviews, (seekPass_eq_some hlen).1 hpass,
    fun other hother => (seekPass_eq_none hlen).1 (hstricter other hother)⟩

theorem seekSequence_occurs : OccursAt normalise lines pattern i := by
  obtain ⟨_, _, _, hviews, hleast, -⟩ := seekSequence_strictestFirst hp h
  exact hleast.1.2.normalise (by simp [hviews])

end

theorem isSome_seekSequence (hp : pattern ≠ []) (hi : seekStart lines pattern start eof ≤ i)
    (h : OccursAt normalise lines pattern i) : (seekSequence lines pattern start eof).isSome := by
  have hlen : pattern.length ≤ lines.length := Nat.le_trans (Nat.le_add_left _ _) h.1
  rw [Option.isSome_iff_ne_none, seekSequence_eq hp hlen, Ne, findSome?_eq_none_iff]
  intro hnone
  exact (seekPass_eq_none hlen).1 (hnone normalise (by simp [seekViews])) i hi h

end Seek

/-- **What `seek_sequence` finds.**  The position is that of a block, the first one of the strictest pass that finds any.
One is found whenever the block stands at or after `start`, exactly if a block that is sought at the end of the file and
stands there or earlier stands at its end: the search from `start` that the documentation promises is not made. -/
theorem seek_sequence_finds (lines pattern : List Str) (start : Nat) (eof : Bool) (hp : pattern ≠ []) :
    ((∀ i, seekSequence lines pattern start eof = some i →
        OccursAt normalise lines pattern i ∧ StrictestFirst lines pattern (seekStart lines pattern start eof) i) ∧
      ((∃ i ≥ start, OccursAt normalise lines pattern i) → (seekSequence lines pattern start eof).isSome = true)) ↔
    (eof = true → (∃ i ≥ start, OccursAt normalise lines pattern i) →
      OccursAt normalise lines pattern (lines.length - pattern.length)) := by
  constructor
  · rintro ⟨-, hfound⟩ heof hoccurs
    obtain ⟨i, hi⟩ := Option.isSome_iff_exists.1 (hfound hoccurs)
    have hend := (seekSequence_bounds hp hi).2.2 heof
    rw [← hend, Nat.add_sub_cancel]
    exact seekSequence_occurs hp hi
  · intro hend
    refine ⟨fun i hi => ⟨seekSequence_occurs hp hi, seekSequence_strictestFirst hp hi⟩, ?_⟩
    rintro ⟨i, hi, hoccurs⟩
    cases eof with
    | false => exact isSome_seekSequence hp hi hoccurs
    | true => exact isSome_seekSequence hp (Nat.le_refl _) (hend rfl ⟨i, hi, hoccurs⟩)

theorem rstripped_block_found :
    (∀ i, seekSequence ["a ".toList, "b".toList, "a".toList] ["a".toList, "b".toList] 0 false = some i →
      OccursAt normalise ["a ".toList, "b".toList, "a".toList] ["a".toList, "b".toList] i) ∧
    seekSequence ["a ".toList, "b".toList, "a".toList] ["a".toList, "b".toList] 0 false = some 0 :=
  ⟨fun i hi => (((seek_sequence_finds _ _ 0 false (by decide)).2 nofun).1 i hi).1, by decide⟩

/-- A block that the patch marks as the end of the file and that is followed by another line is not found. -/
theorem eof_block_not_found : OccursAt normalise ["a".toList, "b".toList] ["a".toList] 0 ∧
      seekSequence ["a".toList, "b".toList] ["a".toList] 0 true = none := by
  unfold OccursAt
  decide

end Owc.Patch
