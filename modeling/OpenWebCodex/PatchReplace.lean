import OpenWebCodex.PatchSeek
import OpenWebCodex.Splice
/-!
# PatchReplace — the replacements of an update hunk, and their application

`compute_replacements` and `apply_replacements` (`apply-patch/src/lib.rs`).  A replacement `(start_index, old_len,
new_lines)` is an `Edit` of the file's lines.  The replacements of one hunk leave each other alone exactly when
`separated` accepts the chunks (`replaceChunks_apart_iff`): chunks found by searching forward always do, a chunk
anchored at the end of the file and an addition before a trailing blank line may not.
-/
namespace Owc.Patch

open List Nat Bool
open Splice (Edit substitute spliceAll)

/-! ## `compute_replacements` -/

def locateContext (lines : List Str) (lineIndex : Nat) : Option Str → Option Nat
  | none => some lineIndex
  | some ctxLine => (seekSequence lines [ctxLine] lineIndex false).map (· + 1)

/-- Where a chunk without old lines puts its new ones: at the end, or before a final empty line. -/
def insertionIdx (lines : List Str) : Nat :=
  if lines.getLast? = some [] then lines.length - 1 else lines.length

def locateOldLines (lines : List Str) (lineIndex : Nat) (chunk : UpdateFileChunk) : Option (Edit Str) :=
  match seekSequence lines chunk.oldLines lineIndex chunk.isEndOfFile with
  | some startIdx => some ⟨startIdx, chunk.oldLines.length, chunk.newLines⟩
  | none =>
    if chunk.oldLines.getLast? = some [] then
      let pattern := chunk.oldLines.dropLast
      let newSlice := if chunk.newLines.getLast? = some [] then chunk.newLines.dropLast else chunk.newLines
      (seekSequence lines pattern lineIndex chunk.isEndOfFile).map (fun startIdx => ⟨startIdx, pattern.length, newSlice⟩)
    else none

/-- One round of the loop: the chunk's replacement and the search position for the next chunk.  An addition does not
move it. -/
def replaceChunk (lines : List Str) (path : Str) (lineIndex : Nat) (chunk : UpdateFileChunk) :
    Except ApplyPatchError (Edit Str × Nat) :=
  match locateContext lines lineIndex chunk.changeContext with
  | none => .error (.computeReplacements
      ("Failed to find context '".toList ++ chunk.changeContext.getD [] ++ "' in ".toList ++ path))
  | some lineIndex =>
    if chunk.oldLines.isEmpty then .ok (⟨insertionIdx lines, 0, chunk.newLines⟩, lineIndex)
    else match locateOldLines lines lineIndex chunk with
      | some e => .ok (e, e.start + e.len)
      | none => .error (.computeReplacements
          ("Failed to find expected lines in ".toList ++ path ++ ":\n".toList ++ Str.joinNl chunk.oldLines))

def replaceChunks (lines : List Str) (path : Str) : Nat → List UpdateFileChunk → Except ApplyPatchError (List (Edit Str))
  | _, [] => .ok []
  | lineIndex, chunk :: chunks =>
    match replaceChunk lines path lineIndex chunk with
    | .error e => .error e
    | .ok (e, lineIndex) =>
      match replaceChunks lines path lineIndex chunks with
      | .error e => .error e
      | .ok es => .ok (e :: es)

/-- `sort_by_key` is stable, and so is insertion sort: one result. -/
def computeReplacements (lines : List Str) (path : Str) (chunks : List UpdateFileChunk) :
    Except ApplyPatchError (List (Edit Str)) :=
  match replaceChunks lines path 0 chunks with
  | .error e => .error e
  | .ok es => .ok (es.insertionSort Edit.Le)

/-! ## `apply_replacements` -/

def removeLines (lines : List Str) (startIdx : Nat) : Nat → List Str
  | 0 => lines
  | oldLen + 1 => removeLines (if startIdx < lines.length then lines.eraseIdx startIdx else lines) startIdx oldLen

def insertLines (lines : List Str) (at_ : Nat) : List Str → List Str
  | [] => lines
  | newLine :: newSegment => insertLines (lines.insertIdx at_ newLine) (at_ + 1) newSegment

def applyReplacement (lines : List Str) (e : Edit Str) : List Str :=
  insertLines (removeLines lines e.start e.len) e.start e.new

/-- In descending order, so that earlier replacements do not shift the positions of later ones. -/
def applyReplacements (lines : List Str) (replacements : List (Edit Str)) : List Str :=
  replacements.reverse.foldl applyReplacement lines

theorem removeLines_append (a b : List Str) (oldLen : Nat) : removeLines (a ++ b) a.length oldLen = a ++ b.drop oldLen := by
  induction oldLen generalizing b with
  | zero => rfl
  | succ oldLen ih =>
    rw [removeLines]
    cases b with
    | nil => simpa using ih []
    | cons x b =>
      have hlt : a.length < (a ++ x :: b).length := by simp
      have he : (a ++ x :: b).eraseIdx a.length = a ++ b := by
        rw [eraseIdx_append_of_length_le (le_refl _)]; simp
      rw [if_pos hlt, he, ih]
      rfl

theorem insertLines_append (b : List Str) : ∀ new a, insertLines (a ++ b) a.length new = a ++ new ++ b
  | [], a => by simp [insertLines]
  | x :: new, a => by
    have hx : (a ++ b).insertIdx a.length x = (a ++ [x]) ++ b := by
      induction a with
      | nil => rfl
      | cons y a ih => simpa using ih
    have ih := insertLines_append b new (a ++ [x])
    rw [length_append, length_singleton] at ih
    rw [insertLines, hx, ih]
    simp

theorem applyReplacement_eq_splice {e} (h : e.start ≤ lines.length) : applyReplacement lines e = e.splice lines := by
  have hlen : (lines.take e.start).length = e.start := length_take_of_le h
  have hr := removeLines_append (lines.take e.start) (lines.drop e.start) e.len
  have hi := insertLines_append ((lines.drop e.start).drop e.len) e.new (lines.take e.start)
  rw [take_append_drop, hlen] at hr
  rw [hlen] at hi
  rw [applyReplacement, hr, hi, Edit.splice, drop_drop]

theorem applyReplacements_cons (lines : List Str) (e : Edit Str) (es : List (Edit Str)) :
    applyReplacements lines (e :: es) = applyReplacement (applyReplacements lines es) e := by
  simp [applyReplacements]

/-- **Sorted replacements are spliced in, the last first.**  No index is ever past the end of the lines at hand, where
`Vec::insert` would panic. -/
theorem applyReplacements_eq_spliceAll (lines : List Str) : ∀ (es : List (Edit Str)), es.Pairwise Edit.Le →
    (∀ e ∈ es, e.start ≤ lines.length) → applyReplacements lines es = spliceAll lines es
  | [], _, _ => rfl
  | e :: es, hs, hl => by
    have ih := applyReplacements_eq_spliceAll lines es hs.of_cons fun f hf => hl f (mem_cons_of_mem _ hf)
    have hlen : e.start ≤ (spliceAll lines es).length :=
      Splice.le_length_spliceAll lines e.start (hl e mem_cons_self) es fun f hf => rel_of_pairwise_cons hs hf
    rw [applyReplacements_cons, ih, applyReplacement_eq_splice hlen]
    rfl

/-! ## What a chunk's replacement can be -/

theorem insertionIdx_le (lines : List Str) : insertionIdx lines ≤ lines.length := by
  unfold insertionIdx
  split <;> omega

theorem locateContext_some
    (hi : lineIndex ≤ lines.length) (h : locateContext lines lineIndex ctx = some i) :
    lineIndex ≤ i ∧ i ≤ lines.length := by
  unfold locateContext at h
  split at h
  · cases h
    exact ⟨le_refl _, hi⟩
  obtain ⟨idx, hs, rfl⟩ := Option.map_eq_some_iff.1 h
  obtain ⟨hb, hge, -⟩ := seekSequence_bounds (by simp) hs
  have := hge rfl
  simp only [length_singleton] at hb
  omega

section

variable {lines : List Str} {lineIndex : Nat} {chunk : UpdateFileChunk}

/-- **Old lines are found from the search position on, or, in a chunk anchored at the end of the file, up against the
end.**  Only a chunk whose old lines are one empty line is replaced without taking a line. -/
theorem locateOldLines_some {e} (hi : lineIndex ≤ lines.length) (hne : chunk.oldLines ≠ [])
    (h : locateOldLines lines lineIndex chunk = some e) : e.Fits lines.length ∧
      (lineIndex ≤ e.start ∨ (chunk.isEndOfFile ∧ 0 < e.len ∧ e.start + e.len = lines.length)) := by
  -- a non-empty pattern found by `seek_sequence`, whatever its new lines
  have found {pattern new : List Str} {i : Nat} (hp : pattern ≠ [])
      (hs : seekSequence lines pattern lineIndex chunk.isEndOfFile = some i) :
      (Edit.mk i pattern.length new).Fits lines.length ∧
        (lineIndex ≤ i ∨ (chunk.isEndOfFile ∧ 0 < pattern.length ∧ i + pattern.length = lines.length)) := by
    obtain ⟨hb, hge, hend⟩ := seekSequence_bounds hp hs
    refine ⟨hb, ?_⟩
    cases heof : chunk.isEndOfFile with
    | false => exact .inl (hge heof)
    | true => exact .inr ⟨rfl, length_pos_of_ne_nil hp, hend heof⟩
  unfold locateOldLines at h
  split at h
  · rename_i i hs
    cases h
    exact found hne hs
  split at h
  · obtain ⟨i, hs, rfl⟩ := Option.map_eq_some_iff.1 h
    by_cases hp : chunk.oldLines.dropLast = []
    · rw [hp, seekSequence_nil] at hs
      cases hs
      rw [hp]
      exact ⟨by simpa [Edit.Fits] using hi, .inl (le_refl _)⟩
    · exact found hp hs
  · cases h

/-- One round of the loop that went through: an addition, or old lines that were found. -/
theorem replaceChunks_cons (h : replaceChunks lines path lineIndex (chunk :: chunks) = .ok es) :
    ∃ i e es', locateContext lines lineIndex chunk.changeContext = some i ∧ es = e :: es' ∧
      ((chunk.oldLines = [] ∧ e = ⟨insertionIdx lines, 0, chunk.newLines⟩ ∧ replaceChunks lines path i chunks = .ok es') ∨
       (chunk.oldLines ≠ [] ∧ locateOldLines lines i chunk = some e ∧
        replaceChunks lines path (e.start + e.len) chunks = .ok es')) := by
  unfold replaceChunks replaceChunk at h
  cases hc : locateContext lines lineIndex chunk.changeContext with
  | none => simp [hc] at h
  | some i =>
    simp only [hc] at h
    split at h
    · cases h
    rename_i e j hj
    split at h
    · cases h
    rename_i es' hrest
    cases h
    refine ⟨i, e, es', rfl, rfl, ?_⟩
    split at hj
    · rename_i hold
      cases hj
      exact .inl ⟨by simpa using hold, rfl, hrest⟩
    · rename_i hold
      split at hj
      · rename_i hl
        cases hj
        exact .inr ⟨by simpa using hold, hl, hrest⟩
      · cases hj

end

theorem replaceChunks_fits (lines : List Str) (path : Str) : ∀ (chunks : List UpdateFileChunk) (lineIndex : Nat)
    (es : List (Edit Str)), lineIndex ≤ lines.length → replaceChunks lines path lineIndex chunks = .ok es →
    ∀ e ∈ es, e.Fits lines.length
  | [], _, es, _, h => by
    cases h
    simp
  | chunk :: chunks, lineIndex, es, hi, h => by
    obtain ⟨i, e, es', hc, rfl, hcase⟩ := replaceChunks_cons h
    have hin := (locateContext_some hi hc).2
    rcases hcase with ⟨-, rfl, hrest⟩ | ⟨hne, hl, hrest⟩
    · exact forall_mem_cons.2 ⟨insertionIdx_le lines, replaceChunks_fits lines path chunks i es' hin hrest⟩
    · have hfit := (locateOldLines_some hin hne hl).1
      exact forall_mem_cons.2 ⟨hfit, replaceChunks_fits lines path chunks _ es' hfit hrest⟩

/-! ## When the replacements leave each other alone -/

/-- The old lines of a chunk anchored at the end of the file were not matched by an earlier chunk. -/
def foundApart (lines : List Str) (taken : List (Nat × Nat)) (eof : Bool) (e : Edit Str) : Bool :=
  !eof || taken.all (fun r => r.1 + r.2 ≤ e.start || (r.2 == 0 && r.1 == lines.length))

/-- The found lines do not cover both a trailing blank line and the line before it, between which an addition goes. -/
def sparesAddition (lines : List Str) (e : Edit Str) : Bool :=
  !(lines.getLast? == some [] && e.start + 1 < lines.length && lines.length ≤ e.start + e.len)

/-- No earlier chunk matched the trailing blank line before which an addition goes. -/
def additionApart (lines : List Str) (taken : List (Nat × Nat)) : Bool :=
  !(lines.getLast? == some []) || taken.all (fun r => r.2 == 0 || r.1 + r.2 < lines.length)

/-- **The chunks that keep out of each other's way**, walked in order with the search position, the regions (start and
length) found so far and whether there was an addition. -/
def separated (lines : List Str) : Nat → List (Nat × Nat) → Bool → List UpdateFileChunk → Bool
  | _, _, _, [] => true
  | lineIndex, taken, added, chunk :: chunks =>
    match locateContext lines lineIndex chunk.changeContext with
    | none => true
    | some lineIndex =>
      if chunk.oldLines.isEmpty then additionApart lines taken && separated lines lineIndex taken true chunks
      else match locateOldLines lines lineIndex chunk with
        | none => true
        | some e => foundApart lines taken chunk.isEndOfFile e && (!added || sparesAddition lines e) &&
            separated lines (e.start + e.len) ((e.start, e.len) :: taken) added chunks

def span (start len : Nat) : Edit Str := ⟨start, len, []⟩

theorem apart_span (e f : Edit Str) : e.Apart f ↔ (span e.start e.len).Apart f := Iff.rfl

theorem foundApart_iff {lines : List Str} {taken : List (Nat × Nat)} {lineIndex : Nat} {eof : Bool} {e : Edit Str}
    (hi : lineIndex ≤ lines.length) (ht : ∀ r ∈ taken, r.1 + r.2 ≤ lineIndex)
    (he : lineIndex ≤ e.start ∨ (eof ∧ 0 < e.len ∧ e.start + e.len = lines.length)) :
    (∀ r ∈ taken, (span r.1 r.2).Apart e) ↔ foundApart lines taken eof e := by
  rcases he with he | ⟨rfl, hpos, hend⟩
  · -- found from the search position on: past every earlier region
    have hle : ∀ r ∈ taken, r.1 + r.2 ≤ e.start := fun r hr => le_trans (ht r hr) he
    refine iff_of_true (fun r hr => Edit.apart_iff.2 (.inl (hle r hr))) ?_
    simp only [foundApart, Bool.or_eq_true, all_eq_true, decide_eq_true_eq]
    exact .inr fun r hr => .inl (hle r hr)
  · simp only [foundApart, Bool.not_true, Bool.false_or, all_eq_true, Bool.or_eq_true, Bool.and_eq_true,
      decide_eq_true_eq, beq_iff_eq]
    refine forall_congr' (fun r => forall_congr' (fun hr => ?_))
    have := ht r hr
    simp only [Edit.apart_iff, span]
    omega

theorem sparesAddition_iff {e} (he : e.Fits lines.length) :
    (span (insertionIdx lines) 0).Apart e ↔ sparesAddition lines e := by
  have hfit : e.start + e.len ≤ lines.length := he
  by_cases hb : lines.getLast? = some []
  · have hidx : insertionIdx lines = lines.length - 1 := if_pos hb
    simp only [sparesAddition, Edit.apart_iff, span, hidx, hb, beq_self_eq_true, Bool.true_and, Bool.not_eq_true',
      Bool.and_eq_false_iff, decide_eq_false_iff_not]
    omega
  · have hidx : insertionIdx lines = lines.length := if_neg hb
    refine iff_of_true ?_ (by simp [sparesAddition, hb])
    simp only [Edit.apart_iff, span, hidx]
    omega

theorem additionApart_iff (ht : ∀ r ∈ taken, r.1 + r.2 ≤ lines.length) (new : List Str) :
    (∀ r ∈ taken, (span r.1 r.2).Apart ⟨insertionIdx lines, 0, new⟩) ↔ additionApart lines taken := by
  by_cases hb : lines.getLast? = some []
  · have hidx : insertionIdx lines = lines.length - 1 := if_pos hb
    have hpos : 0 < lines.length := length_pos_of_ne_nil (by rintro rfl; cases hb)
    simp only [additionApart, hb, beq_self_eq_true, Bool.not_true, Bool.false_or, all_eq_true, Bool.or_eq_true,
      decide_eq_true_eq, beq_iff_eq]
    refine forall_congr' (fun r => forall_congr' (fun hr => ?_))
    have := ht r hr
    simp only [Edit.apart_iff, span, hidx]
    omega
  · have hidx : insertionIdx lines = lines.length := if_neg hb
    refine iff_of_true (fun r hr => ?_) (by simp [additionApart, hb])
    have := ht r hr
    simp only [Edit.apart_iff, span, hidx]
    omega

/-- What the loop over the chunks promises of its replacements, given what it found before. -/
theorem replaceChunks_apart_iff (lines : List Str) (path : Str) : ∀ (chunks : List UpdateFileChunk) (lineIndex : Nat)
    (taken : List (Nat × Nat)) (added : Bool) (es : List (Edit Str)), lineIndex ≤ lines.length →
    (∀ r ∈ taken, r.1 + r.2 ≤ lineIndex) → replaceChunks lines path lineIndex chunks = .ok es →
    (((∀ r ∈ taken, ∀ e ∈ es, (span r.1 r.2).Apart e) ∧
        (added → ∀ e ∈ es, (span (insertionIdx lines) 0).Apart e) ∧ es.Pairwise Edit.Apart) ↔
      separated lines lineIndex taken added chunks)
  | [], _, _, _, es, _, _, h => by
    cases h
    simp [separated]
  | chunk :: chunks, lineIndex, taken, added, es, hi, ht, h => by
    obtain ⟨i, e, es', hc, rfl, hcase⟩ := replaceChunks_cons h
    obtain ⟨hle, hin⟩ := locateContext_some hi hc
    have hti : ∀ r ∈ taken, r.1 + r.2 ≤ i := fun r hr => le_trans (ht r hr) hle
    rcases hcase with ⟨hold, rfl, hrest⟩ | ⟨hne, hl, hrest⟩
    · have ih := replaceChunks_apart_iff lines path chunks i taken true es' hin hti hrest
      have hadd := additionApart_iff (fun r hr => le_trans (hti r hr) hin) chunk.newLines
      have hself : (span (insertionIdx lines) 0).Apart ⟨insertionIdx lines, 0, chunk.newLines⟩ :=
        Edit.apart_iff.2 (.inl (le_refl _))
      simp only [separated, hc, hold, isEmpty_nil, if_true]
      rw [and_eq_true, ← ih, ← hadd, pairwise_cons]
      simp only [mem_cons, forall_eq_or_imp, apart_span ⟨insertionIdx lines, 0, chunk.newLines⟩]
      grind
    · obtain ⟨hfit, hpos⟩ := locateOldLines_some hin hne hl
      have hti' : ∀ r ∈ (e.start, e.len) :: taken, r.1 + r.2 ≤ e.start + e.len := forall_mem_cons.2 ⟨le_refl _, fun r hr => by
          have := hti r hr
          rcases hpos with hpos | ⟨-, -, hpos⟩ <;> omega⟩
      have ih := replaceChunks_apart_iff lines path chunks _ _ added es' hfit hti' hrest
      have hold : chunk.oldLines.isEmpty = false := by simpa using hne
      simp only [separated, hc, hold, false_eq_true, if_false, hl]
      rw [and_eq_true, and_eq_true, or_eq_true, not_eq_true', ← ih, ← foundApart_iff hin hti hpos,
        ← sparesAddition_iff hfit, pairwise_cons]
      simp only [mem_cons, forall_eq_or_imp, apart_span e]
      grind

theorem computeReplacements_ok (h : computeReplacements lines path chunks = .ok rs) :
    ∃ es, replaceChunks lines path 0 chunks = .ok es ∧ rs = es.insertionSort Edit.Le := by
  unfold computeReplacements at h
  split at h
  · cases h
  · rename_i es hes
    cases h
    exact ⟨es, hes, rfl⟩

end Owc.Patch
