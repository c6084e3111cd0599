import OpenWebCodex.TaggedLine
/-!
# TaggedLineSpec — the line parser, line by line

A line is read once it is complete: it opens a tag, closes the active one, or is text of the active one.  `closeTags` closes a
tag at each of its close texts, the parser where the first spec with the close text has the tag (`matchesClose`).
-/
namespace Owc.Stream

open List Str TaggedLineParser
open TaggedLineParser (textSegment parseAll classifyLine)

variable {T : Type}

/-! ## Reading by lines -/

/-- The lines of a text with their ends, the first one begun with `line`. -/
def linesFrom (line : Str) : Str → List Str
  | [] => if line.isEmpty then [] else [line]
  | ch :: text => if ch = '\n' then (line ++ [ch]) :: linesFrom [] text else linesFrom (line ++ [ch]) text

def closing : Option T → List (TaggedLineSegment T)
  | some tag => [.tagEnd tag]
  | none => []

section Readers

variable (specs : List (TagSpec T)) (closes : T → Str → Bool)

def readLine (active : Option T) (line : Str) : Option T × TaggedLineSegment T :=
  match active with
  | none =>
    match specs.find? fun spec => spec.openTag == Str.trim line with
    | some spec => (some spec.tag, .tagStart spec.tag)
    | none => (none, .normal line)
  | some tag => if closes tag (Str.trim line) then (none, .tagEnd tag) else (some tag, .tagDelta tag line)

/-- **The line-by-line specification**: a segment for each line, and the end of the tag that is left open. -/
def readLines (active : Option T) : List Str → List (TaggedLineSegment T)
  | [] => closing active
  | line :: lines => (readLine specs closes active line).2 :: readLines (readLine specs closes active line).1 lines

variable [DecidableEq T]

def closeTags (tag : T) (slug : Str) : Bool := specs.any fun spec => decide (spec.tag = tag) && spec.closeTag == slug

def matchesClose (tag : T) (slug : Str) : Bool :=
  decide ((specs.find? fun spec => spec.closeTag == slug).map (·.tag) = some tag)

/-- No line is a close text of the active tag that the parser takes for another tag's. -/
def ReadAlike (active : Option T) : List Str → Prop
  | [] => True
  | line :: lines =>
    (∀ tag, active = some tag → closeTags specs tag (Str.trim line) = true → matchesClose specs tag (Str.trim line) = true) ∧
      ReadAlike (readLine specs (closeTags specs) active line).1 lines

end Readers

/-- A segment character by character. -/
def TaggedLineSegment.atoms : TaggedLineSegment T → List (TaggedLineSegment T)
  | .normal text => text.map (.normal [·])
  | .tagDelta tag text => text.map (.tagDelta tag [·])
  | segment => [segment]

/-- What is shown, under which tag, and where tags start and end, however it is cut. -/
def displayed (segments : List (TaggedLineSegment T)) : List (TaggedLineSegment T) := segments.flatMap (·.atoms)

/-- **Starts and ends alternate and match**, every text has the active tag, and no tag is left open. -/
def Balanced : Option T → List (TaggedLineSegment T) → Prop
  | active, .normal _ :: rest => active = none ∧ Balanced active rest
  | active, .tagDelta tag _ :: rest => active = some tag ∧ Balanced active rest
  | active, .tagStart tag :: rest => active = none ∧ Balanced (some tag) rest
  | active, .tagEnd tag :: rest => active = some tag ∧ Balanced none rest
  | active, [] => active = none

/-! ## Segments -/

theorem displayed_concat (segments : List (TaggedLineSegment T)) (segment : TaggedLineSegment T) :
    displayed (segments ++ [segment]) = displayed segments ++ segment.atoms := by
  rw [displayed, flatMap_append, flatMap_singleton, displayed]

theorem atoms_textSegment_append (parser : TaggedLineParser T) (a b : Str) :
    (parser.textSegment (a ++ b)).atoms = (parser.textSegment a).atoms ++ (parser.textSegment b).atoms := by
  unfold textSegment
  cases parser.activeTag <;> exact map_append

theorem balanced_text (parser : TaggedLineParser T) (h : Balanced parser.activeTag rest)
    (text : Str) : Balanced parser.activeTag ((parser.textSegment text).atoms ++ rest) := by
  obtain ⟨_, active, _, _⟩ := parser
  induction text with
  | nil => cases active <;> exact h
  | cons c text ih => cases active <;> exact ⟨rfl, ih⟩

theorem balanced_readLines (specs : List (TagSpec T)) (closes : T → Str → Bool) (active : Option T) (lines : List Str) :
    Balanced active (displayed (readLines specs closes active lines)) := by
  induction lines generalizing active with
  | nil => cases active <;> simp [readLines, closing, displayed, TaggedLineSegment.atoms, Balanced]
  | cons line lines ih =>
    show Balanced active ((readLine specs closes active line).2.atoms ++ displayed _)
    have hrest := ih (readLine specs closes active line).1
    generalize displayed (readLines specs closes (readLine specs closes active line).1 lines) = rest at hrest ⊢
    unfold readLine at hrest ⊢
    cases active with
    | none =>
      generalize specs.find? (fun spec => spec.openTag == trim line) = found at hrest ⊢
      cases found with
      | some => exact ⟨rfl, hrest⟩
      | none => exact balanced_text { specs } hrest line
    | some tag =>
      dsimp only at hrest ⊢
      generalize closes tag (trim line) = closed at hrest ⊢
      cases closed with
      | true => exact ⟨rfl, hrest⟩
      | false => exact balanced_text { specs, activeTag := some tag } hrest line

variable [DecidableEq T]

def output (specs : List (TagSpec T)) (chunks : List Str) : List (TaggedLineSegment T) :=
  (parseAll { specs := specs } chunks).2.flatten ++ (parseAll { specs := specs } chunks).1.finish

theorem displayed_pushSegment (segments : List (TaggedLineSegment T)) (segment : TaggedLineSegment T) :
    displayed (pushSegment segments segment) = displayed segments ++ segment.atoms := by
  rcases pushSegment_cases segments segment with ⟨hempty, heq⟩ | ⟨heq, -⟩ | ⟨front, parser, a, b, rfl, rfl, -, heq⟩ <;> rw [heq]
  · cases segment <;> simp_all [TaggedLineSegment.IsEmptyText, TaggedLineSegment.atoms]
  · rw [displayed_concat]
  · rw [displayed_concat, displayed_concat, atoms_textSegment_append, append_assoc]

theorem displayed_merge (segments more : List (TaggedLineSegment T)) :
    displayed (merge segments more) = displayed segments ++ displayed more := by
  induction more generalizing segments with
  | nil => exact (append_nil _).symm
  | cons segment more ih =>
    refine (ih (pushSegment segments segment)).trans ?_
    rw [displayed_pushSegment, append_assoc]
    rfl

/-! ## One line -/

theorem trim_withoutNewline (line : Str) : trimEnd (trimStart ((stripSuffix line ['\n']).getD line)) = trim line := by
  cases hstrip : stripSuffix line ['\n'] with
  | none => rfl
  | some =>
    rw [stripSuffix_eq_some.1 hstrip]
    unfold trim trimStart trimEnd
    rw [Option.getD_some, dropWhile_append]
    split
    · next hempty => rw [List.isEmpty_iff.1 hempty]; decide
    · exact (rdropWhile_concat_pos _ _ _ (by decide)).symm

theorem trim_isPrefix (h : trimStart line ≠ []) (rest : Str) : trim line <+: trim (line ++ rest) := by
  have hstart : trimStart (line ++ rest) = trimStart line ++ rest := by
    unfold trimStart at h ⊢
    rw [dropWhile_append, if_neg (by simpa using h)]
  unfold trim
  rw [hstart]
  clear hstart
  induction rest using List.reverseRecOn with
  | nil => rw [append_nil]
  | append_singleton rest c ih =>
    rw [← append_assoc]
    unfold trimEnd at ih ⊢
    by_cases hc : isWhitespace c
    · rwa [rdropWhile_concat_pos _ _ _ hc]
    · rw [rdropWhile_concat_neg _ _ _ hc, append_assoc]
      exact (List.rdropWhile_prefix _ _).trans (prefix_append _ _)

theorem classifyLine_eq (parser : TaggedLineParser T) (line : Str) : parser.classifyLine line =
      let read := readLine parser.specs (matchesClose parser.specs) parser.activeTag line
      ({ parser with activeTag := read.1 }, read.2) := by
  obtain ⟨specs, active, _, _⟩ := parser
  unfold classifyLine readLine matchOpen matchClose matchesClose
  dsimp only
  rw [trim_withoutNewline]
  cases active with
  | none =>
    cases specs.find? (fun spec => spec.openTag == trim line) <;>
      cases specs.find? (fun spec => spec.closeTag == trim line) <;> rfl
  | some tag =>
    cases hclose : specs.find? (fun spec => spec.closeTag == trim line) with
    | none => simp [textSegment]
    | some spec =>
      by_cases htag : tag = spec.tag
      · simp [htag]
      · simp [htag, Ne.symm htag, textSegment]

/-- A line that begins so is text, however it goes on. -/
def Untagged (specs : List (TagSpec T)) (line : Str) : Prop :=
  ∀ (parser : TaggedLineParser T) rest, parser.specs = specs →
    readLine specs (matchesClose specs) parser.activeTag (line ++ rest) = (parser.activeTag, parser.textSegment (line ++ rest))

theorem untagged_of_not_isTagPrefix {parser : TaggedLineParser T} {line : Str} (hne : trimStart line ≠ [])
    (h : ¬parser.isTagPrefix (trimStart line)) : Untagged parser.specs line := by
  rintro ⟨specs, active, _, _⟩ rest ⟨⟩
  have hnone : ∀ spec ∈ parser.specs, spec.openTag ≠ trim (line ++ rest) ∧ spec.closeTag ≠ trim (line ++ rest) := by
    intro spec hspec
    have hpre : startsWith (trim (line ++ rest)) (trim line) :=
      isPrefixOf_iff_prefix.2 (trim_isPrefix hne rest)
    refine ⟨fun heq => h (any_eq_true.2 ⟨spec, hspec, ?_⟩), fun heq => h (any_eq_true.2 ⟨spec, hspec, ?_⟩)⟩ <;>
      rw [heq, Bool.or_eq_true]
    · exact .inl hpre
    · exact .inr hpre
  unfold readLine matchesClose
  cases active with
  | none =>
    rw [find?_eq_none.2 fun spec hspec => by simpa using (hnone spec hspec).1]
    rfl
  | some =>
    dsimp only
    rw [find?_eq_none.2 fun spec hspec => by simpa using (hnone spec hspec).2]
    rfl

/-! ## The scan -/

/-- **The line is buffered, or it is text and shown already.** -/
structure At (scan : LineScan T) (line : Str) (before : List (TaggedLineSegment T)) : Prop where
  detected : scan.parser.detectTag = true → scan.parser.lineBuffer = line ∧ displayed scan.flush = before
  passed : scan.parser.detectTag = false → scan.parser.lineBuffer = [] ∧ line ≠ [] ∧ Untagged scan.parser.specs line ∧
    displayed scan.flush = before ++ (scan.parser.textSegment line).atoms

variable {scan : LineScan T} {line : Str} {before : List (TaggedLineSegment T)}

/-- What the parser reads next: the line so far and the text to come. -/
def TaggedLineParser.reads (parser : TaggedLineParser T) (lines : List Str) : List (TaggedLineSegment T) :=
  readLines parser.specs (matchesClose parser.specs) parser.activeTag lines

theorem At.newline (h : At scan line before) (lines : List Str) : ∃ shown, At (scan.scanChar '\n') [] (before ++ shown) ∧
      shown ++ displayed ((scan.scanChar '\n').parser.reads lines) = displayed (scan.parser.reads ((line ++ ['\n']) :: lines)) := by
  refine ⟨(readLine scan.parser.specs (matchesClose scan.parser.specs) scan.parser.activeTag (line ++ ['\n'])).2.atoms, ?_⟩
  unfold LineScan.scanChar
  cases hdetect : scan.parser.detectTag with
  | true =>
    obtain ⟨rfl, rfl⟩ := h.detected hdetect
    rw [if_pos rfl, if_pos rfl, finishLine]
    dsimp only
    rw [classifyLine_eq]
    exact ⟨⟨fun _ => ⟨rfl, displayed_pushSegment _ _⟩, fun h => by cases h⟩, rfl⟩
  | false =>
    obtain ⟨hbuffer, -, huntagged, hshown⟩ := h.passed hdetect
    have hread := huntagged scan.parser ['\n'] rfl
    rw [if_neg Bool.false_ne_true, if_pos rfl, scan.flush_append, hread]
    refine ⟨⟨fun _ => ⟨hbuffer, ?_⟩, fun h => by cases h⟩, ?_⟩
    · rw [atoms_textSegment_append, ← append_assoc, ← hshown]
      exact displayed_pushSegment _ _
    · show _ = (readLine _ _ _ (line ++ ['\n'])).2.atoms ++ displayed (readLines _ _ (readLine _ _ _ (line ++ ['\n'])).1 lines)
      rw [hread]
      rfl

theorem At.char (h : At scan line before) {ch : Char} (hch : ch ≠ '\n') :
    At (scan.scanChar ch) (line ++ [ch]) before ∧ ∀ lines, (scan.scanChar ch).parser.reads lines = scan.parser.reads lines := by
  unfold LineScan.scanChar
  cases hdetect : scan.parser.detectTag with
  | true =>
    obtain ⟨rfl, rfl⟩ := h.detected hdetect
    dsimp only
    rw [if_pos rfl, if_neg hch]
    split
    · exact ⟨⟨fun _ => ⟨rfl, rfl⟩, fun hpassed => nomatch hpassed.symm.trans hdetect⟩, fun _ => rfl⟩
    · next hslug =>
      rw [Bool.or_eq_true, not_or] at hslug
      refine ⟨⟨nofun, fun _ => ⟨rfl, by simp, ?_, displayed_pushSegment _ _⟩⟩, fun _ => rfl⟩
      exact untagged_of_not_isTagPrefix (by simpa using hslug.1) hslug.2
  | false =>
    obtain ⟨hbuffer, -, huntagged, hshown⟩ := h.passed hdetect
    rw [if_neg nofun, if_neg hch]
    refine ⟨⟨fun hdetected => (by rw [hdetect] at hdetected; cases hdetected), fun _ => ⟨hbuffer, by simp, ?_, ?_⟩⟩, fun _ => rfl⟩
    · intro parser rest hspecs
      rw [append_assoc]
      exact huntagged parser ([ch] ++ rest) hspecs
    · rw [scan.flush_run_append, atoms_textSegment_append, ← append_assoc, ← hshown]
      exact displayed_pushSegment _ _

theorem displayed_finish (parser : TaggedLineParser T) :
    displayed parser.finish = displayed (parser.reads (linesFrom parser.lineBuffer [])) := by
  have hclose : ∀ (active : Option T) (segments : List (TaggedLineSegment T)), displayed (match active with
        | some tag => pushSegment segments (.tagEnd tag)
        | none => segments) = displayed segments ++ displayed (closing active) := by
    intro active segments
    cases active with
    | some => exact displayed_pushSegment _ _
    | none => exact (append_nil _).symm
  refine (hclose _ _).trans ?_
  unfold linesFrom
  cases hempty : parser.lineBuffer.isEmpty with
  | true => rfl
  | false =>
    rw [if_neg nofun, if_neg nofun, classifyLine_eq, displayed_pushSegment]
    rfl

theorem At.displayed_eq (h : At scan line before) (text : Str) :
    displayed (text.foldl LineScan.scanChar scan).flush ++ displayed (text.foldl LineScan.scanChar scan).parser.finish =
      before ++ displayed (scan.parser.reads (linesFrom line text)) := by
  induction text generalizing scan line before with
  | nil =>
    rw [foldl_nil, displayed_finish]
    cases hdetect : scan.parser.detectTag with
    | true =>
      obtain ⟨rfl, rfl⟩ := h.detected hdetect
      rfl
    | false =>
      obtain ⟨hbuffer, hne, huntagged, hshown⟩ := h.passed hdetect
      have hread := huntagged scan.parser [] rfl
      rw [append_nil] at hread
      rw [hbuffer, hshown, linesFrom, linesFrom, if_pos isEmpty_nil, if_neg (by simpa using hne), append_assoc]
      show _ = before ++ ((readLine _ _ _ line).2.atoms ++ displayed (closing (readLine _ _ _ line).1))
      rw [hread]
      rfl
  | cons ch text ih =>
    rw [foldl_cons, linesFrom]
    by_cases hch : ch = '\n'
    · subst hch
      obtain ⟨_, hat, hreads⟩ := h.newline (linesFrom [] text)
      rw [if_pos rfl, ih hat, append_assoc, hreads]
    · obtain ⟨hat, hreads⟩ := h.char hch
      rw [if_neg hch, ih hat, hreads]

/-! ## The specification -/

theorem ne_nil_of_mem_linesFrom : ∀ {begun}, line ∈ linesFrom begun text → line ≠ [] := by
  induction text with
  | nil =>
    intro begun h
    rw [linesFrom] at h
    split at h
    · cases h
    · next hne => rw [mem_singleton.1 h]; simpa using hne
  | cons ch text ih =>
    intro begun h
    rw [linesFrom] at h
    split at h
    · rcases mem_cons.1 h with rfl | h
      · simp
      · exact ih h
    · exact ih h

variable {specs : List (TagSpec T)}

theorem closeTags_of_matchesClose (h : matchesClose specs tag slug) : closeTags specs tag slug := by
  obtain ⟨spec, hspec, htag⟩ := Option.map_eq_some_iff.1 (of_decide_eq_true h)
  have hslug := find?_some hspec
  exact any_eq_true.2 ⟨spec, mem_of_find?_eq_some hspec, by simp_all⟩

theorem displayed_readLines_eq_iff {lines : List Str} (hne : ∀ line ∈ lines, line ≠ []) (active : Option T) :
    displayed (readLines specs (matchesClose specs) active lines) = displayed (readLines specs (closeTags specs) active lines) ↔
      ReadAlike specs active lines := by
  induction lines generalizing active with
  | nil => exact iff_of_true rfl trivial
  | cons line lines ih =>
    have ih := ih fun other hmem => hne other (mem_cons_of_mem _ hmem)
    show _ ++ displayed _ = _ ++ displayed _ ↔ _
    rw [ReadAlike]
    cases active with
    | none =>
      rw [← ih]
      exact (append_right_inj _).trans (and_iff_right nofun).symm
    | some tag =>
      unfold readLine
      dsimp only
      cases hmatch : matchesClose specs tag (trim line) with
      | true =>
        rw [closeTags_of_matchesClose hmatch, ← ih]
        exact (append_right_inj _).trans (and_iff_right fun _ h _ => Option.some.inj h ▸ hmatch).symm
      | false =>
        cases hclose : closeTags specs tag (trim line) with
        | false =>
          rw [← ih]
          exact (append_right_inj _).trans (and_iff_right fun _ h hclosed => by cases h; cases hclose.symm.trans hclosed).symm
        | true =>
          -- the parser shows the line, where the specification ends the tag
          refine iff_of_false (fun heq => ?_) fun h => nomatch hmatch.symm.trans (h.1 tag rfl hclose)
          cases line with
          | nil => exact hne [] mem_cons_self rfl
          | cons => cases heq

/-- **The parser refines the line-by-line specification exactly where no close text is taken for another tag's**, however the
text is cut; what it shows is balanced in any case. -/
theorem tagged_lines_read (specs : List (TagSpec T)) (chunks : List Str) :
    (displayed (output specs chunks) = displayed (readLines specs (closeTags specs) none (linesFrom [] chunks.flatten)) ↔
      ReadAlike specs none (linesFrom [] chunks.flatten)) ∧ Balanced none (displayed (output specs chunks)) := by
  obtain ⟨hparser, hmerge⟩ := parseAll_eq { specs := specs } chunks
  have hshown := congrArg displayed (hmerge [])
  rw [displayed_merge, displayed_merge] at hshown
  have hstart : At ({ parser := { specs := specs } } : LineScan T) [] [] := ⟨fun _ => ⟨rfl, rfl⟩, nofun⟩
  have hread := hstart.displayed_eq chunks.flatten
  have houtput : displayed (output specs chunks) = displayed _ ++ displayed _ := flatMap_append
  rw [houtput, append_cancel_left hshown, hparser]
  unfold parse
  rw [hread]
  exact ⟨displayed_readLines_eq_iff (fun _ => ne_nil_of_mem_linesFrom) none, balanced_readLines specs _ none _⟩

deriving instance DecidableEq for TaggedLineSegment

def sharedClose : List (TagSpec Bool) := [⟨['a'], ['x'], false⟩, ⟨['b'], ['x'], true⟩]

/-- **A tag whose close text an earlier spec has too is not closed by it.** -/
theorem shared_close_text_not_read : displayed (output sharedClose ["b\nx\nc".toList]) ≠
    displayed (readLines sharedClose (closeTags sharedClose) none (linesFrom [] "b\nx\nc".toList)) := by
  decide

end Owc.Stream
