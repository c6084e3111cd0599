import OpenWebCodex.Text
/-!
# TaggedLine — tags that stand alone on a line

The parser buffers a line until it can no longer be a tag.  The segments it returns for a text do not depend on how the text is
cut, once adjacent texts are merged (`parse_append`).
-/
namespace Owc.Stream

open List

structure TagSpec (T : Type) where
  openTag : Str
  closeTag : Str
  tag : T

inductive TaggedLineSegment (T : Type)
  | normal (text : Str)
  | tagStart (tag : T)
  | tagDelta (tag : T) (text : Str)
  | tagEnd (tag : T)

structure TaggedLineParser (T : Type) where
  specs : List (TagSpec T)
  activeTag : Option T := none
  detectTag : Bool := true
  lineBuffer : Str := []

variable {T : Type} [DecidableEq T]

/-- Text is added to the last segment where that has the same kind. -/
def pushSegment (segments : List (TaggedLineSegment T)) (segment : TaggedLineSegment T) : List (TaggedLineSegment T) :=
  match segment with
  | .normal delta =>
    if delta.isEmpty then segments
    else match segments.getLast? with
      | some (.normal existing) => segments.dropLast ++ [.normal (existing ++ delta)]
      | _ => segments ++ [.normal delta]
  | .tagDelta tag delta =>
    if delta.isEmpty then segments
    else match segments.getLast? with
      | some (.tagDelta existingTag existing) =>
        if existingTag = tag then segments.dropLast ++ [.tagDelta existingTag (existing ++ delta)]
        else segments ++ [.tagDelta tag delta]
      | _ => segments ++ [.tagDelta tag delta]
  | .tagStart tag => segments ++ [.tagStart tag]
  | .tagEnd tag => segments ++ [.tagEnd tag]

namespace TaggedLineParser

def textSegment (parser : TaggedLineParser T) (text : Str) : TaggedLineSegment T :=
  match parser.activeTag with
  | some tag => .tagDelta tag text
  | none => .normal text

def pushText (parser : TaggedLineParser T) (text : Str) (segments : List (TaggedLineSegment T)) :
    List (TaggedLineSegment T) :=
  pushSegment segments (parser.textSegment text)

def isTagPrefix (parser : TaggedLineParser T) (slug : Str) : Bool :=
  let slug := Str.trimEnd slug
  parser.specs.any (fun spec => Str.startsWith spec.openTag slug || Str.startsWith spec.closeTag slug)

def matchOpen (parser : TaggedLineParser T) (slug : Str) : Option T :=
  (parser.specs.find? (fun spec => spec.openTag == slug)).map (·.tag)

def matchClose (parser : TaggedLineParser T) (slug : Str) : Option T :=
  (parser.specs.find? (fun spec => spec.closeTag == slug)).map (·.tag)

def classifyLine (parser : TaggedLineParser T) (line : Str) : TaggedLineParser T × TaggedLineSegment T :=
  let withoutNewline := (Str.stripSuffix line ['\n']).getD line
  let slug := Str.trimEnd (Str.trimStart withoutNewline)
  match parser.matchOpen slug, parser.matchClose slug, parser.activeTag with
  | some tag, _, none => ({ parser with activeTag := some tag }, .tagStart tag)
  | _, some tag, some active =>
    if active = tag then ({ parser with activeTag := none }, .tagEnd tag) else (parser, parser.textSegment line)
  | _, _, _ => (parser, parser.textSegment line)

def finishLine (parser : TaggedLineParser T) (segments : List (TaggedLineSegment T)) :
    TaggedLineParser T × List (TaggedLineSegment T) :=
  let line := parser.lineBuffer
  let classified := classifyLine { parser with lineBuffer := [] } line
  ({ classified.1 with detectTag := true }, pushSegment segments classified.2)

end TaggedLineParser

/-- The loop over the characters: the parser, the text not yet pushed, and the segments. -/
structure LineScan (T : Type) where
  parser : TaggedLineParser T
  run : Str := []
  segments : List (TaggedLineSegment T) := []

namespace LineScan

def flush (scan : LineScan T) : List (TaggedLineSegment T) :=
  if scan.run.isEmpty then scan.segments else scan.parser.pushText scan.run scan.segments

def scanChar (scan : LineScan T) (ch : Char) : LineScan T :=
  if scan.parser.detectTag then
    let segments := scan.flush
    let parser := { scan.parser with lineBuffer := scan.parser.lineBuffer ++ [ch] }
    if ch = '\n' then
      let finished := parser.finishLine segments
      ⟨finished.1, [], finished.2⟩
    else
      let slug := Str.trimStart parser.lineBuffer
      if slug.isEmpty || parser.isTagPrefix slug then ⟨parser, [], segments⟩
      else
        let buffered := parser.lineBuffer
        let parser := { parser with lineBuffer := [], detectTag := false }
        ⟨parser, [], parser.pushText buffered segments⟩
  else
    let run := scan.run ++ [ch]
    if ch = '\n' then ⟨{ scan.parser with detectTag := true }, [], scan.parser.pushText run scan.segments⟩
    else { scan with run := run }

end LineScan

namespace TaggedLineParser

def parse (parser : TaggedLineParser T) (delta : Str) : TaggedLineParser T × List (TaggedLineSegment T) :=
  let scan := delta.foldl LineScan.scanChar { parser := parser }
  (scan.parser, scan.flush)

def finish (parser : TaggedLineParser T) : List (TaggedLineSegment T) :=
  let buffered := parser.lineBuffer
  let classified :=
    if buffered.isEmpty then (parser, [])
    else
      let line := classifyLine { parser with lineBuffer := [] } buffered
      (line.1, pushSegment [] line.2)
  match classified.1.activeTag with
  | some tag => pushSegment classified.2 (.tagEnd tag)
  | none => classified.2

end TaggedLineParser

/-! ## Merging -/

def TaggedLineSegment.IsEmptyText : TaggedLineSegment T → Prop
  | .normal text => text = []
  | .tagDelta _ text => text = []
  | _ => False

omit [DecidableEq T] in
theorem isEmptyText_textSegment (parser : TaggedLineParser T) (text : Str) :
    (parser.textSegment text).IsEmptyText ↔ text = [] := by
  unfold TaggedLineParser.textSegment
  cases parser.activeTag <;> exact Iff.rfl

theorem pushSegment_cases (segments : List (TaggedLineSegment T)) (segment : TaggedLineSegment T) :
    segment.IsEmptyText ∧ pushSegment segments segment = segments ∨
    pushSegment segments segment = segments ++ [segment] ∧ ¬segment.IsEmptyText ∨
    ∃ front parser a b, segments = front ++ [TaggedLineParser.textSegment parser a] ∧ segment = parser.textSegment b ∧ b ≠ [] ∧
      pushSegment segments segment = front ++ [parser.textSegment (a ++ b)] := by
  by_cases hempty : segment.IsEmptyText
  · exact .inl ⟨hempty, by cases segment <;> simp_all [TaggedLineSegment.IsEmptyText, pushSegment]⟩
  rcases eq_nil_or_concat segments with rfl | ⟨front, last, rfl⟩
  · exact .inr (.inl ⟨by cases segment <;> simp_all [TaggedLineSegment.IsEmptyText, pushSegment], hempty⟩)
  cases segment <;> cases last
  case normal.normal delta a => exact .inr (.inr ⟨front, { specs := [] }, a, delta, concat_eq_append, rfl, hempty,
    by simp_all [TaggedLineSegment.IsEmptyText, pushSegment, TaggedLineParser.textSegment]⟩)
  case tagDelta.tagDelta tag delta existing a =>
    by_cases htag : existing = tag
    · subst htag
      exact .inr (.inr ⟨front, { specs := [], activeTag := some existing }, a, delta, concat_eq_append, rfl, hempty,
        by simp_all [TaggedLineSegment.IsEmptyText, pushSegment, TaggedLineParser.textSegment]⟩)
    · exact .inr (.inl ⟨by simp_all [TaggedLineSegment.IsEmptyText, pushSegment], hempty⟩)
  all_goals exact .inr (.inl ⟨by simp_all [TaggedLineSegment.IsEmptyText, pushSegment], hempty⟩)

theorem TaggedLineParser.pushText_pushText (parser : TaggedLineParser T) (segments : List (TaggedLineSegment T)) (a b : Str) :
    parser.pushText b (parser.pushText a segments) = parser.pushText (a ++ b) segments := by
  unfold pushText textSegment
  by_cases ha : a = []
  · subst ha
    cases parser.activeTag <;> rfl
  by_cases hb : b = []
  · subst hb
    rw [append_nil]
    cases parser.activeTag <;> rfl
  rcases eq_nil_or_concat segments with rfl | ⟨front, last, rfl⟩
  · cases parser.activeTag <;> simp [pushSegment, ha, hb]
  cases parser.activeTag with
  | none => cases last <;> simp [pushSegment, ha, hb]
  | some tag =>
    cases last with
    | tagDelta existing => by_cases htag : existing = tag <;> simp [pushSegment, ha, hb, htag]
    | _ => simp [pushSegment, ha, hb]

def merge (segments more : List (TaggedLineSegment T)) : List (TaggedLineSegment T) := more.foldl pushSegment segments

theorem merge_append (segments a b : List (TaggedLineSegment T)) : merge segments (a ++ b) = merge (merge segments a) b :=
  foldl_append

theorem merge_pushSegment (segments more : List (TaggedLineSegment T)) (segment : TaggedLineSegment T) :
    merge segments (pushSegment more segment) = pushSegment (merge segments more) segment := by
  rcases pushSegment_cases more segment with ⟨hempty, heq⟩ | ⟨heq, -⟩ | ⟨front, parser, a, b, rfl, rfl, -, heq⟩
  · rw [heq]
    cases segment with
    | normal | tagDelta =>
      cases hempty
      rfl
    | _ => exact hempty.elim
  · rw [heq, merge_append]
    rfl
  · rw [heq, merge_append, merge_append]
    exact (parser.pushText_pushText _ a b).symm

theorem merge_merge (segments a b : List (TaggedLineSegment T)) : merge segments (merge a b) = merge (merge segments a) b := by
  induction b generalizing a with
  | nil => rfl
  | cons segment b ih => exact (ih (pushSegment a segment)).trans (congrArg (merge · b) (merge_pushSegment _ _ _))

def NoEmptyText (segments : List (TaggedLineSegment T)) : Prop := ∀ segment ∈ segments, ¬segment.IsEmptyText

theorem NoEmptyText.pushSegment (h : NoEmptyText segments)
    (segment : TaggedLineSegment T) : NoEmptyText (Stream.pushSegment segments segment) := by
  have hpush : ∀ front last, NoEmptyText front → ¬last.IsEmptyText → NoEmptyText (front ++ [last] : List (TaggedLineSegment T)) := by
    intro front last hfront hlast other hother
    rcases mem_append.1 hother with hmem | hmem
    · exact hfront other hmem
    · rwa [mem_singleton.1 hmem]
  rcases pushSegment_cases segments segment with ⟨-, heq⟩ | ⟨heq, hne⟩ | ⟨front, parser, a, b, rfl, rfl, hne, heq⟩ <;> rw [heq]
  · exact h
  · exact hpush _ _ h hne
  · exact hpush _ _ (fun other hmem => h other (mem_append_left _ hmem)) fun hnil =>
      hne (append_eq_nil_iff.1 ((isEmptyText_textSegment _ _).1 hnil)).2

theorem NoEmptyText.merge (h : NoEmptyText segments)
    (more : List (TaggedLineSegment T)) : NoEmptyText (Stream.merge segments more) := by
  induction more generalizing segments with
  | nil => exact h
  | cons segment more ih => exact ih (h.pushSegment segment)

namespace LineScan

def onto (segments : List (TaggedLineSegment T)) (scan : LineScan T) : LineScan T :=
  { scan with segments := merge segments scan.segments }

section

variable (segments : List (TaggedLineSegment T)) (scan : LineScan T)

theorem flush_onto : (scan.onto segments).flush = merge segments scan.flush := by
  unfold flush onto TaggedLineParser.pushText
  split
  · rfl
  · rw [merge_pushSegment]

theorem scanChar_onto (ch : Char) : (scan.onto segments).scanChar ch = (scan.scanChar ch).onto segments := by
  unfold scanChar
  rw [flush_onto]
  simp only [TaggedLineParser.finishLine, TaggedLineParser.pushText, ← merge_pushSegment, onto]
  split_ifs <;> rfl

theorem foldl_scanChar_onto (text : Str) :
    text.foldl scanChar (scan.onto segments) = (text.foldl scanChar scan).onto segments := by
  induction text generalizing scan with
  | nil => rfl
  | cons ch text ih => rw [foldl_cons, foldl_cons, scanChar_onto, ih]

end

/-- Two scans that differ in what is not yet pushed only. -/
def Alike (a b : LineScan T) : Prop := a.parser = b.parser ∧ a.flush = b.flush

theorem flush_append (scan : LineScan T) (ch : Char) :
    scan.parser.pushText (scan.run ++ [ch]) scan.segments = scan.parser.pushText [ch] scan.flush := by
  unfold flush
  by_cases hrun : scan.run = []
  · simp [hrun]
  · rw [if_neg (by simpa using hrun), scan.parser.pushText_pushText]

theorem flush_run_append (scan : LineScan T) (ch : Char) :
    LineScan.flush { scan with run := scan.run ++ [ch] } = scan.parser.pushText [ch] scan.flush := by
  rw [← flush_append, flush, if_neg (by simp)]

theorem Alike.scanChar {a b : LineScan T} (h : a.Alike b) (ch : Char) : (a.scanChar ch).Alike (b.scanChar ch) := by
  obtain ⟨hparser, hflush⟩ := h
  unfold LineScan.scanChar
  dsimp only
  rw [flush_append a, flush_append b, hparser, hflush]
  split_ifs
  any_goals exact ⟨rfl, rfl⟩
  refine ⟨rfl, ?_⟩
  have ha := flush_run_append a ch
  rw [hparser, hflush] at ha
  exact ha.trans (flush_run_append b ch).symm

theorem Alike.foldl {a b : LineScan T} (h : a.Alike b) (text : Str) :
    (text.foldl LineScan.scanChar a).Alike (text.foldl LineScan.scanChar b) := by
  induction text generalizing a b with
  | nil => exact h
  | cons ch text ih => exact ih (h.scanChar ch)

end LineScan

namespace TaggedLineParser

section

variable (parser : TaggedLineParser T)

/-- **A text parsed in two parts** leaves the same parser, and its segments are those of the parts, merged. -/
theorem parse_append (a b : Str) : (parser.parse (a ++ b)).1 = ((parser.parse a).1.parse b).1 ∧
      (parser.parse (a ++ b)).2 = merge (parser.parse a).2 ((parser.parse a).1.parse b).2 := by
  let first := a.foldl LineScan.scanChar { parser := parser }
  have halike : first.Alike (LineScan.onto first.flush { parser := first.parser }) := ⟨rfl, rfl⟩
  obtain ⟨hparser, hflush⟩ := halike.foldl b
  rw [LineScan.foldl_scanChar_onto] at hparser hflush
  rw [LineScan.flush_onto] at hflush
  unfold parse
  rw [foldl_append]
  exact ⟨hparser, hflush⟩

theorem merge_nil_parse (text : Str) : merge [] (parser.parse text).2 = (parser.parse text).2 := by
  have honto := LineScan.foldl_scanChar_onto [] { parser := parser } text
  have hflush := LineScan.flush_onto [] (text.foldl LineScan.scanChar { parser := parser })
  rw [← honto] at hflush
  exact hflush.symm

theorem noEmptyText_parse (text : Str) : NoEmptyText (parser.parse text).2 := by
  rw [← merge_nil_parse]
  exact NoEmptyText.merge (forall_mem_nil _) _

theorem noEmptyText_finish : NoEmptyText parser.finish := by
  have hclose : ∀ (active : Option T) (segments : List (TaggedLineSegment T)), NoEmptyText segments →
      NoEmptyText (match active with
        | some tag => pushSegment segments (.tagEnd tag)
        | none => segments) := by
    intro active segments h
    cases active with
    | some => exact h.pushSegment _
    | none => exact h
  apply hclose
  split
  · exact forall_mem_nil _
  · exact NoEmptyText.pushSegment (forall_mem_nil _) _

def parseAll (parser : TaggedLineParser T) : List Str → TaggedLineParser T × List (List (TaggedLineSegment T))
  | [] => (parser, [])
  | chunk :: chunks =>
    let parsed := parser.parse chunk
    let rest := parsed.1.parseAll chunks
    (rest.1, parsed.2 :: rest.2)

theorem parseAll_eq (chunks : List Str) : (parser.parseAll chunks).1 = (parser.parse chunks.flatten).1 ∧
      ∀ segments, merge segments (parser.parseAll chunks).2.flatten = merge segments (parser.parse chunks.flatten).2 := by
  induction chunks generalizing parser with
  | nil => exact ⟨rfl, fun _ => rfl⟩
  | cons chunk chunks ih =>
    obtain ⟨hparser, hsegments⟩ := ih (parser.parse chunk).1
    obtain ⟨hwhole, hmerged⟩ := parse_append parser chunk chunks.flatten
    rw [flatten_cons, hwhole, hmerged, parseAll]
    refine ⟨hparser, fun segments => ?_⟩
    rw [flatten_cons, merge_append, hsegments, merge_merge]

end

end TaggedLineParser

end Owc.Stream
