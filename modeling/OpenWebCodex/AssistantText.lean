import OpenWebCodex.HiddenTag
import OpenWebCodex.TaggedLine
/-!
# AssistantText — streamed assistant text

Citations are taken out of the text first; in plan mode what is left goes through the line parser.  What the stream yields does
not depend on how the text is cut, and outside plan mode it is the text without its citations.
-/
namespace Owc.Stream

open List TaggedLineParser

inductive CitationTag
  | citation

def citationOpen : Str := "<oai-mem-citation>".toList

def citationClose : Str := "</oai-mem-citation>".toList

def citationSpec : InlineTagSpec CitationTag := ⟨.citation, citationOpen, citationClose⟩

structure CitationStreamParser where
  inner : InlineHiddenTagParser CitationTag := { specs := [citationSpec] }

def citationChunk (inner : StreamTextChunk (ExtractedInlineTag CitationTag)) : StreamTextChunk Str :=
  ⟨inner.visibleText, inner.extracted.map (·.content)⟩

def CitationStreamParser.pushStr (parser : CitationStreamParser) (chunk : Str) : CitationStreamParser × StreamTextChunk Str :=
  let inner := parser.inner.pushStr chunk
  (⟨inner.1⟩, citationChunk inner.2)

def CitationStreamParser.finish (parser : CitationStreamParser) : StreamTextChunk Str := citationChunk parser.inner.finish

inductive PlanTag
  | proposedPlan
deriving DecidableEq

inductive ProposedPlanSegment
  | normal (text : Str)
  | proposedPlanStart
  | proposedPlanDelta (text : Str)
  | proposedPlanEnd

structure ProposedPlanParser where
  parser : TaggedLineParser PlanTag :=
    { specs := [⟨"<proposed_plan>".toList, "</proposed_plan>".toList, .proposedPlan⟩] }

def mapSegment : TaggedLineSegment PlanTag → ProposedPlanSegment
  | .normal text => .normal text
  | .tagStart .proposedPlan => .proposedPlanStart
  | .tagDelta .proposedPlan text => .proposedPlanDelta text
  | .tagEnd .proposedPlan => .proposedPlanEnd

def ProposedPlanSegment.visible : ProposedPlanSegment → Str
  | .normal text => text
  | _ => []

def mapSegments (segments : List (TaggedLineSegment PlanTag)) : StreamTextChunk ProposedPlanSegment :=
  ⟨(segments.map mapSegment).flatMap (·.visible), segments.map mapSegment⟩

def ProposedPlanParser.pushStr (plan : ProposedPlanParser) (chunk : Str) :
    ProposedPlanParser × StreamTextChunk ProposedPlanSegment :=
  let parsed := plan.parser.parse chunk
  (⟨parsed.1⟩, mapSegments parsed.2)

def ProposedPlanParser.finish (plan : ProposedPlanParser) : StreamTextChunk ProposedPlanSegment :=
  mapSegments plan.parser.finish

structure AssistantTextChunk where
  visibleText : Str := []
  citations : List Str := []
  planSegments : List ProposedPlanSegment := []

structure AssistantTextStreamParser where
  planMode : Bool
  citations : CitationStreamParser := {}
  plan : ProposedPlanParser := {}

namespace AssistantTextStreamParser

def parseVisibleText (parser : AssistantTextStreamParser) (visibleText : Str) :
    AssistantTextStreamParser × AssistantTextChunk :=
  if parser.planMode then
    let planChunk := parser.plan.pushStr visibleText
    ({ parser with plan := planChunk.1 }, ⟨planChunk.2.visibleText, [], planChunk.2.extracted⟩)
  else (parser, ⟨visibleText, [], []⟩)

def pushStr (parser : AssistantTextStreamParser) (chunk : Str) : AssistantTextStreamParser × AssistantTextChunk :=
  let citationChunk := parser.citations.pushStr chunk
  let out := parseVisibleText { parser with citations := citationChunk.1 } citationChunk.2.visibleText
  (out.1, { out.2 with citations := citationChunk.2.extracted })

def finish (parser : AssistantTextStreamParser) : AssistantTextChunk :=
  let citationChunk := parser.citations.finish
  let out := parser.parseVisibleText citationChunk.visibleText
  let tail : StreamTextChunk ProposedPlanSegment := if out.1.planMode then out.1.plan.finish else {}
  ⟨out.2.visibleText ++ tail.visibleText, citationChunk.extracted, out.2.planSegments ++ tail.extracted⟩

def pushAll (parser : AssistantTextStreamParser) : List Str → List AssistantTextChunk
  | [] => [parser.finish]
  | chunk :: chunks =>
    let pushed := parser.pushStr chunk
    pushed.2 :: pushed.1.pushAll chunks

end AssistantTextStreamParser

def AssistantTextChunk.concat (chunks : List AssistantTextChunk) : AssistantTextChunk :=
  ⟨chunks.flatMap (·.visibleText), chunks.flatMap (·.citations), chunks.flatMap (·.planSegments)⟩

theorem AssistantTextChunk.concat_cons (chunk : AssistantTextChunk) (chunks : List AssistantTextChunk) :
    concat (chunk :: chunks) = ⟨chunk.visibleText ++ (concat chunks).visibleText, chunk.citations ++ (concat chunks).citations,
      chunk.planSegments ++ (concat chunks).planSegments⟩ := rfl

def assistantStream (planMode : Bool) (chunks : List Str) : AssistantTextChunk :=
  .concat (AssistantTextStreamParser.pushAll { planMode := planMode } chunks)

/-- A segment added after others: adjacent texts become one. -/
def addDelta (segments : List ProposedPlanSegment) (segment : ProposedPlanSegment) : List ProposedPlanSegment :=
  match segments.getLast?, segment with
  | some (.normal existing), .normal delta => segments.dropLast ++ [.normal (existing ++ delta)]
  | some (.proposedPlanDelta existing), .proposedPlanDelta delta =>
    segments.dropLast ++ [.proposedPlanDelta (existing ++ delta)]
  | _, _ => segments ++ [segment]

def mergeDeltas (segments : List ProposedPlanSegment) : List ProposedPlanSegment := segments.foldl addDelta []

/-! ## Segments -/

theorem mapSegments_append (a b : List (TaggedLineSegment PlanTag)) :
    mapSegments (a ++ b) = (mapSegments a).append (mapSegments b) := by
  simp only [mapSegments, StreamTextChunk.append, map_append, flatMap_append]

theorem map_pushSegment (segments : List (TaggedLineSegment PlanTag)) {segment} (hne : ¬segment.IsEmptyText) :
    (pushSegment segments segment).map mapSegment = addDelta (segments.map mapSegment) (mapSegment segment) := by
  rcases eq_nil_or_concat segments with rfl | ⟨front, last, rfl⟩
  · cases segment <;> simp_all [pushSegment, addDelta, TaggedLineSegment.IsEmptyText]
  · cases segment <;> cases last <;> simp_all [pushSegment, addDelta, TaggedLineSegment.IsEmptyText, mapSegment]

theorem mergeDeltas_map (h : NoEmptyText segments) :
    mergeDeltas (segments.map mapSegment) = (merge [] segments).map mapSegment := by
  induction segments using List.reverseRecOn with
  | nil => rfl
  | append_singleton segments segment ih =>
    have hfront : NoEmptyText segments := fun other hmem => h other (mem_append_left _ hmem)
    rw [map_append, mergeDeltas, foldl_append, merge_append]
    exact (congrArg (addDelta · (mapSegment segment)) (ih hfront)).trans
      (map_pushSegment _ (h segment (mem_append_right _ (mem_singleton_self _)))).symm

theorem visibleText_mapSegments_merge (segments more : List (TaggedLineSegment PlanTag)) :
    (mapSegments (merge segments more)).visibleText = (mapSegments (segments ++ more)).visibleText := by
  induction more generalizing segments with
  | nil => rw [append_nil]; rfl
  | cons segment more ih =>
    have hpush : (mapSegments (pushSegment segments segment)).visibleText =
        (mapSegments (segments ++ [segment])).visibleText := by
      rcases pushSegment_cases segments segment with ⟨hempty, heq⟩ | ⟨heq, -⟩ | ⟨front, parser, a, b, rfl, rfl, -, heq⟩
      · rw [heq]
        cases segment <;> simp_all [mapSegments, mapSegment, ProposedPlanSegment.visible, TaggedLineSegment.IsEmptyText]
      · rw [heq]
      · rw [heq]
        unfold textSegment
        split <;> simp [mapSegments, mapSegment, ProposedPlanSegment.visible]
    have hrest := ih (pushSegment segments segment)
    rw [mapSegments_append] at hrest
    rw [append_cons, mapSegments_append]
    exact hrest.trans (congrArg (· ++ _) hpush)

/-- The segments of a plan-mode stream: those of the chunks shown, of what is shown at the end, and of the end. -/
def lineSegments (plan : TaggedLineParser PlanTag) (visibles : List Str) (tail : Str) : List (TaggedLineSegment PlanTag) :=
  let last := (plan.parseAll visibles).1.parse tail
  (plan.parseAll visibles).2.flatten ++ (last.2 ++ last.1.finish)

section

variable (plan : TaggedLineParser PlanTag)

theorem noEmptyText_parseAll (visibles : List Str) : NoEmptyText (plan.parseAll visibles).2.flatten := by
  induction visibles generalizing plan with
  | nil => exact forall_mem_nil _
  | cons chunk visibles ih =>
    rw [parseAll, flatten_cons]
    exact forall_mem_append.2 ⟨plan.noEmptyText_parse chunk, ih _⟩

theorem noEmptyText_lineSegments (visibles : List Str) (tail : Str) : NoEmptyText (lineSegments plan visibles tail) :=
  forall_mem_append.2 ⟨noEmptyText_parseAll plan visibles, forall_mem_append.2 ⟨noEmptyText_parse _ _, noEmptyText_finish _⟩⟩

/-- The merged segments depend on the text shown, not on how it was cut. -/
theorem merge_lineSegments (h : visibles.flatten = others.flatten) (tail : Str) :
    merge [] (lineSegments plan visibles tail) = merge [] (lineSegments plan others tail) := by
  obtain ⟨hparser, hmerge⟩ := plan.parseAll_eq visibles
  obtain ⟨hparser', hmerge'⟩ := plan.parseAll_eq others
  rw [← h] at hparser' hmerge'
  unfold lineSegments
  rw [merge_append, hmerge, hparser, merge_append [] (plan.parseAll others).2.flatten, hmerge', hparser']

end

/-! ## The stream -/

namespace AssistantTextStreamParser

theorem concat_pushAll (parser : AssistantTextStreamParser) (chunks : List Str) :
    AssistantTextChunk.concat (parser.pushAll chunks) =
      let pushed := parser.citations.inner.pushAll chunks
      let streamed := (StreamTextChunk.concat pushed.2).append pushed.1.finish
      let mapped := mapSegments (lineSegments parser.plan.parser (pushed.2.map (·.visibleText)) pushed.1.finish.visibleText)
      ⟨if parser.planMode then mapped.visibleText else streamed.visibleText, InlineHiddenTagParser.contents streamed,
        if parser.planMode then mapped.extracted else []⟩ := by
  induction chunks generalizing parser with
  | nil =>
    cases hmode : parser.planMode <;>
      simp [pushAll, finish, parseVisibleText, hmode, AssistantTextChunk.concat, CitationStreamParser.finish, citationChunk,
        InlineHiddenTagParser.pushAll, StreamTextChunk.concat, StreamTextChunk.append, InlineHiddenTagParser.contents,
        lineSegments, parseAll, ProposedPlanParser.pushStr, ProposedPlanParser.finish, mapSegments_append]
  | cons chunk chunks ih =>
    rw [pushAll, AssistantTextChunk.concat_cons, ih (parser.pushStr chunk).1]
    cases hmode : parser.planMode <;>
      simp [pushStr, parseVisibleText, hmode, CitationStreamParser.pushStr, citationChunk, InlineHiddenTagParser.pushAll,
        InlineHiddenTagParser.contents, StreamTextChunk.concat, StreamTextChunk.append, lineSegments, parseAll,
        ProposedPlanParser.pushStr, mapSegments_append]

end AssistantTextStreamParser

theorem citation_start : (({} : CitationStreamParser).inner).Single citationSpec ∧ (({} : CitationStreamParser).inner).Rests :=
  ⟨⟨rfl, by decide, by decide, nofun⟩, rfl⟩

/-- What the citation parser yields depends on the text alone. -/
theorem citation_pushAll (chunks : List Str) :
    (({} : CitationStreamParser).inner.pushAll chunks).1 = (({} : CitationStreamParser).inner.feed chunks.flatten).drain.1 ∧
      StreamTextChunk.concat (({} : CitationStreamParser).inner.pushAll chunks).2 =
        (({} : CitationStreamParser).inner.feed chunks.flatten).drain.2 :=
  citation_start.1.pushAll_eq citation_start.2 chunks

theorem visibleText_concat {X : Type} (chunks : List (StreamTextChunk X)) :
    (StreamTextChunk.concat chunks).visibleText = (chunks.map (·.visibleText)).flatten := by
  induction chunks with
  | nil => rfl
  | cons chunk chunks ih => exact congrArg (chunk.visibleText ++ ·) ih

/-- **The stream yields the same however the text is cut,** in and outside plan mode, up to adjacent texts of the plan segments;
outside plan mode it shows the text without its citations and cites what stood in them. -/
theorem assistant_text_stream (planMode : Bool) (chunks : List Str) :
    (assistantStream planMode chunks).visibleText = (assistantStream planMode [chunks.flatten]).visibleText ∧
    (assistantStream planMode chunks).citations = (assistantStream planMode [chunks.flatten]).citations ∧
    mergeDeltas (assistantStream planMode chunks).planSegments =
      mergeDeltas (assistantStream planMode [chunks.flatten]).planSegments ∧
    InlineHiddenTagParser.Stripped citationOpen citationClose chunks.flatten (assistantStream false chunks).visibleText
      (assistantStream false chunks).citations := by
  have hone : [chunks.flatten].flatten = chunks.flatten := append_nil _
  obtain ⟨hcut, hcutChunks⟩ := citation_pushAll chunks
  obtain ⟨hwhole, hwholeChunks⟩ := citation_pushAll [chunks.flatten]
  rw [hone, ← hcut] at hwhole
  rw [hone, ← hcutChunks] at hwholeChunks
  have hstream : ∀ planMode cut, assistantStream planMode cut = _ :=
    fun planMode => AssistantTextStreamParser.concat_pushAll { planMode }
  have hstripped := (citation_start.1.feed chunks.flatten).streamed_stripped.1 rfl
  rw [InlineHiddenTagParser.streamed, ← hcut, ← hcutChunks] at hstripped
  refine and_assoc.1 (and_assoc.1 ⟨?_, by rw [hstream]; exact hstripped⟩)
  rw [hstream, hstream]
  dsimp only
  rw [hwhole, hwholeChunks]
  cases planMode with
  | false => exact ⟨⟨rfl, rfl⟩, rfl⟩
  | true =>
    have hvisible := congrArg StreamTextChunk.visibleText hwholeChunks
    rw [visibleText_concat, visibleText_concat] at hvisible
    have hmerge := merge_lineSegments ({} : ProposedPlanParser).parser hvisible
      (({} : CitationStreamParser).inner.pushAll chunks).1.finish.visibleText
    refine ⟨⟨?_, rfl⟩, ?_⟩
    · have htext := congrArg (fun segments => (mapSegments segments).visibleText) hmerge
      rw [visibleText_mapSegments_merge, visibleText_mapSegments_merge] at htext
      exact htext.symm
    · have hdeltas := congrArg (List.map mapSegment) hmerge
      rw [← mergeDeltas_map (noEmptyText_lineSegments _ _ _), ← mergeDeltas_map (noEmptyText_lineSegments _ _ _)] at hdeltas
      exact hdeltas.symm

end Owc.Stream
