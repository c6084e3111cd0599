import OpenWebCodex.Search
import OpenWebCodex.Text
/-!
# HiddenTag — inline tags hidden from streamed text

The parser keeps back what may still become a tag, shows the text outside tags and extracts the text inside.  With one tag, how
the text is cut into chunks makes no difference (`pushLoop_append`).
-/
namespace Owc.Stream

open List Option
open Search

structure StreamTextChunk (X : Type) where
  visibleText : Str := []
  extracted : List X := []

def StreamTextChunk.append {X : Type} (a b : StreamTextChunk X) : StreamTextChunk X :=
  ⟨a.visibleText ++ b.visibleText, a.extracted ++ b.extracted⟩

theorem StreamTextChunk.append_assoc {X : Type} (a b c : StreamTextChunk X) :
    (a.append b).append c = a.append (b.append c) := by
  simp only [StreamTextChunk.append, List.append_assoc]

theorem StreamTextChunk.eq_of_append_eq {X : Type} {a b : StreamTextChunk X} (h : a.append b = a) : b = {} := by
  obtain ⟨_, _⟩ := a
  obtain ⟨_, _⟩ := b
  simp only [StreamTextChunk.append, StreamTextChunk.mk.injEq, append_right_eq_self] at h
  obtain ⟨rfl, rfl⟩ := h
  rfl

def StreamTextChunk.concat {X : Type} (chunks : List (StreamTextChunk X)) : StreamTextChunk X :=
  chunks.foldr StreamTextChunk.append {}

structure ExtractedInlineTag (T : Type) where
  tag : T
  content : Str

structure InlineTagSpec (T : Type) where
  tag : T
  openTag : Str
  closeTag : Str

structure ActiveTag (T : Type) where
  tag : T
  closeTag : Str
  content : Str

structure InlineHiddenTagParser (T : Type) where
  specs : List (InlineTagSpec T)
  pending : Str := []
  active : Option (ActiveTag T) := none

variable {T : Type}

structure Candidate where
  pos : Nat
  len : Nat
  idx : Nat

/-- Earlier in the text, then the longer tag, then the earlier tag. -/
def Candidate.before (a b : Candidate) : Bool :=
  decide (a.pos < b.pos ∨ a.pos = b.pos ∧ (b.len < a.len ∨ b.len = a.len ∧ a.idx < b.idx))

namespace InlineHiddenTagParser

def findNextOpen (parser : InlineHiddenTagParser T) : Option (Nat × Nat) :=
  let candidates := parser.specs.zipIdx.filterMap (fun spec =>
    (find spec.1.openTag parser.pending).map (fun pos => (⟨pos, Str.utf8Len spec.1.openTag, spec.2⟩ : Candidate)))
  let least := candidates.foldl (fun best candidate => match best with
    | none => some candidate
    | some kept => if candidate.before kept then some candidate else some kept) none
  least.map (fun candidate => (candidate.pos, candidate.idx))

def maxOpenPrefixSuffixLen (parser : InlineHiddenTagParser T) : Nat :=
  (parser.specs.map (fun spec => longestSuffixPrefixLen parser.pending spec.openTag)).foldl max 0

inductive Turn (T : Type)
  | again (parser : InlineHiddenTagParser T) (visible : Str) (extracted : Option (ExtractedInlineTag T))
  | done (parser : InlineHiddenTagParser T) (visible : Str)

def turn (parser : InlineHiddenTagParser T) : Turn T :=
  match parser.active with
  | some active =>
    match find active.closeTag parser.pending with
    | some closeIdx =>
      .again { parser with pending := parser.pending.drop (closeIdx + active.closeTag.length), active := none } []
        (some ⟨active.tag, active.content ++ parser.pending.take closeIdx⟩)
    | none =>
      let take := parser.pending.length - longestSuffixPrefixLen parser.pending active.closeTag
      .done { parser with
        pending := parser.pending.drop take
        active := some { active with content := active.content ++ parser.pending.take take } } []
  | none =>
    match parser.findNextOpen with
    | some (openIdx, specIdx) =>
      match parser.specs[specIdx]? with
      | some spec =>
        .again { parser with
          pending := parser.pending.drop (openIdx + spec.openTag.length)
          active := some ⟨spec.tag, spec.closeTag, []⟩ } (parser.pending.take openIdx) none
      | none => .done parser []
    | none =>
      let take := parser.pending.length - parser.maxOpenPrefixSuffixLen
      .done { parser with pending := parser.pending.drop take } (parser.pending.take take)

@[local grind =] def pushLoop : Nat → InlineHiddenTagParser T → InlineHiddenTagParser T × StreamTextChunk (ExtractedInlineTag T)
  | 0, parser => (parser, {})
  | fuel + 1, parser =>
    match parser.turn with
    | .again next visible extracted =>
      let rest := pushLoop fuel next
      (rest.1, ⟨visible ++ rest.2.visibleText, extracted.toList ++ rest.2.extracted⟩)
    | .done next visible => (next, ⟨visible, []⟩)

/-- Every turn but the last takes a tag from what is pending. -/
def pushStr (parser : InlineHiddenTagParser T) (chunk : Str) :
    InlineHiddenTagParser T × StreamTextChunk (ExtractedInlineTag T) :=
  pushLoop ((parser.pending ++ chunk).length + 1) { parser with pending := parser.pending ++ chunk }

def finish (parser : InlineHiddenTagParser T) : StreamTextChunk (ExtractedInlineTag T) :=
  match parser.active with
  | some active => ⟨[], [⟨active.tag, active.content ++ parser.pending⟩]⟩
  | none => ⟨parser.pending, []⟩

def pushAll (parser : InlineHiddenTagParser T) :
    List Str → InlineHiddenTagParser T × List (StreamTextChunk (ExtractedInlineTag T))
  | [] => (parser, [])
  | chunk :: chunks =>
    let pushed := parser.pushStr chunk
    let rest := pushed.1.pushAll chunks
    (rest.1, pushed.2 :: rest.2)

/-! ## One tag -/

structure Single (spec : InlineTagSpec T) (parser : InlineHiddenTagParser T) : Prop where
  specs : parser.specs = [spec]
  openTag_ne_nil : spec.openTag ≠ []
  closeTag_ne_nil : spec.closeTag ≠ []
  active : ∀ active, parser.active = some active → active.tag = spec.tag ∧ active.closeTag = spec.closeTag

def feed (parser : InlineHiddenTagParser T) (more : Str) : InlineHiddenTagParser T :=
  { parser with pending := parser.pending ++ more }

def Turn.prepend (visible : Str) : Turn T → Turn T
  | .again next shown extracted => .again next (visible ++ shown) extracted
  | .done next shown => .done next (visible ++ shown)

section Single

variable {spec : InlineTagSpec T} {parser : InlineHiddenTagParser T}

section

variable (h : parser.Single spec)
include h

theorem Single.findNextOpen_eq : parser.findNextOpen = (find spec.openTag parser.pending).map (fun pos => (pos, 0)) := by
  unfold findNextOpen
  rw [h.specs]
  cases hfind : find spec.openTag parser.pending <;> simp [hfind]

theorem Single.maxOpenPrefixSuffixLen_eq :
    parser.maxOpenPrefixSuffixLen = longestSuffixPrefixLen parser.pending spec.openTag := by
  unfold maxOpenPrefixSuffixLen
  rw [h.specs]
  simp

theorem Single.feed (more : Str) : (parser.feed more).Single spec := { h with }

theorem Single.turn_eq : parser.turn = match parser.active with
      | some active =>
        match find spec.closeTag parser.pending with
        | some closeIdx =>
          .again { parser with pending := parser.pending.drop (closeIdx + spec.closeTag.length), active := none } []
            (some ⟨spec.tag, active.content ++ parser.pending.take closeIdx⟩)
        | none =>
          .done { parser with
            pending := held spec.closeTag parser.pending
            active := some ⟨spec.tag, spec.closeTag, active.content ++ shown spec.closeTag parser.pending⟩ } []
      | none =>
        match find spec.openTag parser.pending with
        | some openIdx =>
          .again { parser with
            pending := parser.pending.drop (openIdx + spec.openTag.length)
            active := some ⟨spec.tag, spec.closeTag, []⟩ } (parser.pending.take openIdx) none
        | none =>
          .done { parser with pending := held spec.openTag parser.pending } (shown spec.openTag parser.pending) := by
  unfold turn
  cases hactive : parser.active with
  | some active =>
    obtain ⟨htag, hclose⟩ := h.active active hactive
    dsimp only
    rw [hclose, htag]
    rfl
  | none =>
    rw [h.findNextOpen_eq, h.maxOpenPrefixSuffixLen_eq, h.specs]
    cases find spec.openTag parser.pending <;> rfl

end

variable {next : InlineHiddenTagParser T} {extracted : Option (ExtractedInlineTag T)} {visible : Str}

section

variable (h : parser.Single spec)
include h

/-- **A turn that takes a tag takes the same tag when more text is pending.** -/
theorem Single.turn_again (hturn : parser.turn = .again next visible extracted) :
    next.Single spec ∧ next.pending.length < parser.pending.length ∧
      ∀ more, (parser.feed more).turn = .again (next.feed more) visible extracted := by
  rw [h.turn_eq] at hturn
  cases hactive : parser.active with
  | some active =>
    rw [hactive] at hturn
    cases hfind : find spec.closeTag parser.pending with
    | none => simp [hfind] at hturn
    | some closeIdx =>
      simp only [hfind, Turn.again.injEq] at hturn
      obtain ⟨rfl, rfl, rfl⟩ := hturn
      have hle := (find_eq_some_iff.1 hfind).1.length_le
      have hpos := length_pos_iff.2 h.closeTag_ne_nil
      refine ⟨{ h with active := fun _ ha => by cases ha }, by rw [length_drop]; omega, fun more => ?_⟩
      rw [(h.feed more).turn_eq]
      simp only [InlineHiddenTagParser.feed, hactive, find_append_of_some hfind more]
      rw [drop_append_of_le_length hle, take_append_of_le_length (by omega)]
  | none =>
    rw [hactive] at hturn
    cases hfind : find spec.openTag parser.pending with
    | none => simp [hfind] at hturn
    | some openIdx =>
      simp only [hfind, Turn.again.injEq] at hturn
      obtain ⟨rfl, rfl, rfl⟩ := hturn
      have hle := (find_eq_some_iff.1 hfind).1.length_le
      have hpos := length_pos_iff.2 h.openTag_ne_nil
      refine ⟨{ h with active := fun _ hactive => ?_ }, by rw [length_drop]; omega, fun more => ?_⟩
      · cases hactive
        exact ⟨rfl, rfl⟩
      rw [(h.feed more).turn_eq]
      simp only [InlineHiddenTagParser.feed, hactive, find_append_of_some hfind more]
      rw [drop_append_of_le_length hle, take_append_of_le_length (by omega)]

/-- **A turn that finds no tag shows what cannot be part of one,** and what it keeps decides the next turn. -/
theorem Single.turn_done (hturn : parser.turn = .done next visible) :
    next.Single spec ∧ ∀ more, (parser.feed more).turn = (next.feed more).turn.prepend visible := by
  rw [h.turn_eq] at hturn
  cases hactive : parser.active with
  | some active =>
    rw [hactive] at hturn
    cases hfind : find spec.closeTag parser.pending with
    | some => simp [hfind] at hturn
    | none =>
      simp only [hfind, Turn.done.injEq] at hturn
      obtain ⟨rfl, rfl⟩ := hturn
      have hnext : ({ parser with
          pending := held spec.closeTag parser.pending
          active := some ⟨spec.tag, spec.closeTag, active.content ++ shown spec.closeTag parser.pending⟩ } :
          InlineHiddenTagParser T).Single spec := { h with active := fun _ ha => by cases ha; exact ⟨rfl, rfl⟩ }
      refine ⟨hnext, fun more => ?_⟩
      rw [(h.feed more).turn_eq, (hnext.feed more).turn_eq]
      simp only [InlineHiddenTagParser.feed, hactive, find_append_of_none hfind more]
      cases hmore : find spec.closeTag (held spec.closeTag parser.pending ++ more) with
      | some =>
        simp only [map_some, Turn.prepend, List.append_assoc, Nat.add_assoc, nil_append]
        rw [take_append_shown, drop_append_shown]
      | none =>
        simp only [map_none, Turn.prepend, List.append_assoc, nil_append]
        rw [held_append h.closeTag_ne_nil, shown_append h.closeTag_ne_nil]
  | none =>
    rw [hactive] at hturn
    cases hfind : find spec.openTag parser.pending with
    | some => simp [hfind] at hturn
    | none =>
      simp only [hfind, Turn.done.injEq] at hturn
      obtain ⟨rfl, rfl⟩ := hturn
      have hnext : ({ parser with pending := held spec.openTag parser.pending } :
          InlineHiddenTagParser T).Single spec := { h with }
      rw [← hactive]
      refine ⟨hnext, fun more => ?_⟩
      rw [(h.feed more).turn_eq, (hnext.feed more).turn_eq]
      simp only [InlineHiddenTagParser.feed, hactive, find_append_of_none hfind more]
      cases hmore : find spec.openTag (held spec.openTag parser.pending ++ more) with
      | some =>
        simp only [map_some, Turn.prepend, Nat.add_assoc]
        rw [take_append_shown, drop_append_shown]
      | none =>
        simp only [map_none, Turn.prepend]
        rw [held_append h.openTag_ne_nil, shown_append h.openTag_ne_nil]

/-! ## All turns -/

def drain (parser : InlineHiddenTagParser T) : InlineHiddenTagParser T × StreamTextChunk (ExtractedInlineTag T) :=
  pushLoop (parser.pending.length + 1) parser

theorem Single.pushLoop_fuel (hfuel : parser.pending.length < fuel)
    (hother : parser.pending.length < other) : pushLoop fuel parser = pushLoop other parser := by
  induction fuel generalizing parser other with
  | zero => omega
  | succ fuel ih =>
    obtain ⟨other, rfl⟩ : ∃ n, other = n + 1 := ⟨other - 1, by omega⟩
    rw [pushLoop, pushLoop]
    cases hturn : parser.turn with
    | done => rfl
    | again next visible extracted =>
      obtain ⟨hnext, hlt, -⟩ := h.turn_again hturn
      dsimp only
      rw [ih hnext (by omega) (by omega : next.pending.length < other)]

theorem Single.drain_again (hturn : parser.turn = .again next visible extracted) :
    parser.drain = (next.drain.1, StreamTextChunk.append ⟨visible, extracted.toList⟩ next.drain.2) := by
  obtain ⟨hnext, hlt, -⟩ := h.turn_again hturn
  rw [drain, pushLoop, hturn]
  dsimp only
  rw [hnext.pushLoop_fuel hlt (Nat.lt_succ_self _)]
  rfl

end

theorem drain_done (hturn : parser.turn = .done next visible) : parser.drain = (next, ⟨visible, []⟩) := by
  rw [drain, pushLoop, hturn]

theorem Single.drain_single (h : parser.Single spec) : parser.drain.1.Single spec := by
  induction hk : parser.pending.length using Nat.strong_induction_on generalizing parser with
  | _ k ih =>
    cases hturn : parser.turn with
    | done =>
      rw [drain_done hturn]
      exact (h.turn_done hturn).1
    | again =>
      obtain ⟨hnext, hlt, -⟩ := h.turn_again hturn
      rw [h.drain_again hturn]
      exact ih _ (hk ▸ hlt) hnext rfl

/-- **Draining in two steps:** what is kept from the first text decides what the second adds. -/
theorem Single.drain_feed (h : parser.Single spec) (more : Str) : (parser.feed more).drain =
      ((parser.drain.1.feed more).drain.1, parser.drain.2.append (parser.drain.1.feed more).drain.2) := by
  induction hk : parser.pending.length using Nat.strong_induction_on generalizing parser with
  | _ k ih =>
    cases hturn : parser.turn with
    | again =>
      obtain ⟨hnext, hlt, hmore⟩ := h.turn_again hturn
      rw [h.drain_again hturn, (h.feed more).drain_again (hmore more), ih _ (hk ▸ hlt) hnext rfl]
      simp only [StreamTextChunk.append, List.append_assoc]
    | done next visible =>
      obtain ⟨hnext, hmore⟩ := h.turn_done hturn
      rw [drain_done hturn]
      -- the turn of the longer text is the turn of what was kept, with the text shown before it
      cases hthen : (next.feed more).turn with
      | again last shown extracted =>
        have hwhole : (parser.feed more).turn = .again last (visible ++ shown) extracted := by
          rw [hmore, hthen, Turn.prepend]
        rw [(h.feed more).drain_again hwhole, (hnext.feed more).drain_again hthen]
        simp only [StreamTextChunk.append, List.append_assoc, nil_append]
      | done last shown =>
        have hwhole : (parser.feed more).turn = .done last (visible ++ shown) := by
          rw [hmore, hthen, Turn.prepend]
        rw [drain_done hwhole, drain_done hthen]
        rfl

theorem feed_nil : parser.feed [] = parser := by
  simp only [InlineHiddenTagParser.feed, append_nil]

theorem feed_feed (a b : Str) : (parser.feed a).feed b = parser.feed (a ++ b) := by
  simp only [InlineHiddenTagParser.feed, List.append_assoc]

def Rests (parser : InlineHiddenTagParser T) : Prop := parser.drain = (parser, {})

theorem Single.drain_rests (h : parser.Single spec) : parser.drain.1.Rests := by
  have htwice := h.drain_feed []
  rw [feed_nil, feed_nil] at htwice
  have hparser : parser.drain.1.drain.1 = parser.drain.1 := (congrArg Prod.fst htwice).symm
  have hchunk : parser.drain.2.append parser.drain.1.drain.2 = parser.drain.2 := (congrArg Prod.snd htwice).symm
  exact Prod.ext hparser (StreamTextChunk.eq_of_append_eq hchunk)

/-- **However the text is cut, the chunks hold what one push of all of it holds.** -/
theorem Single.pushAll_eq (h : parser.Single spec) (hrests : parser.Rests) (chunks : List Str) :
    (parser.pushAll chunks).1 = (parser.feed chunks.flatten).drain.1 ∧
      StreamTextChunk.concat (parser.pushAll chunks).2 = (parser.feed chunks.flatten).drain.2 := by
  induction chunks generalizing parser with
  | nil =>
    rw [flatten_nil, feed_nil, hrests]
    exact ⟨rfl, rfl⟩
  | cons chunk chunks ih =>
    have hchunk := h.feed chunk
    obtain ⟨hparser, hchunks⟩ := ih hchunk.drain_single hchunk.drain_rests
    rw [flatten_cons, ← feed_feed, hchunk.drain_feed, pushAll]
    exact ⟨hparser, congrArg ((parser.feed chunk).drain.2.append ·) hchunks⟩

/-! ## What is shown -/

/-- The text up to the first place where the needle stands, and the text after it. -/
def First (needle text before after : Str) : Prop :=
  text = before ++ needle ++ after ∧ ∀ j < before.length, ¬At needle text j

/-- **A text without its tags, and what stood in them:** the first tag ends at the first closing text, or with the text. -/
inductive Stripped (openTag closeTag : Str) : Str → Str → List Str → Prop
  | clean {text : Str} (hnone : ∀ i, ¬At openTag text i) : Stripped openTag closeTag text text []
  | unterminated {text before inside : Str} (hfirst : First openTag text before inside)
      (hnone : ∀ i, ¬At closeTag inside i) : Stripped openTag closeTag text before [inside]
  | region {text before rest inside after visible : Str} {contents : List Str} (hfirst : First openTag text before rest)
      (hclose : First closeTag rest inside after) (hafter : Stripped openTag closeTag after visible contents) :
      Stripped openTag closeTag text (before ++ visible) (inside :: contents)

theorem first_of_find {needle text : Str} {i : Nat} (h : find needle text = some i) :
    First needle text (text.take i) (text.drop (i + needle.length)) := by
  obtain ⟨hat, hfirst⟩ := find_eq_some_iff.1 h
  refine ⟨hat.eq, fun j hj => hfirst j ?_⟩
  rw [length_take] at hj
  omega

def streamed (parser : InlineHiddenTagParser T) : StreamTextChunk (ExtractedInlineTag T) :=
  parser.drain.2.append parser.drain.1.finish

def contents (chunk : StreamTextChunk (ExtractedInlineTag T)) : List Str := chunk.extracted.map (·.content)

theorem Single.streamed_again (h : parser.Single spec) (hturn : parser.turn = .again next visible extracted) :
    parser.streamed = StreamTextChunk.append ⟨visible, extracted.toList⟩ next.streamed := by
  rw [streamed, h.drain_again hturn, StreamTextChunk.append_assoc]
  rfl

def Closes (openTag closeTag content text visible : Str) (inner : List Str) : Prop :=
  (∀ i, ¬At closeTag text i) ∧ visible = [] ∧ inner = [content ++ text] ∨
    ∃ inside after rest, First closeTag text inside after ∧ Stripped openTag closeTag after visible rest ∧
      inner = (content ++ inside) :: rest

/-- **The stream shows the text without its tags and extracts what stood in them.** -/
theorem Single.streamed_stripped (h : parser.Single spec) : (parser.active = none →
      Stripped spec.openTag spec.closeTag parser.pending parser.streamed.visibleText (contents parser.streamed)) ∧
    ∀ active, parser.active = some active →
      Closes spec.openTag spec.closeTag active.content parser.pending parser.streamed.visibleText
        (contents parser.streamed) := by
  induction hk : parser.pending.length using Nat.strong_induction_on generalizing parser with
  | _ k ih =>
    constructor
    · intro hactive
      have hturn := h.turn_eq
      rw [hactive] at hturn
      cases hfind : find spec.openTag parser.pending with
      | none =>
        simp only [hfind] at hturn
        rw [streamed, drain_done hturn]
        simp only [finish, StreamTextChunk.append, contents, shown_append_held, append_nil, map_nil]
        exact .clean (find_eq_none_iff.1 hfind)
      | some =>
        simp only [hfind] at hturn
        obtain ⟨hnext, hlt, -⟩ := h.turn_again hturn
        rw [h.streamed_again hturn]
        have hfirst := first_of_find hfind
        rcases (ih _ (hk ▸ hlt) hnext rfl).2 _ rfl with ⟨hnone, hvisible, hinner⟩ | ⟨inside, after, rest, hclose, hafter, hinner⟩
        · simp only [contents] at hinner
          simp only [contents, StreamTextChunk.append, hvisible, append_nil, toList_none, nil_append, hinner]
          exact .unterminated hfirst hnone
        · simp only [contents] at hinner
          simp only [contents, StreamTextChunk.append, toList_none, nil_append, hinner]
          exact .region hfirst hclose hafter
    · intro active hactive
      have hturn := h.turn_eq
      rw [hactive] at hturn
      cases hfind : find spec.closeTag parser.pending with
      | none =>
        simp only [hfind] at hturn
        refine .inl ⟨find_eq_none_iff.1 hfind, ?_, ?_⟩
        · rw [streamed, drain_done hturn]
          rfl
        · rw [streamed, drain_done hturn]
          simp only [finish, StreamTextChunk.append, contents, nil_append, map_cons, map_nil,
            List.append_assoc, shown_append_held]
      | some =>
        simp only [hfind] at hturn
        obtain ⟨hnext, hlt, -⟩ := h.turn_again hturn
        rw [h.streamed_again hturn]
        exact .inr ⟨_, _, _, first_of_find hfind, (ih _ (hk ▸ hlt) hnext rfl).1 rfl, rfl⟩

/-- **One tag of any spelling, over any chunks:** the text is shown without its tags, and what they enclose is extracted. -/
theorem stream_stripped (hopen : spec.openTag ≠ []) (hclose : spec.closeTag ≠ []) (chunks : List Str) :
    let pushed := pushAll { specs := [spec] } chunks
    let all := (StreamTextChunk.concat pushed.2).append pushed.1.finish
    Stripped spec.openTag spec.closeTag chunks.flatten all.visibleText (contents all) := by
  have h : Single spec { specs := [spec] } := ⟨rfl, hopen, hclose, nofun⟩
  have hrests : Rests { specs := [spec] } := by
    refine drain_done (h.turn_eq.trans ?_)
    simp [find, held, shown, hopen]
  obtain ⟨hparser, hchunk⟩ := h.pushAll_eq hrests chunks
  have hstripped := (h.feed chunks.flatten).streamed_stripped.1 rfl
  rwa [streamed, ← hparser, ← hchunk] at hstripped

theorem stream_stripped_sample : Stripped ['<'] ['>'] "a<b".toList ['a'] [['b']] :=
  @stream_stripped Unit ⟨(), ['<'], ['>']⟩ nofun nofun [['a', '<'], ['b']]

end Single

end InlineHiddenTagParser
end Owc.Stream
