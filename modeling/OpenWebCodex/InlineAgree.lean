import OpenWebCodex.InlineScan
/-!
# InlineAgree — when server and browser see the same artifacts

Both scanners read the same lines outside code (`liveLines`), and both take a line for a directive that is one after its
white space is trimmed.  White space is not the same to them: U+FEFF only to the browser, U+0085 only to the server.  So
they agree exactly where the directives without the one and those without the other name the same artifacts
(`inline_refs_agree_iff`).
-/
namespace Owc.Inline

open Str Option List
open List Option
open Projection (validCardIdentifier)

def rawLines (markdown : Str) : List Str :=
  (Str.split '\n' markdown).dropLast ++ ((Str.split '\n' markdown).getLast?.toList.filter (fun part => !part.isEmpty))

def bare (line : Str) : Str := line.rdropWhile (· == '\r')

def isCode (line : Str) : Bool := 4 ≤ leadingSpaces line || Str.startsWith line ['\t']

def liveLines : Option Fence → List Str → List Str
  | _, [] => []
  | fence, line :: lines =>
    match fenceMarker (bare line) with
    | some marker => liveLines (closeFence fence marker) lines
    | none => if fence.isSome || isCode (bare line) then liveLines fence lines else bare line :: liveLines fence lines

/-- The reference of a line that is an artifact directive between characters of `space`. -/
def refBy (space : Char → Bool) (line : Str) : Option Str :=
  (((Str.trimBy space line).stripPrefix artifactPrefix).bind (Str.stripSuffix · artifactSuffix)).filter validCardIdentifier

def isSpace (c : Char) : Bool := Str.isWhitespace c || isJsSpace c

/-- The directives of a text: the reference and the white space around it. -/
def mentions (markdown : Str) : List (Str × Str) :=
  (liveLines none (rawLines markdown)).filterMap (fun line =>
    (refBy isSpace line).map (fun ref => (ref, Str.marginsBy isSpace line)))

/-- The references of the directives that have no `c` around them. -/
def refsWithout (c : Char) (markdown : Str) : List Str :=
  ((mentions markdown).filter (fun mention => !mention.2.contains c)).map (·.1)

/-! ## Carriage returns -/

theorem bare_append (line : Str) : ∃ crs, line = bare line ++ crs ∧ ∀ c ∈ crs, c = '\r' := by
  refine ⟨line.rtakeWhile (· == '\r'), (rtakeWhile_append_rdropWhile _ line).symm, ?_⟩
  intro c hc
  simpa using mem_takeWhile_imp (mem_reverse.1 hc)

theorem bare_of_append (h : ∀ c ∈ crs, c = '\r') : bare (line ++ crs) = bare line := by
  unfold bare
  rw [rdropWhile, reverse_append, dropWhile_append_of_pos (by simpa using h)]
  rfl

theorem dropCr_append (line : Str) : ∃ crs, line = dropCr line ++ crs ∧ ∀ c ∈ crs, c = '\r' := by
  unfold dropCr stripSuffix endsWith
  split
  · rename_i h
    obtain ⟨t, rfl⟩ := isSuffixOf_iff_suffix.1 h
    exact ⟨['\r'], by simp, by simp⟩
  · exact ⟨[], by simp, by simp⟩

theorem bare_dropCr (line : Str) : bare (dropCr line) = bare line := by
  obtain ⟨_, h, hcrs⟩ := dropCr_append line
  rw [h, bare_of_append hcrs, ← h]

variable {crs : Str}

/-- What is read at the start of a line does not see the carriage returns at its end. -/
theorem takeWhile_append_crs {p : Char → Bool} (hp : p '\r' = false) (line : Str) (h : ∀ c ∈ crs, c = '\r') :
    (line ++ crs).takeWhile p = line.takeWhile p := by
  induction line with
  | nil =>
    cases crs with
    | nil => rfl
    | cons c => rw [h c mem_cons_self, nil_append, takeWhile_cons_of_neg (by simp [hp])]; rfl
  | cons a line ih =>
    rw [cons_append]
    by_cases ha : p a
    · rw [takeWhile_cons_of_pos ha, takeWhile_cons_of_pos ha, ih]
    · rw [takeWhile_cons_of_neg ha, takeWhile_cons_of_neg ha]

theorem leadingSpaces_append (line : Str) (h : ∀ c ∈ crs, c = '\r') : leadingSpaces (line ++ crs) = leadingSpaces line := by
  unfold leadingSpaces
  rw [takeWhile_append_crs (by decide) line h]

theorem markerLength_eq (c : Char) : ∀ l : Str, (l.findIdx? (· != c)).getD l.length = (l.takeWhile (· == c)).length
  | [] => rfl
  | a :: l => by
    have ih := markerLength_eq c l
    by_cases ha : a = c
    · subst ha
      rw [findIdx?_cons, takeWhile_cons_of_pos (by simp), length_cons, length_cons, ← ih]
      cases l.findIdx? (· != a) <;> simp
    · rw [findIdx?_cons, takeWhile_cons_of_neg (by simpa using ha)]
      simp [ha]

def markerAt (trimmed : Str) : Option Fence :=
  match trimmed.head? with
  | none => none
  | some c =>
    if (c == backtick || c == '~') && 3 ≤ (trimmed.takeWhile (· == c)).length then
      some ⟨c, (trimmed.takeWhile (· == c)).length⟩ else none

theorem fenceMarker_eq (line : Str) :
    fenceMarker line = if 3 < leadingSpaces line then none else markerAt (line.drop (leadingSpaces line)) := by
  unfold fenceMarker markerAt
  by_cases h : 3 < leadingSpaces line
  · rw [if_pos h, if_pos h]
  rw [if_neg h, if_neg h]
  dsimp only
  generalize line.drop (leadingSpaces line) = trimmed
  cases trimmed with
  | nil => rfl
  | cons c =>
    rw [head?_cons]
    dsimp only
    rw [markerLength_eq]
    by_cases hb : c = backtick
    · simp [hb]
    · by_cases ht : c = '~'
      · simp [ht]
      · simp [hb, ht]

theorem markerAt_append (trimmed : Str) (h : ∀ c ∈ crs, c = '\r') : markerAt (trimmed ++ crs) = markerAt trimmed := by
  cases trimmed with
  | nil =>
    cases crs with
    | nil => rfl
    | cons c =>
      rw [h c mem_cons_self]
      rfl
  | cons a =>
    unfold markerAt
    rw [cons_append, head?_cons, head?_cons]
    dsimp only
    by_cases ha : (a == backtick || a == '~')
    · have hcr : ('\r' == a) = false := by
        rcases Bool.or_eq_true_iff.1 ha with h | h <;> rw [eq_of_beq h] <;> decide
      rw [← cons_append, takeWhile_append_crs hcr _ h]
    · rw [Bool.not_eq_true] at ha
      simp [ha]

theorem fenceMarker_append (line : Str) (h : ∀ c ∈ crs, c = '\r') : fenceMarker (line ++ crs) = fenceMarker line := by
  have hle : leadingSpaces line ≤ line.length := ( takeWhile_prefix _).length_le
  rw [fenceMarker_eq, fenceMarker_eq, leadingSpaces_append line h, drop_append_of_le_length hle, markerAt_append _ h]

theorem isCode_append (line : Str) (h : ∀ c ∈ crs, c = '\r') : isCode (line ++ crs) = isCode line := by
  unfold isCode
  rw [leadingSpaces_append line h]
  cases line with
  | cons => simp [startsWith, isPrefixOf]
  | nil =>
    cases crs with
    | nil => rfl
    | cons c =>
      rw [h c mem_cons_self]
      rfl

/-! ## One line on either side -/

theorem scanFence_eq (fence : Option Fence) (line : Str) : scanFence fence line = (fenceMarker line).map (closeFence fence) := by
  rw [fenceMarker_eq]
  unfold scanFence markerAt
  dsimp only
  generalize line.drop (leadingSpaces line) = trimmed
  cases trimmed with
  | nil => simp
  | cons c trimmed =>
    rw [head?_cons]
    by_cases hs : 3 < leadingSpaces line
    · have hle : ¬ leadingSpaces line ≤ 3 := by omega
      simp [hs, hle]
    have hle : leadingSpaces line ≤ 3 := by omega
    by_cases hc : (c == backtick || c == '~')
    · by_cases hl : 3 ≤ ((c :: trimmed).takeWhile (· == c)).length
      · cases fence <;> simp only [hs, hle, hc, hl, closeFence, decide_true, Bool.and_self, if_true, if_false, map_some]
      · simp only [hs, hle, hc, hl, decide_true, decide_false, Bool.and_self, Bool.and_false, if_true, if_false,
          Bool.false_eq_true, map_none]
    · rw [Bool.not_eq_true] at hc
      simp [hs, hle, hc]

theorem utf8Size_of_isReferenceChar (h : isReferenceChar c) : c.utf8Size = 1 := by
  have hle : c.val ≤ 0x7f := by
    simp only [isReferenceChar, Char.isAlphanum, Char.isAlpha, Char.isUpper, Char.isLower, Char.isDigit, Bool.or_eq_true,
      Bool.and_eq_true, decide_eq_true_eq, beq_iff_eq] at h
    rcases h with ((((h | h) | h) | rfl) | rfl) | rfl
    · exact UInt32.le_trans h.2 (by decide)
    · exact UInt32.le_trans h.2 (by decide)
    · exact UInt32.le_trans h.2 (by decide)
    · decide
    · decide
    · decide
  exact Char.utf8Size_eq_one_iff.2 hle

theorem utf8Len_of_reference : ∀ {value}, value.all isReferenceChar → utf8Len value = value.length
  | [], _ => rfl
  | c :: value, h => by
    rw [all_cons, Bool.and_eq_true] at h
    have ih := utf8Len_of_reference h.2
    unfold utf8Len at ih ⊢
    rw [map_cons, sum_cons, ih, utf8Size_of_isReferenceChar h.1, length_cons, Nat.add_comm]

theorem safeReference_eq (value : Str) : safeReference value = validCardIdentifier value := by
  have hvalid : validCardIdentifier value = (!value.isEmpty && value.utf8Len ≤ 128 && value.all isReferenceChar) := rfl
  rw [hvalid, safeReference]
  by_cases h : value.all isReferenceChar
  · rw [h, utf8Len_of_reference h]
    cases value with
    | nil => rfl
    | cons => simp
  · rw [Bool.not_eq_true] at h
    rw [h, Bool.and_false, Bool.and_false]

variable {space : Char → Bool}

theorem refBy_eq_some : refBy space line = some ref ↔
      trimBy space line = artifactPrefix ++ (ref ++ artifactSuffix) ∧ validCardIdentifier ref := by
  unfold refBy
  rw [filter_eq_some_iff, bind_eq_some_iff]
  refine and_congr_left fun _ => ?_
  constructor
  · rintro ⟨rest, hrest, href⟩
    rw [stripPrefix_eq_some.1 hrest, stripSuffix_eq_some.1 href]
  · intro h
    exact ⟨ref ++ artifactSuffix, stripPrefix_eq_some.2 h, stripSuffix_eq_some.2 rfl⟩

theorem ne_nil_of_valid (h : validCardIdentifier ref) : ref ≠ [] := by
  rintro rfl
  cases h

theorem directiveValue_eq (line : Str) : directiveValue (jsTrim line) artifactPrefix safeReference = refBy isJsSpace line := by
  refine ext fun ref => ?_
  rw [refBy_eq_some]
  show directiveValue (trimBy isJsSpace line) artifactPrefix safeReference = some ref ↔ _
  generalize trimBy isJsSpace line = d
  have hslice : ∀ u, (u ++ artifactSuffix).take ((u ++ artifactSuffix).length - 2) = u := by
    intro u
    have htwo : artifactSuffix.length = 2 := by decide
    rw [length_append, htwo, Nat.add_sub_cancel, take_left]
  unfold directiveValue
  dsimp only
  constructor
  · intro h
    by_cases hse : (startsWith d artifactPrefix && endsWith d artifactSuffix)
    · rw [if_pos hse] at h
      rw [Bool.and_eq_true] at hse
      obtain ⟨u, rfl⟩ := isSuffixOf_iff_suffix.1 hse.2
      rw [hslice u] at h
      split at h
      · next hv =>
        rw [some.injEq] at h
        rw [Bool.and_eq_true, safeReference_eq] at hv
        -- the two ends cannot overlap around a reference that is not empty
        have hlen : artifactPrefix.length ≤ u.length := by
          by_contra hlt
          rw [drop_eq_nil_of_le (by omega)] at hv
          simp at hv
        have hpre : artifactPrefix <+: u :=
          prefix_of_prefix_length_le ( isPrefixOf_iff_prefix.1 hse.1) (prefix_append u _) hlen
        obtain ⟨r, rfl⟩ := hpre
        rw [drop_left] at h hv
        subst h
        exact ⟨append_assoc _ _ _, hv.2⟩
      · cases h
    · rw [if_neg hse] at h
      simp at h
  · rintro ⟨rfl, hvalid⟩
    have hse : (startsWith (artifactPrefix ++ (ref ++ artifactSuffix)) artifactPrefix &&
        endsWith (artifactPrefix ++ (ref ++ artifactSuffix)) artifactSuffix) := by
      rw [Bool.and_eq_true, startsWith_append]
      refine ⟨rfl, isSuffixOf_iff_suffix.2 ?_⟩
      rw [← append_assoc]
      exact suffix_append _ _
    rw [if_pos hse, ← append_assoc, hslice, drop_left, safeReference_eq, hvalid]
    have hne := ne_nil_of_valid hvalid
    simp [hne]

theorem refBy_append_crs (hcr : space '\r') (line : Str) (h : ∀ c ∈ crs, c = '\r') :
    refBy space (line ++ crs) = refBy space line := by
  have hspace : ∀ c ∈ crs, space c := fun c hc => by rw [h c hc, hcr]
  have htrim : trimBy space (line ++ crs) = trimBy space line := by
    unfold trimBy
    rw [dropWhile_append]
    split
    · next hl =>
      rw [isEmpty_iff.1 hl, dropWhile_eq_nil_iff.2 hspace]
    · rw [rdropWhile, reverse_append, dropWhile_append_of_pos (by simpa using hspace)]
      rfl
  unfold refBy
  rw [htrim]

theorem trimBy_directive (space : Char → Bool) (hhead : space ':' = false) (hlast : space '}' = false) {l r : Str} (ref : Str)
    (hl : ∀ c ∈ l, space c) (hr : ∀ c ∈ r, space c) :
    trimBy space (l ++ (artifactPrefix ++ (ref ++ artifactSuffix)) ++ r) = artifactPrefix ++ (ref ++ artifactSuffix) ∧
      marginsBy space (l ++ (artifactPrefix ++ (ref ++ artifactSuffix)) ++ r) = l ++ r := by
  have hstart : artifactPrefix.head? = some ':' := by decide
  have hend : artifactSuffix.getLast? = some '}' := by decide
  have hne : artifactSuffix ≠ [] := by decide
  refine trimBy_append hl hr ?_ ?_ ?_
  · exact append_ne_nil_of_left_ne_nil (by decide) _
  · intro c hc
    rw [head?_append, hstart] at hc
    cases hc
    exact hhead
  · intro c hc
    rw [← append_assoc, getLast?_append_of_ne_nil _ hne, hend] at hc
    cases hc
    exact hlast

/-- **A line is a directive to one side** exactly when it is one between white space of either kind, and all of it is
white space to that side. -/
theorem refBy_iff (hsub : ∀ c, space c → isSpace c) : refBy space line = some ref ↔
      refBy isSpace line = some ref ∧ ∀ c ∈ marginsBy isSpace line, space c := by
  have hvisible : ∀ c, isSpace c = false → space c = false := by
    intro c hc
    rw [Bool.eq_false_iff] at hc ⊢
    exact fun hs => hc (hsub c hs)
  rw [refBy_eq_some, refBy_eq_some]
  constructor
  · rintro ⟨hd, hvalid⟩
    have hline := append_trimBy space line
    rw [hd] at hline
    have hl : ∀ c ∈ line.takeWhile space, space c := fun c hc => mem_takeWhile_imp hc
    have hr : ∀ c ∈ (line.dropWhile space).rtakeWhile space, space c :=
      fun c hc => mem_takeWhile_imp (mem_reverse.1 hc)
    obtain ⟨htrim, hmargins⟩ := trimBy_directive isSpace (by decide) (by decide) ref
      (fun c hc => hsub c (hl c hc)) fun c hc => hsub c (hr c hc)
    rw [hline] at htrim hmargins
    refine ⟨⟨htrim, hvalid⟩, ?_⟩
    rw [hmargins, forall_mem_append]
    exact ⟨hl, hr⟩
  · rintro ⟨⟨hd, hvalid⟩, hmargins⟩
    have hline := append_trimBy isSpace line
    rw [hd] at hline
    unfold marginsBy at hmargins
    rw [forall_mem_append] at hmargins
    obtain ⟨htrim, -⟩ := trimBy_directive space (hvisible ':' (by decide)) (hvisible '}' (by decide)) ref hmargins.1 hmargins.2
    rw [hline] at htrim
    exact ⟨htrim, hvalid⟩

/-- The directives of one side are those without the one character that is white space to the other side only. -/
theorem refsWithout_eq (h : ∀ x, space x ↔ isSpace x ∧ x ≠ c) (markdown : Str) :
    refsWithout c markdown = (liveLines none (rawLines markdown)).filterMap (refBy space) := by
  unfold refsWithout mentions
  rw [filter_filterMap, map_filterMap]
  congr 1
  funext line
  refine ext fun ref => ?_
  rw [refBy_iff fun x hx => ((h x).1 hx).1]
  have hmargins : (∀ x ∈ marginsBy isSpace line, space x) ↔ c ∉ marginsBy isSpace line := by
    constructor
    · exact fun hall hc => ((h c).1 (hall c hc)).2 rfl
    · exact fun hc x hx => (h x).2 ⟨of_mem_marginsBy hx, fun he => hc (he ▸ hx)⟩
  rw [hmargins]
  cases refBy isSpace line with
  | none => simp
  | some => simp [and_comm]

/-! ## Whole texts -/

def pushNew (refs : List Str) (value : Str) : List Str := if refs.contains value then refs else refs ++ [value]

theorem foldl_pushNew : ∀ (values refs : List Str),
    values.foldl pushNew refs = refs ++ (values.filter (fun value => !refs.contains value)).eraseDups
  | [], refs => by simp
  | value :: values, refs => by
    rw [foldl_cons, foldl_pushNew values, pushNew]
    split
    · next h =>
      rw [filter_cons_of_neg (by simpa using h)]
    · next h =>
      rw [filter_cons_of_pos (by simpa using h), eraseDups_cons, List.filter_filter, append_assoc, singleton_append]
      congr 4
      funext x
      rw [contains_append, Bool.not_or, Bool.and_comm]
      congr 2
      rw [contains_cons, contains_nil, Bool.or_false]

theorem scanLine_dropCr (s : Scan) (line : Str) : scanLine s (dropCr line) = scanLine s line := by
  have h : (dropCr line).rdropWhile (· == '\r') = line.rdropWhile (· == '\r') := bare_dropCr line
  unfold scanLine
  rw [h]

theorem scanLine_fence (h : fenceMarker (bare line) = some marker) :
    scanLine s line = { s with fence := closeFence s.fence marker } := by
  have hfence : scanFence s.fence (line.rdropWhile (· == '\r')) = some (closeFence s.fence marker) := by
    rw [scanFence_eq]
    exact congrArg (Option.map (closeFence s.fence)) h
  unfold scanLine
  dsimp only
  rw [hfence]

theorem scanLine_text (h : fenceMarker (bare line) = none) :
    scanLine s line = if s.fence.isSome || isCode (bare line) then s
      else { s with refs := (refBy isWhitespace (bare line)).toList.foldl pushNew s.refs } := by
  have hfence : scanFence s.fence (line.rdropWhile (· == '\r')) = none := by
    rw [scanFence_eq]
    exact congrArg (Option.map (closeFence s.fence)) h
  have href : directiveRef (line.rdropWhile (· == '\r')) = refBy isWhitespace (bare line) := rfl
  unfold scanLine
  dsimp only
  rw [hfence, href, Bool.or_assoc]
  refine if_congr Iff.rfl rfl ?_
  cases refBy isWhitespace (bare line) with
  | none => rfl
  | some value =>
    rw [toList_some, foldl_cons, foldl_nil, pushNew]
    dsimp only
    by_cases hc : s.refs.contains value
    · rw [if_pos hc, if_pos hc]
    · rw [if_neg hc, if_neg hc]

/-- **The server collects the directives of the live lines**, each reference once. -/
theorem foldl_scanLine : ∀ lines s,
    (lines.foldl scanLine s).refs = ((liveLines s.fence lines).filterMap (refBy isWhitespace)).foldl pushNew s.refs
  | [], s => rfl
  | line :: lines, s => by
    rw [foldl_cons, foldl_scanLine lines, liveLines]
    cases hm : fenceMarker (bare line) with
    | some => rw [scanLine_fence hm]
    | none =>
      rw [scanLine_text hm]
      by_cases hc : (s.fence.isSome || isCode (bare line))
      · rw [if_pos hc, if_pos hc]
      · rw [if_neg hc, if_neg hc, filterMap_cons]
        cases refBy isWhitespace (bare line) with
        | _ => rfl

theorem inlineArtifactRefs_eq (markdown : Str) :
    inlineArtifactRefs markdown = ((liveLines none (rawLines markdown)).filterMap (refBy isWhitespace)).eraseDups := by
  have hlines : markdown.lines.foldl scanLine ⟨[], none⟩ = (rawLines markdown).foldl scanLine ⟨[], none⟩ := by
    unfold lines rawLines
    rw [foldl_append, foldl_append, foldl_map]
    simp only [scanLine_dropCr]
  rw [inlineArtifactRefs, hlines, foldl_scanLine, foldl_pushNew]
  simp

/-- The browser drops one carriage return where the server drops all; what does not see them is the same. -/
theorem of_dropCr {α : Type} {f : Str → α} (h : ∀ line crs, (∀ c ∈ crs, c = '\r') → f (line ++ crs) = f line)
    (line : Str) : f (dropCr line) = f (bare line) := by
  obtain ⟨crs, hcrs, hall⟩ := bare_append (dropCr line)
  rw [hcrs, h _ crs hall, bare_dropCr]

theorem startsWith_of_refBy (h : refBy isJsSpace line = some ref) : startsWith (jsTrim line) directivePrefix := by
  have hd : jsTrim line = artifactPrefix ++ (ref ++ artifactSuffix) := (refBy_eq_some.1 h).1
  have hpre : artifactPrefix = directivePrefix ++ "artifact=\"".toList := by decide
  rw [hd, hpre, append_assoc]
  exact startsWith_append _ _

theorem walkLine_spec (s : Walk) (source : Str × Bool) :
    (walkLine false s source).fence = ((fenceMarker (bare source.1)).map (closeFence s.fence)).getD s.fence ∧
    (walkLine false s source).segments.filterMap Segment.ref = s.segments.filterMap Segment.ref ++
      (if (fenceMarker (bare source.1)).isSome || s.fence.isSome || isCode (bare source.1) then []
        else (refBy isJsSpace (bare source.1)).toList) := by
  have hmarker : fenceMarker (dropCr source.1) = fenceMarker (bare source.1) :=
    of_dropCr (fun line crs h => fenceMarker_append line h) source.1
  have hcode : isCode (dropCr source.1) = isCode (bare source.1) :=
    of_dropCr (fun line crs h => isCode_append line h) source.1
  have href : refBy isJsSpace (dropCr source.1) = refBy isJsSpace (bare source.1) :=
    of_dropCr (fun line crs h => refBy_append_crs (by decide) line h) source.1
  have hstart : ∀ ref, refBy isJsSpace (bare source.1) = some ref → startsWith (jsTrim (dropCr source.1)) directivePrefix :=
    fun ref h => startsWith_of_refBy (href.trans h)
  unfold isCode at hcode
  unfold walkLine
  dsimp only
  rw [hmarker, hcode, directiveValue_eq, href]
  cases fenceMarker (bare source.1) with
  | some => simp
  | none =>
    rw [map_none, getD_none, isSome_none, Bool.false_or]
    unfold isCode
    cases hf : s.fence with
    | some => simp
    | none =>
      cases hcd : (decide (4 ≤ leadingSpaces (bare source.1)) || startsWith (bare source.1) ['\t']) with
      | true => simp
      | false =>
        generalize endsWith (jsTrim (dropCr source.1)) ['}'] = closed
        generalize directiveValue (jsTrim (dropCr source.1)) filePrefix safeHtmlFile = file
        cases href' : refBy isJsSpace (bare source.1) with
        | some ref =>
          rw [hstart ref href']
          cases s.pending <;> simp [filterMap_cons, Segment.ref]
        | none =>
          generalize startsWith (jsTrim (dropCr source.1)) directivePrefix = starts
          cases starts <;> cases file <;> cases closed <;> cases s.pending <;> simp [Segment.ref]

/-- **The browser shows the directives of the live lines.** -/
theorem foldl_walkLine : ∀ (sources : List (Str × Bool)) (s : Walk),
    (sources.foldl (walkLine false) s).segments.filterMap Segment.ref =
      s.segments.filterMap Segment.ref ++ (liveLines s.fence (sources.map (·.1))).filterMap (refBy isJsSpace)
  | [], s => by simp [liveLines]
  | source :: sources, s => by
    obtain ⟨hfence, hsegments⟩ := walkLine_spec s source
    rw [foldl_cons, foldl_walkLine sources, hfence, hsegments, map_cons, liveLines]
    cases fenceMarker (bare source.1) with
    | some => simp
    | none =>
      rw [map_none, getD_none, isSome_none, Bool.false_or]
      by_cases hc : (s.fence.isSome || isCode (bare source.1))
      · rw [if_pos hc, if_pos hc, append_nil]
      · rw [if_neg hc, if_neg hc, filterMap_cons, append_assoc]
        cases refBy isJsSpace (bare source.1) with
        | _ => rfl

theorem filterMap_ref_filter (segments : List Segment) :
    (segments.filter Segment.isShown).filterMap Segment.ref = segments.filterMap Segment.ref := by
  rw [filterMap_filter]
  congr 1
  funext segment
  cases segment <;> simp [Segment.isShown, Segment.ref]

theorem mem_liveLines : ∀ {lines fence line}, line ∈ liveLines fence lines → ∃ raw ∈ lines, line = bare raw
  | [], _, _, h => by cases h
  | raw :: lines, fence, line, h => by
    rw [liveLines] at h
    have hrest : ∀ {fence}, line ∈ liveLines fence lines → ∃ r ∈ raw :: lines, line = bare r := fun h => by
      obtain ⟨r, hr, he⟩ := mem_liveLines h
      exact ⟨r, mem_cons_of_mem _ hr, he⟩
    split at h
    · exact hrest h
    split at h
    · exact hrest h
    · rcases mem_cons.1 h with h | h
      · exact ⟨raw, mem_cons_self, h⟩
      · exact hrest h

/-- A text with a directive holds its beginning, so the browser does not skip it. -/
theorem contains_of_mem_refs (h : ref ∈ (liveLines none (rawLines markdown)).filterMap (refBy isJsSpace)) :
    containsStr markdown directivePrefix := by
  obtain ⟨_, hline, href⟩ := mem_filterMap.1 h
  obtain ⟨raw, hraw, rfl⟩ := mem_liveLines hline
  have hmem : raw ∈ split '\n' markdown := by
    rcases mem_append.1 hraw with h | h
    · exact mem_of_mem_dropLast h
    · exact mem_of_getLast? (mem_toList.1 (mem_filter.1 h).1)
  have hstart := isPrefixOf_iff_prefix.1 (startsWith_of_refBy href)
  have htrim : jsTrim (bare raw) <:+: bare raw :=
    ( rdropWhile_prefix _ _).isInfix.trans (dropWhile_suffix _).isInfix
  rw [containsStr_iff]
  exact hstart.isInfix.trans (htrim.trans (( rdropWhile_prefix _ raw).isInfix.trans (infix_of_mem_split hmem)))

theorem browserRefs_eq (markdown : Str) :
    browserRefs markdown = (liveLines none (rawLines markdown)).filterMap (refBy isJsSpace) := by
  have hsources : (jsLines markdown).map (·.1) = rawLines markdown := by
    unfold jsLines rawLines
    simp [Function.comp_def]
  unfold browserRefs segmentInlineVisualizations
  by_cases hc : containsStr markdown directivePrefix
  · rw [hc]
    rw [if_neg (by decide), filterMap_ref_filter]
    have hfold := foldl_walkLine (jsLines markdown) ⟨[], none, []⟩
    rw [hsources] at hfold
    rw [filterMap_nil, nil_append] at hfold
    split
    · exact hfold
    · rw [filterMap_append, hfold]
      simp [Segment.ref]
  · have hnil : (liveLines none (rawLines markdown)).filterMap (refBy isJsSpace) = [] := by
      rw [eq_nil_iff_forall_not_mem]
      exact fun ref h => hc (contains_of_mem_refs h)
    rw [Bool.not_eq_true] at hc
    rw [hc, hnil, Bool.not_false, if_pos rfl]
    cases markdown <;> rfl

theorem eq_iff_toNat {x} (c : Char) : x = c ↔ x.toNat = c.toNat :=
  ⟨fun h => by rw [h], fun h => Char.toNat_inj.1 h⟩

theorem isSpace_spec (x : Char) :
    (isJsSpace x ↔ isSpace x ∧ x ≠ '\u0085') ∧ (isWhitespace x ↔ isSpace x ∧ x ≠ '\uFEFF') := by
  have hnext : ('\u0085' : Char).toNat = 0x85 := rfl
  have hmark : ('\uFEFF' : Char).toNat = 0xFEFF := rfl
  rw [ne_eq, ne_eq, eq_iff_toNat, eq_iff_toNat, hnext, hmark]
  simp only [isSpace, isWhitespace, isJsSpace, Bool.or_eq_true, Bool.and_eq_true, decide_eq_true_eq, beq_iff_eq]
  constructor <;> omega

/-- **Server and browser agree on the artifacts of a text** exactly when the directives without U+FEFF around them and
those without U+0085 around them name the same artifacts, in the order of their first mention. -/
theorem inline_refs_agree_iff (markdown : Str) : (browserRefs markdown).eraseDups = inlineArtifactRefs markdown ↔
      (refsWithout '\u0085' markdown).eraseDups = (refsWithout '\uFEFF' markdown).eraseDups := by
  rw [browserRefs_eq, inlineArtifactRefs_eq, refsWithout_eq (isSpace_spec · |>.1), refsWithout_eq (isSpace_spec · |>.2)]

/-- A byte order mark before a directive: the browser places an artifact that the server does not resolve. -/
theorem byte_order_mark_disagrees : (browserRefs ('\uFEFF' :: artifactPrefix ++ ['m'] ++ artifactSuffix)).eraseDups ≠
      inlineArtifactRefs ('\uFEFF' :: artifactPrefix ++ ['m'] ++ artifactSuffix) := by
  decide +kernel

end Owc.Inline
