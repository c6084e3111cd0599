import OpenWebCodex.Text
/-!
# Truncation — the middle of a text, and a list of output items, cut to a budget

`split_string` walks a text once and decides for both ends; the loop over the items of a tool's output spends one budget.
-/
namespace Owc.Truncation

open List Str

/-! ## `split_string` -/

structure SplitState where
  idx : Nat
  prefixEnd : Nat
  suffixStart : Nat
  removedChars : Nat
  suffixStarted : Bool

def splitStep (beginningBytes tailStartTarget : Nat) (st : SplitState) (ch : Char) : SplitState :=
  let charEnd := st.idx + ch.utf8Size
  if charEnd ≤ beginningBytes then { st with idx := charEnd, prefixEnd := charEnd }
  else if tailStartTarget ≤ st.idx then
    if st.suffixStarted then { st with idx := charEnd }
    else { st with idx := charEnd, suffixStart := st.idx, suffixStarted := true }
  else { st with idx := charEnd, removedChars := st.removedChars + 1 }

/-- `&s[..offset]` and `&s[offset..]`, for an offset between two characters. -/
def splitAtByte : Nat → Str → Str × Str
  | 0, s => ([], s)
  | _, [] => ([], [])
  | offset, c :: s => (splitAtByte (offset - c.utf8Size) s).map (c :: ·) id

def splitString (s : Str) (beginningBytes endBytes : Nat) : Nat × Str × Str :=
  let st := s.foldl (splitStep beginningBytes (utf8Len s - endBytes)) ⟨0, 0, utf8Len s, 0, false⟩
  let suffixStart := if st.suffixStart < st.prefixEnd then st.prefixEnd else st.suffixStart
  (st.removedChars, (splitAtByte st.prefixEnd s).1, (splitAtByte suffixStart s).2)

@[simp] theorem utf8Len_nil : utf8Len [] = 0 := rfl

@[simp] theorem utf8Len_cons (c : Char) (s : Str) : utf8Len (c :: s) = c.utf8Size + utf8Len s := by
  simp [utf8Len]

@[simp] theorem utf8Len_append (s t : Str) : utf8Len (s ++ t) = utf8Len s + utf8Len t := by
  simp [utf8Len]

theorem splitAtByte_append : ∀ s t : Str, splitAtByte (utf8Len s) (s ++ t) = (s, t)
  | [], t => by simp [splitAtByte]
  | c :: s, t => by
    have hc := c.utf8Size_pos
    obtain ⟨n, hn⟩ : ∃ n, utf8Len (c :: s) = n + 1 := ⟨utf8Len (c :: s) - 1, by simp; omega⟩
    rw [hn, cons_append, splitAtByte, ← hn, utf8Len_cons, Nat.add_sub_cancel_left, splitAtByte_append s t]
    · rfl
    · nofun

/-- Where the walk stands behind `left ++ mid ++ right`. -/
structure Split (beginningBytes target len : Nat) (st : SplitState) (left mid right : Str) : Prop where
  state : st = ⟨utf8Len (left ++ mid ++ right), utf8Len left, if right = [] then len else utf8Len (left ++ mid), mid.length,
    !right.isEmpty⟩
  fits : utf8Len left ≤ beginningBytes
  full : ∀ c ∈ (mid ++ right).head?, beginningBytes < utf8Len left + c.utf8Size
  before : ∀ c ∈ mid.getLast?, utf8Len (left ++ mid) < target + c.utf8Size
  after : right ≠ [] → target ≤ utf8Len (left ++ mid)

theorem Split.step (h : Split beginningBytes target len st left mid right) (ch : Char) :
    ∃ left' mid' right', left' ++ mid' ++ right' = left ++ mid ++ right ++ [ch] ∧
      Split beginningBytes target len (splitStep beginningBytes target st ch) left' mid' right' := by
  obtain ⟨rfl, hfits, hfull, hbefore, hafter⟩ := h
  have hpos := ch.utf8Size_pos
  unfold splitStep
  dsimp only
  by_cases hend : utf8Len (left ++ mid ++ right) + ch.utf8Size ≤ beginningBytes
  · -- the character still fits, so nothing was left out before it
    rw [if_pos hend]
    have hnil : mid ++ right = [] := by
      by_contra hne
      obtain ⟨c, rest, hrest⟩ := exists_cons_of_ne_nil hne
      have hc := hfull c (by simp [hrest])
      rw [append_assoc, hrest] at hend
      simp at hend
      omega
    obtain ⟨rfl, rfl⟩ := append_eq_nil_iff.1 hnil
    exact ⟨left ++ [ch], [], [], by simp, by simp, by simpa using hend, by simp, by simp, by simp⟩
  rw [if_neg hend]
  have hfull' : ∀ c ∈ (mid ++ right ++ [ch]).head?, beginningBytes < utf8Len left + c.utf8Size := by
    rw [append_assoc] at hend
    generalize mid ++ right = rest at hfull hend
    cases rest <;> simp_all
  by_cases htail : target ≤ utf8Len (left ++ mid ++ right)
  · rw [if_pos htail]
    refine ⟨left, mid, right ++ [ch], by simp, ?_, hfits, by simpa using hfull', hbefore, ?_⟩
    · cases right <;> simp [Nat.add_assoc]
    · cases right <;> simp_all
  · rw [if_neg htail]
    have hnil : right = [] := by
      by_contra hne
      have := hafter hne
      simp at this htail
      omega
    subst hnil
    refine ⟨left, mid ++ [ch], [], by simp, by simp [Nat.add_assoc], hfits, by simpa using hfull', ?_, by simp⟩
    simp at htail ⊢
    omega

theorem Split.run : ∀ (s : Str) {st : SplitState} {left mid right : Str}, Split beginningBytes target len st left mid right →
    ∃ left' mid' right', left' ++ mid' ++ right' = left ++ mid ++ right ++ s ∧
      Split beginningBytes target len (s.foldl (splitStep beginningBytes target) st) left' mid' right'
  | [], _, left, mid, right, h => ⟨left, mid, right, by simp, h⟩
  | ch :: s, _, _, _, _, h => by
    obtain ⟨_, _, _, heq, hstep⟩ := h.step ch
    obtain ⟨left', mid', right', heq', hrun⟩ := Split.run s hstep
    exact ⟨left', mid', right', by rw [heq', heq, append_assoc, singleton_append], hrun⟩

/-- Ends of a text that fit, and do not with one character more. -/
structure Ends (beginningBytes endBytes : Nat) (left mid right : Str) : Prop where
  left_fits : utf8Len left ≤ beginningBytes
  left_full : ∀ c ∈ (mid ++ right).head?, beginningBytes < utf8Len (left ++ [c])
  right_fits : utf8Len right ≤ endBytes
  right_full : ∀ c ∈ (left ++ mid).getLast?, endBytes < utf8Len (c :: right)

/-- **Both ends are the longest that fit, and every character between them is counted.** -/
theorem splitString_spec (hlen : beginningBytes + endBytes < utf8Len s) : ∃ left mid right, s = left ++ mid ++ right ∧
    Ends beginningBytes endBytes left mid right ∧ splitString s beginningBytes endBytes = (mid.length, left, right) := by
  have hinit : Split beginningBytes (utf8Len s - endBytes) (utf8Len s) ⟨0, 0, utf8Len s, 0, false⟩ [] [] [] :=
    ⟨rfl, Nat.zero_le _, nofun, nofun, by simp⟩
  obtain ⟨left, mid, right, heq, h⟩ := hinit.run s
  obtain rfl : left ++ mid ++ right = s := heq
  have hstart : (if right = [] then utf8Len (left ++ mid ++ right) else utf8Len (left ++ mid)) = utf8Len (left ++ mid) := by
    split <;> simp_all
  have hfits := h.fits
  refine ⟨left, mid, right, rfl, ⟨hfits, by simpa using h.full, ?_, fun c hc => ?_⟩, ?_⟩
  · by_cases hright : right = []
    · simp [hright]
    · have := h.after hright
      simp at this
      omega
  · by_cases hmid : mid = []
    · subst hmid
      simp at hlen ⊢
      omega
    · have := h.before c (getLast?_append_of_ne_nil left hmid ▸ hc)
      simp at this hlen ⊢
      omega
  · unfold splitString
    rw [h.state, hstart]
    dsimp only
    rw [if_neg (by simp)]
    simp only [splitAtByte_append, append_assoc left mid right ▸ splitAtByte_append left (mid ++ right)]

/-! ## `truncate_with_byte_estimate` -/

def approxTokenCount (text : Str) : Nat := (utf8Len text + 3) / 4

def approxBytesForTokens (tokens : Nat) : Nat := tokens * 4

def formatTruncationMarker (useTokens : Bool) (removedCount : Nat) : Str :=
  '…' :: (toString removedCount).toList ++ (if useTokens then " tokens truncated…" else " chars truncated…").toList

def removedUnits (useTokens : Bool) (removedBytes removedChars : Nat) : Nat :=
  if useTokens then (removedBytes + 3) / 4 else removedChars

def truncateWithByteEstimate (s : Str) (maxBytes : Nat) (useTokens : Bool) : Str :=
  if s.isEmpty then []
  else if maxBytes = 0 then formatTruncationMarker useTokens (removedUnits useTokens (utf8Len s) s.length)
  else if utf8Len s ≤ maxBytes then s
  else
    let leftBudget := maxBytes / 2
    let (removedChars, left, right) := splitString s leftBudget (maxBytes - leftBudget)
    left ++ formatTruncationMarker useTokens (removedUnits useTokens (utf8Len s - maxBytes) removedChars) ++ right

/-- A text cut to a budget: the longest ends within its halves, and between them the marker with what was removed. -/
structure Cut (useTokens : Bool) (maxBytes : Nat) (s shown left mid right : Str) : Prop where
  parts : s = left ++ mid ++ right
  ends : Ends (maxBytes / 2) (maxBytes - maxBytes / 2) left mid right
  shown_eq : shown =
    left ++ formatTruncationMarker useTokens (removedUnits useTokens (utf8Len s - maxBytes) mid.length) ++ right

theorem eq_nil_of_utf8Len (h : utf8Len s ≤ 0) : s = [] :=
  length_eq_zero_iff.1 (Nat.le_zero.1 ((length_le_utf8Len s).trans h))

theorem truncate_of_le (useTokens : Bool) (h : utf8Len s ≤ maxBytes) : truncateWithByteEstimate s maxBytes useTokens = s := by
  by_cases hs : s = []
  · simp [truncateWithByteEstimate, hs]
  · have hzero : maxBytes ≠ 0 := fun hzero => hs (eq_nil_of_utf8Len (hzero ▸ h))
    simp [truncateWithByteEstimate, hs, hzero, h]

theorem exists_cut (useTokens : Bool) (h : maxBytes < utf8Len s) :
    ∃ left mid right, Cut useTokens maxBytes s (truncateWithByteEstimate s maxBytes useTokens) left mid right := by
  obtain ⟨left, mid, right, hparts, hends, hsplit⟩ :=
    splitString_spec (show maxBytes / 2 + (maxBytes - maxBytes / 2) < utf8Len s by omega)
  refine ⟨left, mid, right, hparts, hends, ?_⟩
  have hne : s ≠ [] := by
    rintro rfl
    simp at h
  by_cases hzero : maxBytes = 0
  · subst hzero
    have hl := eq_nil_of_utf8Len hends.left_fits
    have hr := eq_nil_of_utf8Len hends.right_fits
    simp_all [truncateWithByteEstimate]
  · simp [truncateWithByteEstimate, hne, hzero, h.not_ge, hsplit]

/-! ## `truncate_function_output_items_with_policy` -/

inductive TruncationPolicy
  | bytes (bytes : Nat)
  | tokens (tokens : Nat)

namespace TruncationPolicy

def budget : TruncationPolicy → Nat
  | bytes n | tokens n => n

def useTokens : TruncationPolicy → Bool
  | bytes _ => false
  | tokens _ => true

def cost : TruncationPolicy → Str → Nat
  | bytes _ => utf8Len
  | tokens _ => approxTokenCount

def audioCost : TruncationPolicy → Nat → Nat
  | bytes _ => approxBytesForTokens
  | tokens _ => id

/-- `truncate_text` with a policy of the same kind. -/
def truncateText : TruncationPolicy → Str → Nat → Str
  | bytes _, content, maxBytes => truncateWithByteEstimate content maxBytes false
  | tokens _, content, maxTokens =>
    if content.isEmpty then []
    else if 0 < maxTokens ∧ utf8Len content ≤ approxBytesForTokens maxTokens then content
    else truncateWithByteEstimate content (approxBytesForTokens maxTokens) true

end TruncationPolicy

inductive ImageDetail
  | auto | low | high | original

inductive FunctionCallOutputContentItem
  | inputText (text : Str)
  | inputImage (imageUrl : Str) (detail : Option ImageDetail)
  | inputAudio (audioUrl : Str)
  | encryptedContent (encryptedContent : Str)

open FunctionCallOutputContentItem

abbrev Items := List FunctionCallOutputContentItem

structure ItemState where
  out : Items
  remainingBudget : Nat
  omittedTextItems : Nat
  omittedAudioItems : Nat

section Items

variable (policy : TruncationPolicy) (estimateAudioTokenCount : Str → Nat)

def itemStep (st : ItemState) : FunctionCallOutputContentItem → ItemState
  | inputText text =>
    if st.remainingBudget = 0 then { st with omittedTextItems := st.omittedTextItems + 1 }
    else if policy.cost text ≤ st.remainingBudget then
      { st with out := st.out ++ [inputText text], remainingBudget := st.remainingBudget - policy.cost text }
    else
      let snippet := policy.truncateText text st.remainingBudget
      if snippet.isEmpty then { st with remainingBudget := 0, omittedTextItems := st.omittedTextItems + 1 }
      else { st with out := st.out ++ [inputText snippet], remainingBudget := 0 }
  | inputAudio audioUrl =>
    let cost := policy.audioCost (estimateAudioTokenCount audioUrl)
    if cost ≤ st.remainingBudget then
      { st with out := st.out ++ [inputAudio audioUrl], remainingBudget := st.remainingBudget - cost }
    else { st with omittedAudioItems := st.omittedAudioItems + 1 }
  | item => { st with out := st.out ++ [item] }

def omittedNote (count : Nat) (kind : String) : Items :=
  if 0 < count then [inputText ("[omitted ".toList ++ (toString count).toList ++ kind.toList ++ " items ...]".toList)] else []

def truncateFunctionOutputItemsWithPolicy (items : Items) : Items :=
  let st := items.foldl (itemStep policy estimateAudioTokenCount) ⟨[], policy.budget, 0, 0⟩
  st.out ++ omittedNote st.omittedTextItems " text" ++ omittedNote st.omittedAudioItems " audio"

def isMedia : FunctionCallOutputContentItem → Bool
  | inputImage .. | encryptedContent _ => true
  | _ => false

def text? : FunctionCallOutputContentItem → Option Str
  | inputText text => some text
  | _ => none

/-- What is put out for items, the texts retained from them and the number of text items left out. -/
inductive Kept (useTokens : Bool) : Items → Items → List Str → Nat → Prop
  | nil : Kept useTokens [] [] [] 0
  | same (item) : Kept useTokens items out texts n →
    Kept useTokens (items ++ [item]) (out ++ [item]) (texts ++ (text? item).toList) n
  | cut : Cut useTokens maxBytes s shown left mid right → Kept useTokens items out texts n →
    Kept useTokens (items ++ [inputText s]) (out ++ [inputText shown]) (texts ++ [left ++ right]) n
  | omitText (s) : Kept useTokens items out texts n → Kept useTokens (items ++ [inputText s]) out texts (n + 1)
  | omitAudio (url) : Kept useTokens items out texts n → Kept useTokens (items ++ [inputAudio url]) out texts n

theorem Kept.media (h : Kept useTokens items out texts n) : out.filter isMedia = items.filter isMedia := by
  induction h with
  | nil => rfl
  | same _ _ ih | cut _ _ ih | omitText _ _ ih | omitAudio _ _ ih => simp [ih, isMedia]

variable {policy}

theorem truncateText_cut (h : remaining < policy.cost text) : ∃ maxBytes left mid right,
    Cut policy.useTokens maxBytes text (policy.truncateText text remaining) left mid right ∧
      policy.cost (left ++ right) ≤ remaining := by
  cases policy with
  | bytes =>
    obtain ⟨left, mid, right, hcut⟩ := exists_cut false h
    have hl := hcut.ends.left_fits
    have hr := hcut.ends.right_fits
    exact ⟨_, left, mid, right, hcut, by simp [TruncationPolicy.cost]; omega⟩
  | tokens =>
    simp only [TruncationPolicy.cost, approxTokenCount] at h ⊢
    have hlen : approxBytesForTokens remaining < utf8Len text := by
      unfold approxBytesForTokens
      omega
    have hne : text ≠ [] := by
      rintro rfl
      simp at hlen
    obtain ⟨left, mid, right, hcut⟩ := exists_cut true hlen
    have hl := hcut.ends.left_fits
    have hr := hcut.ends.right_fits
    refine ⟨approxBytesForTokens remaining, left, mid, right, ?_, ?_⟩
    · simpa [TruncationPolicy.truncateText, TruncationPolicy.useTokens, hlen.not_ge, hne] using hcut
    · unfold approxBytesForTokens at hl hr
      simp
      omega

/-- The texts retained are paid for. -/
def Within (policy : TruncationPolicy) (st : ItemState) (items : Items) : Prop :=
  ∃ texts, Kept policy.useTokens items st.out texts st.omittedTextItems ∧
    (texts.map policy.cost).sum + st.remainingBudget ≤ policy.budget

theorem Within.step (h : Within policy st items) (item : FunctionCallOutputContentItem) :
    Within policy (itemStep policy estimateAudioTokenCount st item) (items ++ [item]) := by
  obtain ⟨texts, hkept, hsum⟩ := h
  cases item with
  | inputImage | encryptedContent => exact ⟨_, hkept.same _, by simpa [text?, itemStep] using hsum⟩
  | inputAudio url =>
    unfold itemStep
    dsimp only
    split
    · exact ⟨_, hkept.same _, by simp [text?]; omega⟩
    · exact ⟨_, hkept.omitAudio url, hsum⟩
  | inputText text =>
    unfold itemStep
    dsimp only
    split
    · exact ⟨_, hkept.omitText text, hsum⟩
    split
    · exact ⟨_, hkept.same _, by simp [text?]; omega⟩
    obtain ⟨_, left, mid, right, hcut, hcost⟩ := truncateText_cut (Nat.lt_of_not_le ‹_›)
    rw [if_neg (by simp [hcut.shown_eq, formatTruncationMarker])]
    exact ⟨_, hkept.cut hcut, by simp; omega⟩

theorem Within.run : ∀ (items : Items) {st done}, Within policy st done →
    Within policy (items.foldl (itemStep policy estimateAudioTokenCount) st) (done ++ items)
  | [], _, _, h => by simpa using h
  | item :: items, _, _, h => by simpa using Within.run items (h.step estimateAudioTokenCount item)

end Items

/-- **A text that does not fit keeps the longest ends within the halves of the budget and tells what was removed; a list of
items keeps its images and encrypted items, text within the budget, and tells how many texts were left out.** -/
theorem truncation_exact :
    (∀ s maxBytes useTokens, (utf8Len s ≤ maxBytes → truncateWithByteEstimate s maxBytes useTokens = s) ∧
      (maxBytes < utf8Len s → ∃ left mid right,
        Cut useTokens maxBytes s (truncateWithByteEstimate s maxBytes useTokens) left mid right)) ∧
    ∀ policy estimateAudioTokenCount items, ∃ out texts omittedText omittedAudio,
      truncateFunctionOutputItemsWithPolicy policy estimateAudioTokenCount items =
        out ++ omittedNote omittedText " text" ++ omittedNote omittedAudio " audio" ∧
      Kept policy.useTokens items out texts omittedText ∧ out.filter isMedia = items.filter isMedia ∧
      (texts.map policy.cost).sum ≤ policy.budget := by
  refine ⟨fun s maxBytes useTokens => ⟨truncate_of_le useTokens, exists_cut useTokens⟩, fun policy estimate items => ?_⟩
  have hinit : Within policy ⟨[], policy.budget, 0, 0⟩ [] := ⟨[], .nil, by simp⟩
  obtain ⟨texts, hkept, hsum⟩ := hinit.run estimate items
  exact ⟨_, texts, _, _, rfl, hkept, hkept.media, by omega⟩

end Owc.Truncation
