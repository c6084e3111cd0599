import Mathlib.Data.List.Destutter
import Mathlib.Data.List.Flatten
import Mathlib.Data.List.Sort
import OpenWebCodex.Text
/-!
# FuzzyMatch — subsequences across case mappings

`fuzzy_match` lowers the haystack character by character and the needle as a whole.  The two differ for a capital sigma that
ends a word, so a needle with one is not found in itself.
-/
namespace Owc.Fuzzy

open List

/-- The case tables of the standard library. -/
structure Unicode where
  toLower : Char → Str
  cased : Char → Bool
  caseIgnorable : Char → Bool
  sigma : toLower 'Σ' = ['σ']

variable (unicode : Unicode)

/-! ## `str::to_lowercase` -/

def caseIgnorableThenCased (chars : Str) : Bool := (chars.dropWhile unicode.caseIgnorable).head?.any unicode.cased

/-- `Final_Sigma`, for a sigma between `before`, last character first, and `after`. -/
def isWordFinal (before after : Str) : Bool :=
  caseIgnorableThenCased unicode before && !caseIgnorableThenCased unicode after

def lowerFrom (before : Str) : Str → Str
  | [] => []
  | c :: after =>
    (if c = 'Σ' then [if isWordFinal unicode before after then 'ς' else 'σ'] else unicode.toLower c) ++
      lowerFrom (c :: before) after

def toLowercase (s : Str) : Str := lowerFrom unicode [] s

/-- Some capital sigma ends a word. -/
def finalSigma (before : Str) : Str → Bool
  | [] => false
  | c :: after => c = 'Σ' && isWordFinal unicode before after || finalSigma (c :: before) after

theorem length_lowerFrom : ∀ before s : Str, (lowerFrom unicode before s).length = (s.flatMap unicode.toLower).length
  | _, [] => rfl
  | before, c :: s => by
    rw [lowerFrom, flatMap_cons, length_append, length_append, length_lowerFrom]
    by_cases hc : c = 'Σ' <;> simp [hc, unicode.sigma]

/-- **A text is lowered as its characters are exactly where no capital sigma ends a word.** -/
theorem lowerFrom_eq_iff : ∀ before s : Str,
    lowerFrom unicode before s = s.flatMap unicode.toLower ↔ finalSigma unicode before s = false
  | _, [] => by simp [lowerFrom, finalSigma]
  | before, c :: s => by
    have ih := lowerFrom_eq_iff (c :: before) s
    by_cases hc : c = 'Σ'
    · subst hc
      by_cases hw : isWordFinal unicode before s <;> simp [lowerFrom, finalSigma, hw, unicode.sigma, ih]
    · simp [lowerFrom, finalSigma, hc, ih]

/-! ## `fuzzy_match` -/

/-- The lowered characters, each with the index of the character it comes from. -/
def lowered (haystack : Str) : List (Char × Nat) :=
  haystack.zipIdx.flatMap fun c => (unicode.toLower c.1).map (·, c.2)

/-- The two loops, which read the lowered characters once: for each character of the needle the position it is found at, from
`cur` on, and the index there. -/
@[local grind =] def hits (cur : Nat) : List (Char × Nat) → Str → Option (List (Nat × Nat))
  | _, [] => some []
  | [], _ :: _ => none
  | (lc, orig) :: chars, nc :: needle =>
    if lc = nc then (hits (cur + 1) chars needle).map ((cur, orig) :: ·) else hits (cur + 1) chars (nc :: needle)

def fuzzyMatch (haystack needle : Str) : Option (List Nat × Int) :=
  if needle.isEmpty then some ([], 2147483647)
  else
    let loweredChars := lowered unicode haystack
    let loweredNeedle := toLowercase unicode needle
    (hits 0 loweredChars loweredNeedle).map fun found =>
      let resultOrigIndices := found.map Prod.snd
      let firstLowerPos : Nat := match resultOrigIndices with
        | [] => 0
        | targetOrig :: _ => ((loweredChars.map Prod.snd).findIdx? (· == targetOrig)).getD 0
      let lastLowerPos := (found.getLast?.map Prod.fst).getD firstLowerPos
      let window : Int := ((lastLowerPos : Int) - firstLowerPos + 1) - loweredNeedle.length
      let score := if firstLowerPos = 0 then max window 0 - 100 else max window 0
      ((resultOrigIndices.insertionSort (· ≤ ·)).destutter (· ≠ ·), score)

theorem isSome_hits : ∀ (cur : Nat) (chars : List (Char × Nat)) (needle : Str),
    (hits cur chars needle).isSome ↔ needle <+ chars.map Prod.fst
  | _, [], [] | _, _ :: _, [] => by simp [hits]
  | _, [], _ :: _ => by simp [hits]
  | cur, (lc, orig) :: chars, nc :: needle => by
    rw [hits, map_cons]
    by_cases h : lc = nc
    · rw [if_pos h, Option.isSome_map, isSome_hits, h, cons_sublist_cons]
    · rw [if_neg h, isSome_hits, sublist_cons_iff]
      simp [Ne.symm h]

theorem hits_sublist : ∀ {cur : Nat} {chars : List (Char × Nat)} {needle : Str} {found : List (Nat × Nat)},
    hits cur chars needle = some found → ∃ kept, kept <+ chars ∧ kept.map Prod.fst = needle ∧ kept.map Prod.snd = found.map Prod.snd
  | _, _, [], _, h => by
    cases (show some [] = some _ by simpa [hits] using h)
    exact ⟨[], nil_sublist _, rfl, rfl⟩
  | _, [], _ :: _, _, h => by cases h
  | cur, (lc, orig) :: chars, nc :: needle, found, h => by
    rw [hits] at h
    split at h
    · obtain ⟨rest, hrest, rfl⟩ := Option.map_eq_some_iff.1 h
      obtain ⟨kept, hkept, hfst, hsnd⟩ := hits_sublist hrest
      exact ⟨(lc, orig) :: kept, hkept.cons_cons _, by simp_all, by simp_all⟩
    · obtain ⟨kept, hkept, hmaps⟩ := hits_sublist h
      exact ⟨kept, hkept.cons _, hmaps⟩

theorem map_fst_lowered (haystack : Str) : (lowered unicode haystack).map Prod.fst = haystack.flatMap unicode.toLower := by
  conv_rhs => rw [← zipIdx_map_fst 0 haystack, flatMap_map]
  simp [lowered, map_flatMap, Function.comp_def]

theorem isSome_fuzzyMatch (haystack needle : Str) :
    (fuzzyMatch unicode haystack needle).isSome ↔ toLowercase unicode needle <+ haystack.flatMap unicode.toLower := by
  cases needle with
  | nil => simp [fuzzyMatch, toLowercase, lowerFrom]
  | cons => simp [fuzzyMatch, isSome_hits, map_fst_lowered]

/-- The indices are positions of the haystack, each once and in order, and their lowered characters hold the lowered needle. -/
structure Located (haystack needle : Str) (indices : List Nat) : Prop where
  increasing : indices.Pairwise (· < ·)
  valid : ∀ i ∈ indices, i < haystack.length
  contains : toLowercase unicode needle <+ (haystack.zipIdx.filter (·.2 ∈ indices)).flatMap (unicode.toLower ·.1)

theorem map_fst_filter_lowered (indices : List Nat) : ∀ chars : List (Char × Nat),
    ((chars.flatMap fun c => (unicode.toLower c.1).map (·, c.2)).filter (·.2 ∈ indices)).map Prod.fst =
      (chars.filter (·.2 ∈ indices)).flatMap (unicode.toLower ·.1)
  | [] => rfl
  | c :: chars => by
    have ih := map_fst_filter_lowered indices chars
    by_cases hc : c.2 ∈ indices <;> simp [hc, ih, filter_map, Function.comp_def]

theorem located (h : fuzzyMatch unicode haystack needle = some (indices, score)) :
    Located unicode haystack needle indices := by
  cases needle with
  | nil =>
    cases h
    exact ⟨.nil, nofun, nil_sublist _⟩
  | cons =>
    obtain ⟨found, hfound, hindices⟩ := Option.map_eq_some_iff.1 h
    obtain ⟨kept, hkept, hfst, hsnd⟩ := hits_sublist hfound
    have hsorted := pairwise_insertionSort (· ≤ ·) (found.map Prod.snd)
    have heq : ((found.map Prod.snd).insertionSort (· ≤ ·)).dedup = indices :=
      hsorted.destutter_eq_dedup.symm.trans (congrArg Prod.fst hindices)
    have hmem (i : Nat) : i ∈ indices ↔ i ∈ kept.map Prod.snd := by rw [← heq, mem_dedup, mem_insertionSort, hsnd]
    refine ⟨?_, fun i hi => ?_, ?_⟩
    · rw [← heq]
      exact ((hsorted.sublist (dedup_sublist _)).and (nodup_dedup _)).imp fun h => Nat.lt_of_le_of_ne h.1 h.2
    · obtain ⟨c, hc, rfl⟩ := mem_map.1 ((hmem i).1 hi)
      obtain ⟨d, hd, hcd⟩ := mem_flatMap.1 (hkept.subset hc)
      obtain ⟨_, _, rfl⟩ := mem_map.1 hcd
      exact snd_lt_of_mem_zipIdx hd
    · rw [← map_fst_filter_lowered, ← hfst]
      have hself : kept.filter (·.2 ∈ indices) = kept :=
        filter_eq_self.2 fun c hc => decide_eq_true ((hmem c.2).2 (mem_map_of_mem hc))
      exact hself ▸ (hkept.filter _).map _

/-- **A needle is found in every haystack it is a subsequence of exactly where no capital sigma of it ends a word; where one
is found, its indices locate it.** -/
theorem fuzzyMatch_complete_iff (needle : Str) :
    ((∀ haystack, needle <+ haystack → (fuzzyMatch unicode haystack needle).isSome = true) ↔
      finalSigma unicode [] needle = false) ∧
    ∀ haystack indices score, fuzzyMatch unicode haystack needle = some (indices, score) →
      Located unicode haystack needle indices := by
  refine ⟨⟨fun h => ?_, fun h haystack hsub => ?_⟩, fun _ _ _ => located unicode⟩
  · have hself := (isSome_fuzzyMatch unicode needle needle).1 (h needle (Sublist.refl _))
    exact (lowerFrom_eq_iff unicode [] needle).1 (hself.eq_of_length (length_lowerFrom unicode [] needle))
  · rw [isSome_fuzzyMatch, toLowercase, (lowerFrom_eq_iff unicode [] needle).2 h]
    exact hsub.flatMap _

/-- The tables as far as the word below needs them. -/
def greek : Unicode where
  toLower c := if c = 'Ο' then ['ο'] else if c = 'Σ' then ['σ'] else [c]
  cased c := c ∈ ['Ο', 'ο', 'Σ', 'σ', 'ς']
  caseIgnorable _ := false
  sigma := rfl

theorem word_not_found_in_itself : fuzzyMatch greek ['Ο', 'Σ'] ['Ο', 'Σ'] = none := by
  decide

end Owc.Fuzzy
