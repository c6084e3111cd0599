import Mathlib
/-!
# Text — strings as lists of characters

The operations of Rust's `str` on `List Char`: trimming by the Unicode `White_Space` property, prefixes and suffixes,
`split('\n')`, `lines` and `join`.  Each comes with the lemmas by which a caller reads a text it knows the shape of.
-/
namespace Owc

open List

abbrev Str := List Char

instance : LawfulBEq Str := inferInstance

namespace Str

/-- `char::is_whitespace`: the code points with the Unicode property `White_Space`. -/
def isWhitespace (c : Char) : Bool :=
  (9 ≤ c.toNat && c.toNat ≤ 13) || c.toNat == 0x20 || c.toNat == 0x85 || c.toNat == 0xA0 || c.toNat == 0x1680 ||
  (0x2000 ≤ c.toNat && c.toNat ≤ 0x200A) || c.toNat == 0x2028 || c.toNat == 0x2029 || c.toNat == 0x202F ||
  c.toNat == 0x205F || c.toNat == 0x3000

def trimStart (s : Str) : Str := s.dropWhile isWhitespace

def trimEnd (s : Str) : Str := s.rdropWhile isWhitespace

def trim (s : Str) : Str := trimEnd (trimStart s)

def startsWith (s p : Str) : Bool := p.isPrefixOf s

def endsWith (s p : Str) : Bool := p.isSuffixOf s

def stripPrefix (s p : Str) : Option Str := if startsWith s p then some (s.drop p.length) else none

def stripSuffix (s p : Str) : Option Str := if endsWith s p then some (s.take (s.length - p.length)) else none

/-- `str::split` at one character: never empty. -/
def split (c : Char) : Str → List Str
  | [] => [[]]
  | x :: xs => if x = c then [] :: split c xs else
      match split c xs with
      | [] => [[x]]
      | l :: ls => (x :: l) :: ls

/-- A line without the carriage return before its line feed. -/
def dropCr (l : Str) : Str := (stripSuffix l ['\r']).getD l

/-- `str::lines`: the text after the last line feed is a line unless it is empty, and keeps a carriage return. -/
def lines (s : Str) : List Str :=
  let parts := split '\n' s
  parts.dropLast.map dropCr ++ (parts.getLast?.toList.filter (fun l => !l.isEmpty))

/-- `str::len`: the length in bytes. -/
def utf8Len (s : Str) : Nat := (s.map Char.utf8Size).sum

/-- `char::is_control`: the code points of the general category `Cc`. -/
def isControl (c : Char) : Bool := c.toNat ≤ 0x1F || (0x7F ≤ c.toNat && c.toNat ≤ 0x9F)

def containsStr (s p : Str) : Bool := s.tails.any (startsWith · p)

/-- `str::split` at every character that satisfies `p`: never empty. -/
def splitWhere (p : Char → Bool) : Str → List Str
  | [] => [[]]
  | x :: xs => if p x then [] :: splitWhere p xs else
      match splitWhere p xs with
      | [] => [[x]]
      | l :: ls => (x :: l) :: ls

def joinNl (ls : List Str) : Str := ['\n'].intercalate ls

/-! ## Trimming -/

variable {s : Str}

theorem trimEnd_eq_self (h : ∀ c ∈ s.getLast?, isWhitespace c = false) : trimEnd s = s := by
  unfold trimEnd
  rw [rdropWhile_eq_self_iff]
  intro hne
  have := h (s.getLast hne) (getLast?_eq_some_getLast hne)
  simp [this]

theorem trimStart_eq_self (h : ∀ c ∈ s.head?, isWhitespace c = false) : trimStart s = s := by
  cases s with
  | nil => rfl
  | cons c => exact dropWhile_cons_of_neg (by simp [h c rfl])

theorem trim_eq_self (hh : ∀ c ∈ s.head?, isWhitespace c = false)
    (hl : ∀ c ∈ s.getLast?, isWhitespace c = false) : trim s = s := by
  unfold trim
  rw [trimStart_eq_self hh, trimEnd_eq_self hl]

theorem trimEnd_cons {c : Char} (hc : isWhitespace c = false) (s : Str) : trimEnd (c :: s) = c :: trimEnd s := by
  unfold trimEnd
  rw [← singleton_append, rdropWhile, rdropWhile, reverse_append, reverse_singleton]
  by_cases h : s.reverse.dropWhile isWhitespace = []
  · rw [dropWhile_append, h]
    simp [hc]
  · rw [dropWhile_append]
    simp [h]

theorem trim_cons {c : Char} (hc : isWhitespace c = false) (s : Str) : trim (c :: s) = c :: trimEnd s := by
  unfold trim
  rw [trimStart_eq_self fun x hx => by cases hx; exact hc, trimEnd_cons hc]

theorem trimEnd_isPrefix (s : Str) : trimEnd s <+: s := rdropWhile_prefix _ s

theorem head?_trimEnd_ne {a : Char} (h : s.head? ≠ some a) : (trimEnd s).head? ≠ some a := by
  obtain ⟨t, ht⟩ := trimEnd_isPrefix s
  intro hh
  rw [← ht, head?_append, hh] at h
  exact h rfl

theorem trimEnd_append (p : Str) (hne : s ≠ []) (hs : trimEnd s = s) : trimEnd (p ++ s) = p ++ s := by
  refine trimEnd_eq_self fun c hc => ?_
  rw [getLast?_append_of_ne_nil p hne] at hc
  have h := rdropWhile_eq_self_iff.1 hs hne
  rw [getLast?_eq_some_getLast hne] at hc
  cases hc
  simpa using h

theorem trim_append {a : Char} (p : Str) (ha : isWhitespace a = false) (hne : s ≠ []) (hs : trimEnd s = s) :
    trim (a :: p ++ s) = a :: p ++ s := by
  have := trimEnd_append (a :: p) hne hs
  unfold trim
  rw [trimStart_eq_self fun x hx => by cases hx; exact ha, this]

theorem trimEnd_eq_of_trim_eq (h : trim s = s) : trimEnd s = s := by
  have hlen : (trimStart s).length = s.length := by
    have h1 : (trimStart s).length ≤ s.length := (dropWhile_suffix _).length_le
    have h2 : (trim s).length ≤ (trimStart s).length := (trimEnd_isPrefix _).length_le
    rw [h] at h2
    omega
  have hst : trimStart s = s := (dropWhile_suffix isWhitespace).eq_of_length hlen
  unfold trim at h
  rwa [hst] at h

def trimBy (p : Char → Bool) (s : Str) : Str := (s.dropWhile p).rdropWhile p

def marginsBy (p : Char → Bool) (s : Str) : Str := s.takeWhile p ++ (s.dropWhile p).rtakeWhile p

theorem rtakeWhile_append_rdropWhile (p : Char → Bool) (s : Str) : s.rdropWhile p ++ s.rtakeWhile p = s := by
  rw [rdropWhile, rtakeWhile, ← reverse_append, takeWhile_append_dropWhile, reverse_reverse]

theorem append_trimBy (p : Char → Bool) (s : Str) : s.takeWhile p ++ trimBy p s ++ (s.dropWhile p).rtakeWhile p = s := by
  rw [append_assoc, trimBy, rtakeWhile_append_rdropWhile, takeWhile_append_dropWhile]

theorem of_mem_marginsBy {p : Char → Bool} {c : Char} (h : c ∈ marginsBy p s) : p c := by
  rcases mem_append.1 h with h | h
  · exact mem_takeWhile_imp h
  · exact mem_takeWhile_imp (mem_reverse.1 h)

theorem dropWhile_append_visible {p : Char → Bool} {l d : Str} (r : Str) (hl : ∀ c ∈ l, p c) (hne : d ≠ [])
    (hd : ∀ c ∈ d.head?, p c = false) : (l ++ d ++ r).dropWhile p = d ++ r ∧ (l ++ d ++ r).takeWhile p = l := by
  rw [append_assoc, dropWhile_append_of_pos hl, takeWhile_append_of_pos hl]
  cases d with
  | nil => exact absurd rfl hne
  | cons c =>
    have hc : p c = false := hd c rfl
    simp [hc]

theorem trimBy_append {p : Char → Bool} {l d r : Str} (hl : ∀ c ∈ l, p c) (hr : ∀ c ∈ r, p c) (hne : d ≠ [])
    (hhead : ∀ c ∈ d.head?, p c = false) (hlast : ∀ c ∈ d.getLast?, p c = false) :
    trimBy p (l ++ d ++ r) = d ∧ marginsBy p (l ++ d ++ r) = l ++ r := by
  obtain ⟨hdrop, htake⟩ := dropWhile_append_visible r hl hne hhead
  have hback := dropWhile_append_visible (l := r.reverse) (d := d.reverse) [] (fun c hc => hr c (mem_reverse.1 hc))
    (by simpa using hne) fun c hc => hlast c (by rwa [head?_reverse] at hc)
  rw [append_nil, append_nil, ← reverse_append] at hback
  constructor
  · rw [trimBy, hdrop, rdropWhile, hback.1, reverse_reverse]
  · rw [marginsBy, hdrop, htake, rtakeWhile, hback.2, reverse_reverse]

/-! ## Prefixes -/

theorem startsWith_append (p s : Str) : startsWith (p ++ s) p := by
  unfold startsWith
  rw [ isPrefixOf_iff_prefix]
  exact prefix_append p s

theorem stripPrefix_append (p s : Str) : stripPrefix (p ++ s) p = some s := by
  unfold stripPrefix
  rw [if_pos (startsWith_append p s), drop_left]

theorem stripPrefix_eq_some {s p t : Str} : stripPrefix s p = some t ↔ s = p ++ t := by
  constructor
  · intro h
    unfold stripPrefix startsWith at h
    split at h
    · next hp =>
      rw [Option.some.injEq] at h
      obtain ⟨u, rfl⟩ := isPrefixOf_iff_prefix.1 hp
      rw [drop_left] at h
      rw [h]
    · cases h
  · rintro rfl
    exact stripPrefix_append p t

theorem stripSuffix_eq_some {s p t : Str} : stripSuffix s p = some t ↔ s = t ++ p := by
  unfold stripSuffix endsWith
  constructor
  · intro h
    split at h
    · next hp =>
      rw [Option.some.injEq] at h
      obtain ⟨u, rfl⟩ := isSuffixOf_iff_suffix.1 hp
      rw [length_append, Nat.add_sub_cancel, take_left] at h
      rw [h]
    · cases h
  · rintro rfl
    rw [if_pos (isSuffixOf_iff_suffix.2 (suffix_append t p)), length_append, Nat.add_sub_cancel, take_left]

theorem startsWith_cons_of_ne {a b : Char} (h : b ≠ a) (s p : Str) : startsWith (a :: s) (b :: p) = false := by
  simp [startsWith, isPrefixOf, h]

section

variable {a p : Str} (h1 : startsWith a p = false) (h2 : startsWith p a = false) (s : Str)
include h1 h2

theorem startsWith_append_of_ne : startsWith (a ++ s) p = false := by
  rw [Bool.eq_false_iff] at h1 h2 ⊢
  intro h
  have hp : p <+: a ++ s := isPrefixOf_iff_prefix.1 h
  rcases prefix_or_prefix_of_prefix hp (prefix_append a s) with h | h
  · exact h1 (List.isPrefixOf_iff_prefix.2 h)
  · exact h2 (List.isPrefixOf_iff_prefix.2 h)

theorem stripPrefix_append_of_ne : stripPrefix (a ++ s) p = none := by
  unfold stripPrefix
  rw [startsWith_append_of_ne h1 h2 s]
  rfl

end

theorem append_ne_of_not_startsWith {a p : Str} (h : startsWith p a = false) (s : Str) : a ++ s ≠ p := by
  rintro rfl
  rw [startsWith_append] at h
  cases h

section

variable {a : Char} (p : Str) (h : s.head? ≠ some a)
include h

theorem startsWith_of_head?_ne : startsWith s (a :: p) = false := by
  cases s with
  | nil => rfl
  | cons b s => exact startsWith_cons_of_ne (fun he => h (by rw [he]; rfl)) s p

theorem stripPrefix_of_head?_ne : stripPrefix s (a :: p) = none := by
  unfold stripPrefix
  rw [startsWith_of_head?_ne p h]
  rfl

theorem ne_of_head?_ne : s ≠ a :: p := by
  rintro rfl
  exact h rfl

end

theorem dropCr_eq_self {l : Str} (h : l.getLast? ≠ some '\r') : dropCr l = l := by
  unfold dropCr stripSuffix endsWith
  split
  · rename_i hs
    obtain ⟨t, rfl⟩ := isSuffixOf_iff_suffix.1 hs
    exact absurd getLast?_concat h
  · rfl

/-! ## Parts of a text -/

theorem length_le_utf8Len (s : Str) : s.length ≤ utf8Len s := by
  unfold utf8Len
  induction s with
  | nil => exact Nat.le_refl 0
  | cons c s ih =>
    have hc := Char.utf8Size_pos c
    rw [map_cons, sum_cons, length_cons]
    omega

theorem containsStr_iff {s p : Str} : containsStr s p ↔ p <:+: s := by
  unfold containsStr startsWith
  rw [any_eq_true, infix_iff_prefix_suffix]
  constructor
  · rintro ⟨t, ht, hp⟩
    exact ⟨t, isPrefixOf_iff_prefix.1 hp, (mem_tails _ _).1 ht⟩
  · rintro ⟨t, hp, ht⟩
    exact ⟨t, (mem_tails _ _).2 ht, isPrefixOf_iff_prefix.2 hp⟩

/-- The first part of a text is its beginning, and every other part stands in it. -/
theorem split_parts (c : Char) : ∀ s : Str, ∃ l ls, split c s = l :: ls ∧ l <+: s ∧ ∀ m ∈ ls, m <:+: s
  | [] => ⟨[], [], rfl, prefix_refl _, by simp⟩
  | x :: s => by
    obtain ⟨l, ls, hs, hl, hls⟩ := split_parts c s
    by_cases hx : x = c
    · refine ⟨[], l :: ls, by rw [split, if_pos hx, hs], nil_prefix, ?_⟩
      rw [forall_mem_cons]
      exact ⟨hl.isInfix.trans (suffix_cons x s).isInfix, fun m hm => (hls m hm).trans (suffix_cons x s).isInfix⟩
    · refine ⟨x :: l, ls, by rw [split, if_neg hx, hs], ?_, fun m hm => (hls m hm).trans (suffix_cons x s).isInfix⟩
      exact cons_prefix_cons.2 ⟨rfl, hl⟩

theorem infix_of_mem_split {c : Char} {s l : Str} (h : l ∈ split c s) : l <:+: s := by
  obtain ⟨_, _, hs, hf, hr⟩ := split_parts c s
  rw [hs] at h
  rcases mem_cons.1 h with rfl | h
  · exact hf.isInfix
  · exact hr l h

/-! ## Lines -/

theorem split_of_not_mem (c : Char) : ∀ (s : Str), c ∉ s → split c s = [s]
  | [], _ => rfl
  | x :: s, h => by
    have hx : x ≠ c := fun he => h (by simp [he])
    simp [split, hx, split_of_not_mem c s fun hm => h (by simp [hm])]

theorem split_append_sep (c : Char) (t : Str) : ∀ (s : Str), c ∉ s → split c (s ++ c :: t) = s :: split c t
  | [], _ => by simp [split]
  | x :: s, h => by
    have hx : x ≠ c := fun he => h (by simp [he])
    have ih := split_append_sep c t s fun hm => h (by simp [hm])
    simp [split, hx, ih]

end Str
end Owc
