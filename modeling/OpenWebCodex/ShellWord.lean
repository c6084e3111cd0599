import OpenWebCodex.Text
/-!
# ShellWord — quoted and unquoted pieces of a shell word

A word is a concatenation of pieces.  Each piece has its text in the script and the text that is left of it after quote removal;
the two agree exactly for pieces without an escape.
-/
namespace Owc.Shell

open List

/-- A character outside quotes: as it stands, or after a backslash. -/
inductive Unquoted
  | plain (c : Char)
  | escaped (c : Char)

def Unquoted.source : Unquoted → Str
  | .plain c => [c]
  | .escaped c => ['\\', c]

/-- A backslash and a newline are a line continuation; any other escaped character stands for itself. -/
def Unquoted.removed : Unquoted → Str
  | .plain c => [c]
  | .escaped '\n' => []
  | .escaped c => [c]

def Unquoted.isPlain : Unquoted → Bool
  | .plain _ => true
  | .escaped _ => false

/-- Inside double quotes a backslash escapes these characters only. -/
def escapable (c : Char) : Bool := c == '$' || c == '`' || c == '"' || c == '\\' || c == '\n'

/-- A character inside double quotes: as it stands, or after a backslash. -/
inductive DoubleQuoted
  | plain (c : Char)
  | escaped (c : Char)

def DoubleQuoted.source : DoubleQuoted → Str
  | .plain c => [c]
  | .escaped c => ['\\', c]

def DoubleQuoted.removed : DoubleQuoted → Str
  | .plain c => [c]
  | .escaped c => if c = '\n' then [] else if escapable c then [c] else ['\\', c]

/-- Quote removal leaves it as it is. -/
def DoubleQuoted.isKept : DoubleQuoted → Bool
  | .plain _ => true
  | .escaped c => !escapable c

inductive Piece
  /-- Unquoted text, which the grammar may read as a number. -/
  | unquoted (number : Bool) (units : List Unquoted)
  | single (text : Str)
  | double (units : List DoubleQuoted)

def Piece.inner : Piece → Str
  | .unquoted _ units => units.flatMap (·.source)
  | .single text => text
  | .double units => units.flatMap (·.source)

def Piece.source (piece : Piece) : Str :=
  match piece with
  | .unquoted .. => piece.inner
  | .single .. => '\'' :: piece.inner ++ ['\'']
  | .double .. => '"' :: piece.inner ++ ['"']

/-- **Quote removal.** -/
def Piece.removed : Piece → Str
  | .unquoted _ units => units.flatMap (·.removed)
  | .single text => text
  | .double units => units.flatMap (·.removed)

/-- Quote removal leaves the inner text as it is: no backslash outside quotes, and inside double quotes none that escapes. -/
def Piece.noEscape : Piece → Bool
  | .unquoted _ units => units.all (·.isPlain)
  | .single _ => true
  | .double units => units.all (·.isKept)

structure Word where
  first : Piece
  rest : List Piece

def Word.pieces (word : Word) : List Piece := word.first :: word.rest

def Word.removed (word : Word) : Str := word.pieces.flatMap (·.removed)

def Word.inner (word : Word) : Str := word.pieces.flatMap (·.inner)

def Word.noEscape (word : Word) : Bool := word.pieces.all (·.noEscape)

/-! ## Where the two texts agree -/

/-- One text is the other where the test holds, and shorter elsewhere. -/
structure Shrinks {A : Type} (whole part : A → Str) (p : A → Bool) : Prop where
  same : ∀ a, p a = true → whole a = part a
  shorter : ∀ a, p a = false → (part a).length < (whole a).length

namespace Shrinks

variable {A : Type} {whole part : A → Str} {p : A → Bool}

theorem eq_iff (h : Shrinks whole part p) (a : A) : whole a = part a ↔ p a := by
  refine ⟨fun hsame => ?_, h.same a⟩
  cases hp : p a with
  | true => rfl
  | false =>
    have hlt := h.shorter a hp
    rw [hsame] at hlt
    exact absurd hlt (Nat.lt_irrefl _)

theorem length_le (h : Shrinks whole part p) (a : A) : (part a).length ≤ (whole a).length := by
  cases hp : p a with
  | true => rw [h.same a hp]
  | false => exact Nat.le_of_lt (h.shorter a hp)

/-- **Concatenation keeps the relation:** one shorter part makes the whole shorter. -/
theorem flatMap (h : Shrinks whole part p) :
    Shrinks (fun as : List A => as.flatMap whole) (fun as => as.flatMap part) (fun as => as.all p) := by
  have hle : ∀ as : List A, (as.flatMap part).length ≤ (as.flatMap whole).length := by
    intro as
    induction as with
    | nil => exact Nat.le_refl _
    | cons a as ih =>
      have ha := h.length_le a
      simp only [flatMap_cons, length_append]
      omega
  constructor
  · intro as hall
    induction as with
    | nil => rfl
    | cons a as ih =>
      rw [all_cons, Bool.and_eq_true] at hall
      simp only [flatMap_cons]
      rw [h.same a hall.1]
      exact congrArg (part a ++ ·) (ih hall.2)
  · intro as hall
    induction as with
    | nil => exact absurd hall (by simp)
    | cons a as ih =>
      simp only [flatMap_cons, length_append]
      rw [all_cons, Bool.and_eq_false_iff] at hall
      rcases hall with ha | hrest
      · have hlt := h.shorter a ha
        have hrest := hle as
        omega
      · have hlt := ih hrest
        have ha := h.length_le a
        omega

end Shrinks

theorem Unquoted.shrinks : Shrinks Unquoted.source Unquoted.removed Unquoted.isPlain := by
  constructor
  · rintro (c | c) h
    · rfl
    · cases h
  · rintro (c | c) h
    · cases h
    · unfold removed source
      split <;> simp_all

theorem DoubleQuoted.shrinks : Shrinks DoubleQuoted.source DoubleQuoted.removed DoubleQuoted.isKept := by
  constructor
  · rintro (c | c) h
    · rfl
    · have hc : escapable c = false := by simpa [isKept] using h
      have hline : c ≠ '\n' := by
        rintro rfl
        exact absurd hc (by decide)
      simp [source, removed, hc, hline]
  · rintro (c | c) h
    · cases h
    · have hc : escapable c := by simpa [isKept] using h
      by_cases hline : c = '\n'
      · simp [source, removed, hline]
      · simp [source, removed, hline, hc]

theorem Piece.shrinks : Shrinks Piece.inner Piece.removed Piece.noEscape := by
  constructor
  · rintro (⟨number, units⟩ | text | units) h
    · exact Unquoted.shrinks.flatMap.same units h
    · rfl
    · exact DoubleQuoted.shrinks.flatMap.same units h
  · rintro (⟨number, units⟩ | text | units) h
    · exact Unquoted.shrinks.flatMap.shorter units h
    · cases h
    · exact DoubleQuoted.shrinks.flatMap.shorter units h

/-- **A word's inner text is what the command is given exactly where nothing is escaped.** -/
theorem Word.inner_eq_removed_iff (word : Word) : word.inner = word.removed ↔ word.noEscape :=
  Piece.shrinks.flatMap.eq_iff word.pieces

end Owc.Shell
