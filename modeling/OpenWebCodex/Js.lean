import Mathlib.Data.List.DropRight
/-!
# Js — strings of ECMAScript

A string is the list of its UTF-16 code units, so that lengths and slices are those of the language.  `trim`, `slice` and
the white space of `\s` are as the standard has them.
-/
namespace Owc.Js

abbrev Text := List UInt16

def unitsOf (c : Char) : Text :=
  if c.toNat < 0x10000 then [UInt16.ofNat c.toNat]
  else [UInt16.ofNat (0xD800 + (c.toNat - 0x10000) / 0x400), UInt16.ofNat (0xDC00 + (c.toNat - 0x10000) % 0x400)]

def lit (s : String) : Text := s.toList.flatMap unitsOf

def isSpace (u : UInt16) : Bool :=
  let n := u.toNat
  (9 ≤ n && n ≤ 13) || n == 0x20 || n == 0xA0 || n == 0x1680 || (0x2000 ≤ n && n ≤ 0x200A) || n == 0x2028 || n == 0x2029 ||
    n == 0x202F || n == 0x205F || n == 0x3000 || n == 0xFEFF

def isDigit (u : UInt16) : Bool := 48 ≤ u.toNat && u.toNat ≤ 57

def isLower (u : UInt16) : Bool := 97 ≤ u.toNat && u.toNat ≤ 122

def isUpper (u : UInt16) : Bool := 65 ≤ u.toNat && u.toNat ≤ 90

/-- The unit in lower case, for a pattern of ASCII letters with the flag `i`. -/
def lower (u : UInt16) : UInt16 := if isUpper u then u + 32 else u

def trim (s : Text) : Text := (s.dropWhile isSpace).rdropWhile isSpace

def startsWith (s p : Text) : Bool := p.isPrefixOf s

def endsWith (s p : Text) : Bool := p.isSuffixOf s

@[simp] theorem startsWith_iff {s p : Text} : startsWith s p = true ↔ p <+: s := List.isPrefixOf_iff_prefix

@[simp] theorem endsWith_iff {s p : Text} : endsWith s p = true ↔ p <:+ s := List.isSuffixOf_iff_suffix

/-- `slice(-n)` of an array, which for `n = 0` is all of it. -/
def sliceLast {α : Type} (l : List α) (n : Nat) : List α := if n = 0 then l else l.drop (l.length - n)

/-- `replace(/\s+/g, " ")`. -/
def collapseSpace : Text → Text
  | [] => []
  | u :: s =>
    match collapseSpace s with
    | rest =>
      if isSpace u then
        match s with
        | v :: _ => if isSpace v then rest else 32 :: rest
        | [] => [32]
      else u :: rest

/-- `replace` of every match of a pattern.  `matchAt` says how many units, at least one, the pattern takes here, and is told
whether this is the start of the text; the length of the text bounds the rounds. -/
def replaceAll (matchAt : Bool → Text → Option Nat) (replacement : Text) : Nat → Bool → Text → Text
  | 0, _, s => s
  | _ + 1, _, [] => []
  | n + 1, start, u :: s =>
    match matchAt start (u :: s) with
    | some k => replacement ++ replaceAll matchAt replacement n false ((u :: s).drop k)
    | none => u :: replaceAll matchAt replacement n false s

end Owc.Js
