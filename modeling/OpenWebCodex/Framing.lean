import Mathlib.Data.List.Basic
import Mathlib.Tactic.Common
/-!
# Framing — texts with their length in four bytes before them, read from a growing buffer

What can be read from a buffer does not depend on how it came: reading a first part, and then what was left of it with a second
part, is reading both (`drain_append`).
-/
namespace Owc.Framing

open List

def be32 (n : Nat) : List UInt8 :=
  [UInt8.ofNat (n / 16777216), UInt8.ofNat (n / 65536), UInt8.ofNat (n / 256), UInt8.ofNat n]

def ofBe32 (a b c d : UInt8) : Nat := a.toNat * 16777216 + b.toNat * 65536 + c.toNat * 256 + d.toNat

def frame (body : List UInt8) : List UInt8 := be32 body.length ++ body

structure Reader (ε α : Type) where
  parse : List UInt8 → Except ε α
  invalidLength : ε
  maxLength : Nat

section Reader

variable {ε α : Type} (reader : Reader ε α)

/-- The text of a declared length, if it is there.  A length of zero or above the maximum is refused before its text is there. -/
def readBody (length : Nat) (rest : List UInt8) : Except ε (Option (α × List UInt8)) :=
  if length = 0 ∨ reader.maxLength < length then .error reader.invalidLength
  else if rest.length < length then .ok none
  else match reader.parse (rest.take length) with
    | .error e => .error e
    | .ok text => .ok (some (text, rest.drop length))

def readFrame : List UInt8 → Except ε (Option (α × List UInt8))
  | a :: b :: c :: d :: rest => readBody reader (ofBe32 a b c d) rest
  | _ => .ok none

@[local grind =] def drain : Nat → List UInt8 → Except ε (List α × List UInt8)
  | 0, buffer => .ok ([], buffer)
  | fuel + 1, buffer =>
    match readFrame reader buffer with
    | .error e => .error e
    | .ok none => .ok ([], buffer)
    | .ok (some (text, rest)) => (drain fuel rest).map fun texts => (text :: texts.1, texts.2)

end Reader

theorem ofBe32_be32 {n : Nat} (h : n < 4294967296) :
    ofBe32 (UInt8.ofNat (n / 16777216)) (UInt8.ofNat (n / 65536)) (UInt8.ofNat (n / 256)) (UInt8.ofNat n) = n := by
  simp only [ofBe32, UInt8.toNat_ofNat']
  omega

section Reader

variable {ε α : Type} (reader : Reader ε α)

/-! ## One frame -/

theorem readBody_cases (length : Nat) (rest : List UInt8) : (∃ e, ∀ more, readBody reader length (rest ++ more) = .error e) ∨
    (rest.length < length ∧ length ≤ reader.maxLength ∧ readBody reader length rest = .ok none) ∨
    ∃ text, 0 < length ∧ length ≤ rest.length ∧ reader.parse (rest.take length) = .ok text ∧
      ∀ more, readBody reader length (rest ++ more) = .ok (some (text, rest.drop length ++ more)) := by
  unfold readBody
  by_cases hinvalid : length = 0 ∨ reader.maxLength < length
  · exact .inl ⟨reader.invalidLength, fun more => if_pos hinvalid⟩
  by_cases hshort : rest.length < length
  · exact .inr (.inl ⟨hshort, by omega, by rw [if_neg hinvalid, if_pos hshort]⟩)
  have hlong : ∀ more : List UInt8, ¬(rest ++ more).length < length := by
    intro more
    rw [length_append]
    omega
  cases hparse : reader.parse (rest.take length) with
  | error e =>
    refine .inl ⟨e, fun more => ?_⟩
    rw [if_neg hinvalid, if_neg (hlong more), take_append_of_le_length (by omega), hparse]
  | ok text =>
    refine .inr (.inr ⟨text, by omega, by omega, rfl, fun more => ?_⟩)
    rw [if_neg hinvalid, if_neg (hlong more), take_append_of_le_length (by omega), hparse, drop_append_of_le_length (by omega)]

/-- **What the first frame of a buffer is read as**, whatever comes after: it is refused, or not complete, or read. -/
theorem readFrame_cases (buffer : List UInt8) : (∃ e, ∀ more, readFrame reader (buffer ++ more) = .error e) ∨
    (buffer.length < 4 + reader.maxLength ∧ readFrame reader buffer = .ok none) ∨
    ∃ text rest, rest.length < buffer.length ∧
      ∀ more, readFrame reader (buffer ++ more) = .ok (some (text, rest ++ more)) := by
  match buffer with
  | [] | [_] | [_, _] | [_, _, _] => exact .inr (.inl ⟨by simp only [length_cons, length_nil]; omega, rfl⟩)
  | a :: b :: c :: d :: rest =>
    simp only [cons_append, readFrame, length_cons]
    rcases readBody_cases reader (ofBe32 a b c d) rest with
      herror | ⟨hshort, hle, hnone⟩ | ⟨text, hpos, hle, -, hread⟩
    · exact .inl herror
    · exact .inr (.inl ⟨by omega, hnone⟩)
    · refine .inr (.inr ⟨text, _, ?_, hread⟩)
      rw [length_drop]
      omega

/-! ## A buffer -/

theorem drain_fuel (buffer : List UInt8) {fuel more : Nat} (hfuel : buffer.length ≤ fuel) (hmore : buffer.length ≤ more) :
    drain reader fuel buffer = drain reader more buffer := by
  induction fuel generalizing buffer more with
  | zero =>
    obtain rfl := length_eq_zero_iff.1 (Nat.le_zero.1 hfuel)
    cases more <;> rfl
  | succ fuel ih =>
    cases more with
    | zero =>
      obtain rfl := length_eq_zero_iff.1 (Nat.le_zero.1 hmore)
      rfl
    | succ more =>
      rw [drain, drain]
      rcases readFrame_cases reader buffer with ⟨e, herror⟩ | ⟨-, hnone⟩ | ⟨text, rest, hlt, hread⟩
      · have herror := herror []
        rw [append_nil] at herror
        rw [herror]
      · rw [hnone]
      · have hread := hread []
        rw [append_nil, append_nil] at hread
        rw [hread]
        dsimp only
        rw [ih rest (by omega) (by omega : rest.length ≤ more)]

theorem left_of_drain {buffer : List UInt8} {fuel : Nat} (hfuel : buffer.length ≤ fuel) {texts : List α × List UInt8}
    (h : drain reader fuel buffer = .ok texts) :
    texts.2.length ≤ buffer.length ∧ texts.2.length < 4 + reader.maxLength := by
  induction fuel generalizing buffer texts with
  | zero =>
    obtain rfl := length_eq_zero_iff.1 (Nat.le_zero.1 hfuel)
    cases h
    exact ⟨Nat.le_refl _, by simp only [length_nil]; omega⟩
  | succ fuel ih =>
    rw [drain] at h
    rcases readFrame_cases reader buffer with ⟨e, herror⟩ | ⟨hlt, hnone⟩ | ⟨text, rest, hlt, hread⟩
    · have herror := herror []
      rw [append_nil] at herror
      rw [herror] at h
      cases h
    · rw [hnone] at h
      cases h
      exact ⟨Nat.le_refl _, hlt⟩
    · have hread := hread []
      rw [append_nil, append_nil] at hread
      rw [hread] at h
      dsimp only at h
      cases hrest : drain reader fuel rest with
      | error =>
        rw [hrest] at h
        cases h
      | ok later =>
        rw [hrest] at h
        cases h
        obtain ⟨hle, hleft⟩ := ih (by omega) hrest
        exact ⟨by dsimp only; omega, hleft⟩

theorem drain_append (first second : List UInt8) {fuel : Nat} (hfuel : (first ++ second).length ≤ fuel) :
    drain reader fuel (first ++ second) = (drain reader fuel first).bind fun texts =>
        (drain reader fuel (texts.2 ++ second)).map fun later => (texts.1 ++ later.1, later.2) := by
  have hnone : ∀ result : Except ε (List α × List UInt8), result = result.map fun later => ([] ++ later.1, later.2) := by
    intro result
    cases result <;> rfl
  induction fuel generalizing first with
  | zero => exact hnone _
  | succ fuel ih =>
    rw [length_append] at hfuel
    rcases readFrame_cases reader first with ⟨e, herror⟩ | ⟨-, hincomplete⟩ | ⟨text, rest, hlt, hread⟩
    · have hfirst := herror []
      rw [append_nil] at hfirst
      rw [drain, drain, herror second, hfirst]
      rfl
    · -- nothing was complete: the second reading starts over
      have hfirst : drain reader (fuel + 1) first = .ok ([], first) := by rw [drain, hincomplete]
      rw [hfirst]
      exact hnone _
    · have hfirst := hread []
      rw [append_nil, append_nil] at hfirst
      have hwhole : drain reader (fuel + 1) (first ++ second) =
          (drain reader fuel (rest ++ second)).map fun texts => (text :: texts.1, texts.2) := by rw [drain, hread second]
      have hpart : drain reader (fuel + 1) first =
          (drain reader fuel rest).map fun texts => (text :: texts.1, texts.2) := by rw [drain, hfirst]
      rw [hwhole, hpart, ih rest (by rw [length_append]; omega)]
      cases hrest : drain reader fuel rest with
      | error => rfl
      | ok texts =>
        have hleft := (left_of_drain reader (by omega) hrest).1
        have hbuffer : (texts.2 ++ second).length ≤ fuel := by
          rw [length_append]
          omega
        simp only [Except.bind, Except.map]
        rw [drain_fuel reader _ hbuffer (Nat.le_succ_of_le hbuffer)]
        generalize drain reader (fuel + 1) (texts.2 ++ second) = result
        cases result <;> rfl

theorem readFrame_frame {body : List UInt8} {text : α} (hpos : 0 < body.length) (hmax : body.length ≤ reader.maxLength)
    (hwidth : reader.maxLength < 4294967296) (hparse : reader.parse body = .ok text) (rest : List UInt8) :
    readFrame reader (frame body ++ rest) = .ok (some (text, rest)) := by
  have hlength := ofBe32_be32 (n := body.length) (by omega)
  simp only [frame, be32, cons_append, nil_append, readFrame]
  rw [hlength, readBody, if_neg (by omega), if_neg (by rw [length_append]; omega), take_left, hparse, drop_left]

theorem drain_frames (hwidth : reader.maxLength < 4294967296) {bodies : List (List UInt8)} {texts : List α}
    (h : List.Forall₂ (fun body text => 0 < body.length ∧ body.length ≤ reader.maxLength ∧ reader.parse body = .ok text)
      bodies texts) {fuel : Nat} (hfuel : (bodies.map frame).flatten.length ≤ fuel) :
    drain reader fuel (bodies.map frame).flatten = .ok (texts, []) := by
  induction h generalizing fuel with
  | nil => cases fuel <;> rfl
  | @cons body text bodies texts hbody _ ih =>
    obtain ⟨hpos, hmax, hparse⟩ := hbody
    rw [map_cons, flatten_cons] at hfuel ⊢
    have hframe : (frame body).length = 4 + body.length := by
      simp only [frame, be32, length_append, length_cons, length_nil]
    rw [length_append, hframe] at hfuel
    cases fuel with
    | zero => omega
    | succ fuel =>
      rw [drain, readFrame_frame reader hpos hmax hwidth hparse]
      dsimp only
      rw [ih (by omega)]
      rfl

end Reader

end Owc.Framing
