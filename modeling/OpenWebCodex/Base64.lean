import Mathlib.Data.List.Basic
import Mathlib.Tactic.Common
/-!
# Base64 — the standard encoding of bytes in text, with padding

Three bytes are four letters of six bits each; one or two bytes at the end are padded.  A text is decoded only if it is what
some bytes are encoded to.
-/
namespace Owc.Base64

open List

def letters : List Char := "ABCDEFGHIJKLMNOPQRSTUVWXYZabcdefghijklmnopqrstuvwxyz0123456789+/".toList

def encodeSextet (n : Nat) : Char := letters.getD n '='

def decodeSextet (c : Char) : Option Nat := if letters.contains c then some (letters.idxOf c) else none

def encode : List UInt8 → List Char
  | [] => []
  | [a] => [encodeSextet (a.toNat / 4), encodeSextet (a.toNat % 4 * 16), '=', '=']
  | [a, b] =>
    [encodeSextet (a.toNat / 4), encodeSextet (a.toNat % 4 * 16 + b.toNat / 16), encodeSextet (b.toNat % 16 * 4), '=']
  | a :: b :: c :: bytes =>
    encodeSextet (a.toNat / 4) :: encodeSextet (a.toNat % 4 * 16 + b.toNat / 16) ::
      encodeSextet (b.toNat % 16 * 4 + c.toNat / 64) :: encodeSextet (c.toNat % 64) :: encode bytes

/-- The bytes of four letters, the last ones of a text if `last`: there padding is read, and the bits it cuts off are zero. -/
def decodeGroup (last : Bool) (a b c d : Char) : Option (List UInt8) :=
  if last && d == '=' then
    if c == '=' then
      match decodeSextet a, decodeSextet b with
      | some w, some x => if x % 16 = 0 then some [UInt8.ofNat (w * 4 + x / 16)] else none
      | _, _ => none
    else
      match decodeSextet a, decodeSextet b, decodeSextet c with
      | some w, some x, some y =>
        if y % 4 = 0 then some [UInt8.ofNat (w * 4 + x / 16), UInt8.ofNat (x % 16 * 16 + y / 4)] else none
      | _, _, _ => none
  else
    match decodeSextet a, decodeSextet b, decodeSextet c, decodeSextet d with
    | some w, some x, some y, some z =>
      some [UInt8.ofNat (w * 4 + x / 16), UInt8.ofNat (x % 16 * 16 + y / 4), UInt8.ofNat (y % 4 * 64 + z)]
    | _, _, _, _ => none

def decode : List Char → Option (List UInt8)
  | [] => some []
  | a :: b :: c :: d :: text =>
    match decodeGroup text.isEmpty a b c d, decode text with
    | some group, some bytes => some (group ++ bytes)
    | _, _ => none
  | _ => none

set_option maxRecDepth 4000 in
theorem decodeSextet_encodeSextet {n : Nat} (h : n < 64) : decodeSextet (encodeSextet n) = some n := by
  have hall : ∀ i : Fin 64, decodeSextet (encodeSextet i) = some i.val := by decide
  exact hall ⟨n, h⟩

set_option maxRecDepth 4000 in
theorem encodeSextet_ne_pad {n : Nat} (h : n < 64) : encodeSextet n ≠ '=' := by
  have hall : ∀ i : Fin 64, encodeSextet i ≠ '=' := by decide
  exact hall ⟨n, h⟩

theorem ofNat_eq {a : UInt8} {n : Nat} (h : n = a.toNat) : UInt8.ofNat n = a := by
  rw [h]
  exact UInt8.ofNat_toNat

theorem decode_encode : ∀ bytes : List UInt8, decode (encode bytes) = some bytes
  | [] => rfl
  | [a] => by
    have ha := a.toNat_lt
    simp only [encode, decode, isEmpty_nil, decodeGroup, beq_self_eq_true, Bool.and_self, if_true,
      decodeSextet_encodeSextet (show a.toNat / 4 < 64 by omega),
      decodeSextet_encodeSextet (show a.toNat % 4 * 16 < 64 by omega)]
    rw [if_pos (by omega)]
    simp only [append_nil, Option.some.injEq, List.cons.injEq, and_true]
    exact ofNat_eq (by omega)
  | [a, b] => by
    have ha := a.toNat_lt
    have hb := b.toNat_lt
    have hpad := encodeSextet_ne_pad (show b.toNat % 16 * 4 < 64 by omega)
    simp only [encode, decode, isEmpty_nil, decodeGroup, beq_self_eq_true, Bool.and_self, if_true, beq_iff_eq, hpad,
      if_false, decodeSextet_encodeSextet (show a.toNat / 4 < 64 by omega),
      decodeSextet_encodeSextet (show a.toNat % 4 * 16 + b.toNat / 16 < 64 by omega),
      decodeSextet_encodeSextet (show b.toNat % 16 * 4 < 64 by omega)]
    rw [if_pos (by omega)]
    simp only [append_nil, Option.some.injEq, List.cons.injEq, and_true]
    exact ⟨ofNat_eq (by omega), ofNat_eq (by omega)⟩
  | a :: b :: c :: bytes => by
    have ha := a.toNat_lt
    have hb := b.toNat_lt
    have hc := c.toNat_lt
    have hpad := encodeSextet_ne_pad (show c.toNat % 64 < 64 by omega)
    simp only [encode, decode, decodeGroup, decode_encode bytes, beq_iff_eq, hpad, Bool.and_eq_true, and_false, if_false,
      decodeSextet_encodeSextet (show a.toNat / 4 < 64 by omega),
      decodeSextet_encodeSextet (show a.toNat % 4 * 16 + b.toNat / 16 < 64 by omega),
      decodeSextet_encodeSextet (show b.toNat % 16 * 4 + c.toNat / 64 < 64 by omega),
      decodeSextet_encodeSextet (show c.toNat % 64 < 64 by omega)]
    simp only [cons_append, nil_append, Option.some.injEq, List.cons.injEq, and_true]
    exact ⟨ofNat_eq (by omega), ofNat_eq (by omega), ofNat_eq (by omega)⟩

theorem length_decodeGroup_le {last : Bool} {a b c d : Char} {group : List UInt8}
    (h : decodeGroup last a b c d = some group) : group.length ≤ 3 := by
  unfold decodeGroup at h
  split at h
  · split at h <;> split at h <;> first | cases h | (split at h <;> cases h; exact Nat.le_of_ble_eq_true rfl)
  · split at h <;> cases h
    exact Nat.le_refl 3

theorem length_decode_le : ∀ {text : List Char} {bytes : List UInt8}, decode text = some bytes →
    bytes.length ≤ text.length / 4 * 3
  | [], _, h => by cases h; decide
  | a :: b :: c :: d :: text, bytes, h => by
    rw [decode] at h
    split at h
    · rename_i group rest hgroup hrest
      cases h
      have hle := length_decode_le hrest
      have hle' := length_decodeGroup_le hgroup
      simp only [length_append, length_cons]
      omega
    · cases h
  | [_], _, h => nomatch h
  | [_, _], _, h => nomatch h
  | [_, _, _], _, h => nomatch h

theorem length_encode : ∀ bytes : List UInt8, (encode bytes).length = (bytes.length + 2) / 3 * 4
  | [] | [_] | [_, _] => by simp [encode]
  | _ :: _ :: _ :: bytes => by
    simp only [encode, length_cons, length_encode bytes]
    omega

theorem encode_ne_nil {bytes : List UInt8} (h : bytes ≠ []) : encode bytes ≠ [] := by
  have hpos := length_pos_iff.2 h
  rw [← length_pos_iff, length_encode]
  omega

theorem encodeSextet_mem (n : Nat) : encodeSextet n ∈ '=' :: letters := by
  unfold encodeSextet
  rw [getD_eq_getElem?_getD]
  cases h : letters[n]? with
  | none => exact mem_cons_self
  | some => exact mem_cons_of_mem _ (mem_of_getElem? h)

theorem mem_encode {c : Char} : ∀ {bytes : List UInt8}, c ∈ encode bytes → c ∈ '=' :: letters
  | [], h => absurd h not_mem_nil
  | [_], h => by
    simp only [encode, mem_cons, not_mem_nil, or_false] at h
    rcases h with rfl | rfl | rfl | rfl <;> first | exact encodeSextet_mem _ | exact mem_cons_self
  | [_, _], h => by
    simp only [encode, mem_cons, not_mem_nil, or_false] at h
    rcases h with rfl | rfl | rfl | rfl <;> first | exact encodeSextet_mem _ | exact mem_cons_self
  | _ :: _ :: _ :: _, h => by
    simp only [encode, mem_cons] at h
    rcases h with rfl | rfl | rfl | rfl | h
    iterate 4 exact encodeSextet_mem _
    exact mem_encode h

end Owc.Base64
