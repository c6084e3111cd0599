import OpenWebCodex.Arrivals
import OpenWebCodex.NoiseRelay
/-!
# NoiseRelayOrder — what the reorder buffer holds and releases

In every state the buffer counts its bytes and holds only numbers of the window above the next one.  As long as no frame
exceeds the window or the budget, it holds exactly the first copies that wait, and has released the others in order.
-/
namespace Owc.Noise

open List Table Nat OrderedCiphertextFrames

namespace OrderedCiphertextFrames

open Arrivals

/-! ## Every state -/

/-- The records that wait are numbered from `low` to the end of the window, and counted. -/
structure Within (frames : OrderedCiphertextFrames) (low : Nat) : Prop where
  distinct : frames.pending.Distinct
  bytes : frames.pendingBytes = frames.pending.weigh List.length
  budget : frames.pendingBytes ≤ maxPendingBytes
  window : ∀ seq payload, frames.pending.get seq = some payload → low ≤ seq ∧ seq ≤ frames.nextSeq + maxReorderDistance

/-- **What holds of the buffer between two calls.** -/
def Bounded (frames : OrderedCiphertextFrames) : Prop := frames.Within (frames.nextSeq + 1)

section Within

variable {frames : OrderedCiphertextFrames}

theorem bounded_empty : Bounded {} := ⟨nodup_nil, rfl, zero_le _, nofun⟩

theorem Within.bounded (h : frames.Within frames.nextSeq) (hnone : frames.pending.get frames.nextSeq = none) :
    frames.Bounded := by
  refine ⟨h.distinct, h.bytes, h.budget, fun seq payload hget => ?_⟩
  obtain ⟨hlow, hhigh⟩ := h.window seq payload hget
  refine ⟨lt_of_le_of_ne hlow ?_, hhigh⟩
  rintro rfl
  rw [hnone] at hget
  cases hget

theorem Within.takePending (h : frames.Within frames.nextSeq)
    (hget : frames.pending.get frames.nextSeq = some payload) : (frames.takePending payload).Bounded := by
  have hweigh := weigh_erase List.length h.distinct hget
  have hbytes := h.bytes
  have hbudget := h.budget
  unfold OrderedCiphertextFrames.takePending
  refine ⟨h.distinct.filter _, by dsimp only; omega, by dsimp only; omega, fun seq other hother => ?_⟩
  dsimp only at hother ⊢
  rw [get_erase] at hother
  split at hother
  · cases hother
  · obtain ⟨hlow, hhigh⟩ := h.window seq other hother
    exact ⟨by omega, hhigh⟩

theorem Within.advance (h : frames.Within (frames.nextSeq + 1)) {next}
    (hadvance : frames.advance = .ok next) : next.Within next.nextSeq := by
  unfold OrderedCiphertextFrames.advance at hadvance
  split at hadvance <;> cases hadvance
  refine ⟨h.distinct, h.bytes, h.budget, fun seq payload hget => ?_⟩
  obtain ⟨hlow, hhigh⟩ := h.window seq payload hget
  exact ⟨hlow, by dsimp only; omega⟩

theorem release_bounded {fuel} (h : frames.Within frames.nextSeq) (hfuel : frames.pending.length ≤ fuel)
    (ready : List (List UInt8)) : (release fuel frames ready).1.Bounded := by
  induction fuel generalizing frames ready with
  | zero =>
    have hnil : frames.pending = [] := length_eq_zero_iff.1 (le_zero.1 hfuel)
    exact h.bounded (by rw [hnil]; rfl)
  | succ fuel ih =>
    rw [release]
    cases hget : frames.pending.get frames.nextSeq with
    | none => exact h.bounded hget
    | some payload =>
      have htaken := h.takePending hget
      dsimp only
      cases hadvance : (frames.takePending payload).advance with
      | error => exact htaken
      | ok next =>
        have hlength : (frames.pending.erase frames.nextSeq).length < frames.pending.length :=
          length_erase_lt (by rw [hget]; rfl)
        refine ih (Within.advance htaken hadvance) ?_ _
        unfold advance at hadvance
        split at hadvance <;> cases hadvance
        simp only [takePending]
        omega

theorem push_bounded (h : frames.Bounded) (seq : Nat) (payload : List UInt8) : (frames.push seq payload).1.Bounded := by
  unfold push
  split
  · exact h
  · next hnew =>
    have hnone : frames.pending.get seq = none := by
      rw [not_or, Option.not_isSome_iff_eq_none] at hnew
      exact hnew.2
    split
    · next hlt =>
      split
      · exact h
      · next hnear =>
        split
        · exact h
        · next hroom =>
          have hbytes := h.bytes
          refine ⟨?_, ?_, by dsimp only; omega, fun other waits hother => ?_⟩
          · rw [put_of_get_none payload hnone]
            exact h.distinct.append hnone payload
          · dsimp only
            rw [put_of_get_none payload hnone, weigh_append]
            omega
          · dsimp only at hother ⊢
            rw [get_put] at hother
            split at hother
            · next heq => exact ⟨by omega, by omega⟩
            · exact h.window other waits hother
    · cases hadvance : frames.advance with
      | error => exact h
      | ok next =>
        have hlength : next.pending.length = frames.pending.length := by
          unfold advance at hadvance
          split at hadvance <;> cases hadvance
          rfl
        exact release_bounded (Within.advance h hadvance) (le_of_eq hlength) _

end Within

/-! ## Within the window -/

structure After (arrivals : List (Nat × List UInt8)) (frames : OrderedCiphertextFrames) : Prop where
  next : IsNext arrivals frames.nextSeq
  pending : frames.pending = waiting arrivals (frames.nextSeq + 1)
  bounded : frames.Bounded

theorem after_nil : After [] {} where
  next := ⟨fun _ h => absurd h (not_lt_zero _), rfl⟩
  pending := rfl
  bounded := bounded_empty

/-- **A frame within the window and the budget**, after those that arrived before it. -/
def FrameFits (arrivals : List (Nat × List UInt8)) (seq : Nat) (payload : List UInt8) : Prop :=
  ∀ next, IsNext arrivals next → next < seq → firstCopy arrivals seq = none →
    seq - next ≤ maxReorderDistance ∧
      (waiting arrivals (next + 1)).weigh List.length + payload.length ≤ maxPendingBytes

/-- **Every frame stays within the window and the budget**, and no number is the last of a `u32`, which a writer never uses. -/
structure InWindow (arrivals : List (Nat × List UInt8)) : Prop where
  fits : ∀ before seq payload later, arrivals = before ++ (seq, payload) :: later → FrameFits before seq payload
  limit : ∀ arrival ∈ arrivals, arrival.1 + 1 < seqLimit

variable {arrivals : List (Nat × List UInt8)}

theorem isNext_of_get_none {frames : OrderedCiphertextFrames} (hbelow : ∀ seq < frames.nextSeq, (firstCopy arrivals seq).isSome)
    (hpending : frames.pending = waiting arrivals frames.nextSeq) (hnone : frames.pending.get frames.nextSeq = none) :
    IsNext arrivals frames.nextSeq ∧ frames.pending = waiting arrivals (frames.nextSeq + 1) := by
  have hmissing : firstCopy arrivals frames.nextSeq = none := by
    rw [hpending, get_waiting, if_pos (le_refl _)] at hnone
    exact hnone
  refine ⟨⟨hbelow, hmissing⟩, ?_⟩
  rw [← erase_waiting, ← hpending, erase_of_get_none hnone]

theorem release_eq (hlimit : ∀ seq, (firstCopy arrivals seq).isSome → seq + 1 < seqLimit)
    {fuel : Nat} (frames : OrderedCiphertextFrames) (hbelow : ∀ seq < frames.nextSeq, (firstCopy arrivals seq).isSome)
    (hpending : frames.pending = waiting arrivals frames.nextSeq) (hfuel : frames.pending.length ≤ fuel)
    (ready : List (List UInt8)) :
    ∃ count, (release fuel frames ready).2 = .ok (ready ++ copies arrivals frames.nextSeq count) ∧
      (release fuel frames ready).1.nextSeq = frames.nextSeq + count ∧
      IsNext arrivals (release fuel frames ready).1.nextSeq ∧
      (release fuel frames ready).1.pending = waiting arrivals ((release fuel frames ready).1.nextSeq + 1) := by
  induction fuel generalizing frames ready with
  | zero =>
    have hnil : frames.pending = [] := length_eq_zero_iff.1 (le_zero.1 hfuel)
    obtain ⟨hnext, hrest⟩ := isNext_of_get_none hbelow hpending (by rw [hnil]; rfl)
    exact ⟨0, (congrArg Except.ok (append_nil ready)).symm, rfl, hnext, hrest⟩
  | succ fuel ih =>
    rw [release]
    cases hget : frames.pending.get frames.nextSeq with
    | none =>
      obtain ⟨hnext, hrest⟩ := isNext_of_get_none hbelow hpending hget
      exact ⟨0, (congrArg Except.ok (append_nil ready)).symm, rfl, hnext, hrest⟩
    | some payload =>
      have hcopy : firstCopy arrivals frames.nextSeq = some payload := by
        rw [hpending, get_waiting, if_pos (le_refl _)] at hget
        exact hget
      have hadvance : (frames.takePending payload).advance =
          .ok { frames.takePending payload with nextSeq := frames.nextSeq + 1 } :=
        if_pos (hlimit frames.nextSeq (by rw [hcopy]; rfl))
      have hlength : (frames.pending.erase frames.nextSeq).length < frames.pending.length :=
        length_erase_lt (by rw [hget]; rfl)
      dsimp only
      rw [hadvance]
      have hbelowNext := Nat.forall_lt_succ_right.2 ⟨hbelow, by rw [hcopy]; rfl⟩
      have hpendingNext : frames.pending.erase frames.nextSeq = waiting arrivals (frames.nextSeq + 1) := by
        rw [hpending, erase_waiting]
      obtain ⟨count, hok, hseq, hnext, hrest⟩ := ih { frames.takePending payload with
        nextSeq := frames.nextSeq + 1 } hbelowNext hpendingNext (le_of_lt_succ (lt_of_lt_of_le hlength hfuel))
        (ready ++ [payload])
      refine ⟨count + 1, ?_, ?_, hnext, hrest⟩
      · rw [hok, copies_succ hcopy, append_assoc]
        rfl
      · rw [hseq]
        dsimp only
        omega

section

variable {frames : OrderedCiphertextFrames}

/-- **A frame that fits is taken**: a later copy changes nothing, a frame ahead waits, and the next one is released with those
that follow it. -/
theorem After.push (h : After arrivals frames)
    (hlimit : ∀ arrival ∈ arrivals ++ [(seq, payload)], arrival.1 + 1 < seqLimit) (hfits : FrameFits arrivals seq payload) :
    ∃ count, (frames.push seq payload).2 = .ok (copies (arrivals ++ [(seq, payload)]) frames.nextSeq count) ∧
      (frames.push seq payload).1.nextSeq = frames.nextSeq + count ∧
      After (arrivals ++ [(seq, payload)]) (frames.push seq payload).1 := by
  have hbounded := push_bounded h.bounded seq payload
  have hseen : (firstCopy arrivals seq).isSome ↔ seq < frames.nextSeq ∨ (frames.pending.get seq).isSome := by
    rw [h.pending, get_waiting]
    rcases Nat.lt_trichotomy seq frames.nextSeq with hlt | rfl | hgt
    · simp [hlt, h.next.below seq hlt]
    · simp [h.next.missing]
    · simp [hgt, Nat.lt_asymm hgt]
  unfold OrderedCiphertextFrames.push at hbounded ⊢
  by_cases hduplicate : seq < frames.nextSeq ∨ (frames.pending.get seq).isSome
  · have hsome := hseen.2 hduplicate
    rw [if_pos hduplicate] at hbounded ⊢
    have hne : seq ≠ frames.nextSeq := by
      rintro rfl
      simp [h.next.missing] at hsome
    exact ⟨0, rfl, rfl, h.next.append_of_ne hne payload, h.pending.trans (waiting_append_of_isSome hsome _ _).symm, hbounded⟩
  · have hnone : firstCopy arrivals seq = none := Option.not_isSome_iff_eq_none.1 (mt hseen.1 hduplicate)
    rw [if_neg hduplicate] at hbounded ⊢
    by_cases hahead : frames.nextSeq < seq
    · obtain ⟨hnear, hroom⟩ := hfits _ h.next hahead hnone
      rw [← h.pending, ← h.bounded.bytes] at hroom
      rw [if_pos hahead, if_neg (not_lt.2 hnear), if_neg (not_lt.2 hroom)] at hbounded ⊢
      refine ⟨0, rfl, rfl, h.next.append_of_ne (ne_of_gt hahead) payload, ?_, hbounded⟩
      rw [waiting_append_of_le hnone hahead, ← h.pending]
      refine put_of_get_none payload ?_
      rw [not_or, Option.not_isSome_iff_eq_none] at hduplicate
      exact hduplicate.2
    · obtain rfl : seq = frames.nextSeq := by
        rw [not_or] at hduplicate
        omega
      have hadvance : frames.advance = .ok { frames with nextSeq := frames.nextSeq + 1 } :=
        if_pos (hlimit _ (mem_append_right _ mem_cons_self))
      rw [if_neg hahead, hadvance] at hbounded ⊢
      have hcopy : firstCopy (arrivals ++ [(frames.nextSeq, payload)]) frames.nextSeq = some payload := by
        rw [firstCopy_append, hnone, if_pos rfl]
        rfl
      have hbelow := Nat.forall_lt_succ_right.2 ⟨h.next.isSome_append [(frames.nextSeq, payload)], by rw [hcopy]; rfl⟩
      have hlimitNext : ∀ number, (firstCopy (arrivals ++ [(frames.nextSeq, payload)]) number).isSome →
          number + 1 < seqLimit := by
        intro number hsome
        obtain ⟨copy, hget⟩ := Option.isSome_iff_exists.1 hsome
        exact hlimit _ (mem_of_get hget)
      have hpending : frames.pending = waiting (arrivals ++ [(frames.nextSeq, payload)]) (frames.nextSeq + 1) := by
        rw [waiting_append_of_lt hnone (lt_succ_self _)]
        exact h.pending
      obtain ⟨count, hok, hseq, hnext, hrest⟩ := release_eq hlimitNext
        { frames with nextSeq := frames.nextSeq + 1 } hbelow hpending (le_refl _) [payload]
      refine ⟨count + 1, ?_, ?_, hnext, hrest, hbounded⟩
      · rw [copies_succ hcopy]
        exact hok
      · rw [hseq]
        dsimp only
        omega

theorem pushAll_bounded (h : frames.Bounded) (arrivals : List (Nat × List UInt8)) : (frames.pushAll arrivals).1.Bounded := by
  induction arrivals generalizing frames with
  | nil => exact h
  | cons arrival arrivals ih =>
    obtain ⟨seq, payload⟩ := arrival
    have hpushed := push_bounded h seq payload
    rw [pushAll]
    cases hpush : frames.push seq payload with
    | mk next result =>
      rw [hpush] at hpushed
      cases result with
      | error => exact hpushed
      | ok => exact ih hpushed

/-- **Arrivals within the window are released in order.** -/
theorem After.pushAll (h : After before frames) (hwindow : InWindow (before ++ arrivals)) :
    ∃ count, (frames.pushAll arrivals).2 = .ok (copies (before ++ arrivals) frames.nextSeq count) ∧
      IsNext (before ++ arrivals) (frames.nextSeq + count) := by
  induction arrivals generalizing before frames with
  | nil => exact ⟨0, rfl, by rw [append_nil]; exact h.next⟩
  | cons arrival arrivals ih =>
    obtain ⟨seq, payload⟩ := arrival
    have hsplit : before ++ (seq, payload) :: arrivals = before ++ [(seq, payload)] ++ arrivals := by simp
    obtain ⟨count, hready, hseq, hafter⟩ := h.push
      (fun other hmem => hwindow.limit other (by rw [hsplit]; exact mem_append_left _ hmem))
      (hwindow.fits before seq payload arrivals rfl)
    rw [hsplit] at hwindow ⊢
    obtain ⟨more, hrest, hnext⟩ := ih hafter hwindow
    rw [pushAll]
    cases hpush : frames.push seq payload with
    | mk =>
      rw [hpush] at hready hseq hrest hnext hafter
      subst hready
      refine ⟨count + more, ?_, ?_⟩
      · dsimp only
        rw [hrest, copies_add, hseq]
        refine congrArg (fun ready => Except.ok (ready ++ _)) ?_
        exact (copies_append (hseq ▸ hafter.next.below) arrivals).symm
      · rw [← add_assoc, ← hseq]
        exact hnext

end

end OrderedCiphertextFrames
end Owc.Noise
