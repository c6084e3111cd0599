import OpenWebCodex.RemoteReassemblyDeliver
import OpenWebCodex.RemoteSplit
/-!
# RemoteSplitSearch — which chunk sizes are tried, and what is found

The sizes that are tried depend on the size of the message alone.  They are the sizes for one segment more each time, as long
as that makes the chunks smaller, and then one byte.
-/
namespace Owc.Remote

open Chunks Nat

/-! ## The sizes that are tried -/

def nextSegmentCount (size segmentCount : Nat) : Nat :=
  let chunkSize := chunkSizeFor size segmentCount
  let next := divCeil size chunkSize + 1
  if chunkSizeFor size next = chunkSize then size else next

/-- The chunk sizes the loop comes to from a segment count if none fits. -/
inductive Tried (size : Nat) : Nat → Nat → Prop
  | now (segmentCount : Nat) : Tried size segmentCount (chunkSizeFor size segmentCount)
  | later {segmentCount chunkSize : Nat} (hne : chunkSizeFor size segmentCount ≠ 1)
      (h : Tried size (nextSegmentCount size segmentCount) chunkSize) : Tried size segmentCount chunkSize

/-- One byte, or the size for a segment count up to which every further segment makes the chunks smaller. -/
def Searched (size chunkSize : Nat) : Prop :=
  chunkSize = 1 ∨ ∃ segmentCount, initialSegmentCount size ≤ segmentCount ∧ chunkSize = divCeil size segmentCount ∧
    (segmentCount = initialSegmentCount size ∨
      ∀ m, initialSegmentCount size ≤ m → m ≤ segmentCount → divCeil size m < divCeil size (m - 1))

theorem chunkSizeFor_eq {size segmentCount} (hsize : 0 < size) (hcount : 0 < segmentCount) :
    chunkSizeFor size segmentCount = divCeil size segmentCount :=
  max_eq_right (divCeil_pos hsize hcount)

theorem chunkSizeFor_pos (size segmentCount : Nat) : 0 < chunkSizeFor size segmentCount :=
  lt_of_lt_of_le one_pos (le_max_left _ _)

theorem chunkSizeFor_self {size} (hsize : 0 < size) : chunkSizeFor size size = 1 := by
  rw [chunkSizeFor_eq hsize hsize]
  have hle := (divCeil_le_iff (n := size) (m := 1) hsize).2 (by omega)
  have hpos := divCeil_pos hsize hsize
  omega

theorem chunkSizeFor_next_lt {size segmentCount} (hsize : 0 < size) (hne : chunkSizeFor size segmentCount ≠ 1) :
    chunkSizeFor size (nextSegmentCount size segmentCount) < chunkSizeFor size segmentCount := by
  have hpos := chunkSizeFor_pos size segmentCount
  unfold nextSegmentCount
  dsimp only
  split
  · rw [chunkSizeFor_self hsize]
    omega
  · next hstep =>
    refine lt_of_le_of_ne ?_ hstep
    rw [chunkSizeFor_eq hsize (succ_pos _), ← divCeil_le_comm hpos (succ_pos _)]
    exact le_succ _

theorem Tried.chunkSize_pos {size segmentCount chunkSize} (h : Tried size segmentCount chunkSize) : 0 < chunkSize := by
  induction h with
  | now segmentCount => exact chunkSizeFor_pos size segmentCount
  | later _ _ ih => exact ih

/-- Where chunks of one more segment are smaller on both sides, the next count is the next number. -/
theorem nextSegmentCount_eq_succ {size n} (hsize : 0 < size) (hn : 1 < n)
    (hbefore : divCeil size n < divCeil size (n - 1)) (hafter : divCeil size (n + 1) < divCeil size n) :
    nextSegmentCount size n = n + 1 := by
  have hpos := divCeil_pos hsize (show 0 < n by omega)
  have hcount : divCeil size (divCeil size n) = n := by
    apply le_antisymm
    · exact (divCeil_le_comm (by omega) hpos).1 (Nat.le_refl _)
    · by_contra hlt
      have hcount := (divCeil_le_comm (n := size) (m := n - 1) hpos (by omega)).1 (by omega)
      omega
  unfold nextSegmentCount
  dsimp only
  rw [chunkSizeFor_eq hsize (by omega : 0 < n), hcount, chunkSizeFor_eq hsize (by omega : 0 < n + 1), if_neg (by omega)]

/-- Where the next count is not the whole size, the count was the least one for its chunk size. -/
theorem shrinks_of_next_ne {size n} (hsize : 0 < size) (hn : 1 < n)
    (hne : chunkSizeFor size (divCeil size (chunkSizeFor size n) + 1) ≠ chunkSizeFor size n) :
    divCeil size n < divCeil size (n - 1) ∧ divCeil size (chunkSizeFor size n) = n ∧
      divCeil size (n + 1) < divCeil size n := by
  rw [chunkSizeFor_eq hsize (by omega : 0 < n), chunkSizeFor_eq hsize (succ_pos _)] at hne
  rw [chunkSizeFor_eq hsize (by omega : 0 < n)]
  have hpos := divCeil_pos hsize (show 0 < n by omega)
  have hle : divCeil size (divCeil size n) ≤ n := (divCeil_le_comm (by omega) hpos).1 (Nat.le_refl _)
  -- a smaller count would have the same chunk size, and so would the one after it
  have hcount : divCeil size (divCeil size n) = n := by
    refine le_antisymm hle (not_lt.1 fun hlt => hne ?_)
    apply le_antisymm
    · exact (divCeil_le_comm hpos (succ_pos _)).1 (le_succ _)
    · exact divCeil_anti (succ_pos _) hlt
  refine ⟨not_le.1 fun hge => ?_, hcount, ?_⟩
  · have hless := (divCeil_le_comm (n := size) (d := n - 1) (m := divCeil size n) (by omega) hpos).1 hge
    omega
  · rw [hcount] at hne
    exact lt_of_le_of_ne (divCeil_anti (by omega) (le_succ n)) hne

theorem tried_one {size} (hsize : 0 < size) (segmentCount : Nat) : Tried size segmentCount 1 := by
  induction hk : chunkSizeFor size segmentCount using Nat.strong_induction_on generalizing segmentCount with
  | _ k ih =>
    by_cases hone : chunkSizeFor size segmentCount = 1
    · rw [← hone]
      exact .now segmentCount
    · have hlt := chunkSizeFor_next_lt hsize hone
      rw [hk] at hlt
      exact .later hone (ih _ hlt _ rfl)

theorem two_le_initialSegmentCount (size : Nat) : 2 ≤ initialSegmentCount size := le_max_left _ _

/-- A count the loop comes to: the first, the whole size, or one up to which every segment made the chunks smaller. -/
def Reached (size segmentCount : Nat) : Prop :=
  segmentCount = initialSegmentCount size ∨ segmentCount = size ∨
    initialSegmentCount size < segmentCount ∧
      ∀ m, initialSegmentCount size ≤ m → m ≤ segmentCount → divCeil size m < divCeil size (m - 1)

section

variable {size : Nat} (hsize : 0 < size)
include hsize

theorem Reached.next {n} (h : Reached size n) (hne : chunkSizeFor size n ≠ 1) : Reached size (nextSegmentCount size n) := by
  have htwo := two_le_initialSegmentCount size
  unfold nextSegmentCount
  dsimp only
  split
  · exact .inr (.inl rfl)
  · next hstep =>
    have hinit : initialSegmentCount size ≤ n := by
      rcases h with rfl | rfl | ⟨hlt, -⟩
      · exact Nat.le_refl _
      · exact absurd (chunkSizeFor_self hsize) hne
      · omega
    obtain ⟨hbefore, hcount, hafter⟩ := shrinks_of_next_ne hsize (by omega) hstep
    rw [hcount]
    refine .inr (.inr ⟨by omega, fun m hm hle => ?_⟩)
    rcases lt_or_ge n m with hlt | hge
    · obtain rfl : m = n + 1 := by omega
      exact hafter
    rcases h with rfl | rfl | ⟨-, hall⟩
    · obtain rfl : m = initialSegmentCount size := by omega
      exact hbefore
    · exact absurd (chunkSizeFor_self hsize) hne
    · exact hall m hm hge

theorem Reached.searched {n} (h : Reached size n) : Searched size (chunkSizeFor size n) := by
  have htwo := two_le_initialSegmentCount size
  rcases h with rfl | rfl | ⟨hlt, hall⟩
  · exact .inr ⟨_, Nat.le_refl _, chunkSizeFor_eq hsize (by omega), .inl rfl⟩
  · exact .inl (chunkSizeFor_self hsize)
  · exact .inr ⟨n, by omega, chunkSizeFor_eq hsize (by omega), .inr hall⟩

theorem Tried.searched (h : Tried size segmentCount chunkSize)
    (hreached : Reached size segmentCount) : Searched size chunkSize := by
  induction h with
  | now => exact hreached.searched hsize
  | later hne _ ih => exact ih (hreached.next hsize hne)

theorem tried_of_shrinking {n chunkSize} (hinit : initialSegmentCount size ≤ n)
    (hall : ∀ m, initialSegmentCount size ≤ m → m ≤ n → divCeil size m < divCeil size (m - 1)) (h : Tried size n chunkSize) :
    Tried size (initialSegmentCount size) chunkSize := by
  have htwo := two_le_initialSegmentCount size
  induction n, hinit using le_induction with
  | base => exact h
  | succ n hn ih =>
    have hbefore := hall n hn (le_succ n)
    have hafter := hall (n + 1) (by omega) (Nat.le_refl _)
    rw [Nat.add_sub_cancel] at hafter
    have hpos := divCeil_pos hsize (show 0 < n + 1 by omega)
    refine ih (fun m hm hle => hall m hm (by omega)) (.later ?_ ?_)
    · rw [chunkSizeFor_eq hsize (by omega)]
      omega
    · rwa [nextSegmentCount_eq_succ hsize (by omega) hbefore hafter]

theorem tried_iff {chunkSize} : Tried size (initialSegmentCount size) chunkSize ↔ Searched size chunkSize := by
  have htwo := two_le_initialSegmentCount size
  refine ⟨fun h => h.searched hsize (.inl rfl), ?_⟩
  rintro (rfl | ⟨n, hinit, rfl, rfl | hall⟩)
  · exact tried_one hsize _
  · rw [← chunkSizeFor_eq hsize (by omega)]
    exact .now _
  · refine tried_of_shrinking hsize hinit hall ?_
    rw [← chunkSizeFor_eq hsize (by omega)]
    exact .now _

end

/-! ## The loop -/

section Loop

variable {Message : Type} (serializer : Serializer Message) (envelope : ServerEnvelope Message) (raw : List UInt8)

def chunkEnvelope (envelope : ServerEnvelope Message) (segmentId segmentCount messageSizeBytes : Nat) (text : Str) :
    ServerEnvelope Message :=
  { envelope with event := .serverMessageChunk segmentId segmentCount messageSizeBytes text }

/-- **A chunk size fits**: there are not too many chunks, and each fits the wire. -/
def ChunksFit (chunkSize : Nat) : Prop :=
  (chunksOf chunkSize raw).length ≤ segmentCountMax ∧
    ∀ chunk ∈ (chunksOf chunkSize raw).zipIdx,
      serializedLen serializer
        (chunkEnvelope envelope chunk.2 (chunksOf chunkSize raw).length raw.length (Base64.encode chunk.1)) ≤ segmentMaxBytes

def segmentsOf (chunkSize : Nat) : List (ServerEnvelope Message) :=
  (chunksOf chunkSize raw).zipIdx.map (fun chunk =>
    chunkEnvelope envelope chunk.2 (chunksOf chunkSize raw).length raw.length (Base64.encode chunk.1))

theorem buildChunkEnvelope_of_le (h : segmentCount ≤ segmentCountMax) (segmentId size : Nat)
    (chunk : List UInt8) : buildChunkEnvelope envelope segmentId segmentCount size chunk =
      .ok (chunkEnvelope envelope segmentId segmentCount size (Base64.encode chunk)) :=
  if_neg (not_lt.2 h)

theorem segmentsFit_iff (hraw : 0 < raw.length) (hsize : 0 < chunkSize) :
    segmentsFit serializer envelope raw chunkSize = true ↔ ChunksFit serializer envelope raw chunkSize := by
  unfold segmentsFit ChunksFit
  rw [List.all_eq_true, length_chunksOf]
  by_cases hcount : divCeil raw.length chunkSize ≤ segmentCountMax
  · simp only [serializedChunkLen, buildChunkEnvelope_of_le envelope hcount, Except.map, isOkAnd, decide_eq_true_eq, hcount,
      true_and]
  -- a message has a chunk, which cannot be built
  refine iff_of_false (fun hall => ?_) fun h => hcount h.1
  have hfirst := getElem?_chunksOf raw (divCeil_pos hraw hsize)
  have hmem := List.mk_mem_zipIdx_iff_getElem?.2 hfirst
  have hfit := hall _ hmem
  rw [serializedChunkLen, buildChunkEnvelope, if_pos (not_le.1 hcount)] at hfit
  exact absurd hfit Bool.false_ne_true

theorem buildSegments_of_fits (h : ChunksFit serializer envelope raw chunkSize) :
    buildSegments envelope raw chunkSize = .ok (segmentsOf envelope raw chunkSize) := by
  have hcount := h.1
  rw [length_chunksOf] at hcount
  unfold buildSegments segmentsOf
  simp only [buildChunkEnvelope_of_le envelope hcount, length_chunksOf]
  exact List.mapM_pure

/-- **The loop ends**: with the segments of a size it tried, or with none if no size it tries fits. -/
theorem splitLoop_eq (hraw : 0 < raw.length) (fuel segmentCount : Nat) (hfuel : chunkSizeFor raw.length segmentCount ≤ fuel) :
    (∃ chunkSize, Tried raw.length segmentCount chunkSize ∧ ChunksFit serializer envelope raw chunkSize ∧
      splitLoop serializer envelope raw fuel segmentCount = some (.ok (segmentsOf envelope raw chunkSize))) ∨
    (∀ chunkSize, Tried raw.length segmentCount chunkSize → ¬ChunksFit serializer envelope raw chunkSize) ∧
      splitLoop serializer envelope raw fuel segmentCount = some (.ok []) := by
  have hpos := chunkSizeFor_pos raw.length segmentCount
  induction fuel generalizing segmentCount with
  | zero => omega
  | succ fuel ih =>
    rw [splitLoop]
    by_cases hfits : ChunksFit serializer envelope raw (chunkSizeFor raw.length segmentCount)
    · rw [if_pos ((segmentsFit_iff serializer envelope raw hraw hpos).2 hfits), buildSegments_of_fits serializer envelope raw hfits]
      exact .inl ⟨_, .now segmentCount, hfits, rfl⟩
    rw [if_neg (mt (segmentsFit_iff serializer envelope raw hraw hpos).1 hfits)]
    split
    · next hone =>
      refine .inr ⟨fun chunkSize htried => ?_, rfl⟩
      cases htried with
      | now => exact hfits
      | later hne => exact absurd hone hne
    · next hone =>
      -- the chunks shrink, so the fuel lasts for the rest
      have hlt := chunkSizeFor_next_lt hraw hone
      have hrest := ih (nextSegmentCount raw.length segmentCount) (by omega) (chunkSizeFor_pos _ _)
      rcases hrest with ⟨chunkSize, htried, hchunkFits, heq⟩ | ⟨hnone, heq⟩
      · exact .inl ⟨chunkSize, .later hone htried, hchunkFits, heq⟩
      refine .inr ⟨fun chunkSize htried => ?_, heq⟩
      cases htried with
      | now => exact hfits
      | later _ hlater => exact hnone chunkSize hlater

end Loop

end Owc.Remote
