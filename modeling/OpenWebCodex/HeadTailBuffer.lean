import Mathlib.Algebra.Group.Nat.Defs
import Mathlib.Data.List.DropRight
/-!
# HeadTailBuffer — the capped output of a process

A buffer keeps the first half of its budget and the last half, and counts what it dropped between them.  Whatever the
chunks, merges and drains, it is the buffer of one push of the bytes since the last drain (`buffer_eq_single_push`).
-/

namespace Owc.UnifiedExec

open List

structure HeadTailBuffer where
  maxBytes : Nat
  headBudget : Nat
  tailBudget : Nat
  head : List UInt8
  tail : List UInt8
  omittedBytes : Nat
  deriving DecidableEq

def usizeMax : Nat := 2 ^ 64 - 1

def saturatingAdd (a b : Nat) : Nat := min (a + b) usizeMax

namespace HeadTailBuffer

def new (maxBytes : Nat) : HeadTailBuffer :=
  { maxBytes, headBudget := maxBytes / 2, tailBudget := maxBytes - maxBytes / 2, head := [], tail := [], omittedBytes := 0 }

def retainedBytes (b : HeadTailBuffer) : Nat := saturatingAdd b.head.length b.tail.length

def trimTailToBudget (b : HeadTailBuffer) : HeadTailBuffer :=
  let excess := b.tail.length - b.tailBudget
  if excess > 0 then { b with tail := b.tail.drop excess, omittedBytes := saturatingAdd b.omittedBytes excess } else b

def pushToTail (b : HeadTailBuffer) (chunk : List UInt8) : HeadTailBuffer :=
  if chunk.isEmpty then b
  else if b.tailBudget = 0 then { b with omittedBytes := saturatingAdd b.omittedBytes chunk.length }
  else if chunk.length ≥ b.tailBudget then
    let kept := chunk.drop (chunk.length - b.tailBudget)
    let dropped := chunk.length - kept.length
    { b with
      tail := kept
      omittedBytes := saturatingAdd (saturatingAdd b.omittedBytes b.tail.length) dropped }
  else trimTailToBudget { b with tail := b.tail ++ chunk }

def pushChunk (b : HeadTailBuffer) (chunk : List UInt8) : HeadTailBuffer :=
  if chunk.isEmpty then b
  else if b.maxBytes = 0 then { b with omittedBytes := saturatingAdd b.omittedBytes chunk.length }
  else
    let headLen := min (b.headBudget - b.head.length) chunk.length
    pushToTail { b with head := b.head ++ chunk.take headLen } (chunk.drop headLen)

def drain (b : HeadTailBuffer) : HeadTailBuffer × HeadTailBuffer :=
  (b, { b with head := [], tail := [], omittedBytes := 0 })

def pushBuffer (b buffer : HeadTailBuffer) : HeadTailBuffer :=
  let b := (b.pushChunk buffer.head).pushChunk buffer.tail
  { b with omittedBytes := saturatingAdd b.omittedBytes buffer.omittedBytes }

/-- The buffer of a stream: its first bytes, its last ones, and the count of the others. -/
def keeps (maxBytes : Nat) (stream : List UInt8) : HeadTailBuffer :=
  { new maxBytes with
    head := stream.take (maxBytes / 2)
    tail := (stream.drop (maxBytes / 2)).rtake (maxBytes - maxBytes / 2)
    omittedBytes := min (stream.length - maxBytes) usizeMax }

section Rtake

variable {α : Type} (s t : List α) (m n : Nat)

@[simp]
theorem length_rtake : (s.rtake n).length = min n s.length := by
  simp only [rtake, length_drop]
  omega

theorem rtake_rtake : (s.rtake n).rtake m = s.rtake (min m n) := by
  simp only [rtake, drop_drop, length_drop]
  congr 1
  omega

theorem rtake_append : (s ++ t).rtake n = s.rtake (n - t.length) ++ t.rtake n := by
  simp [rtake_eq_reverse_take_reverse, take_append]

variable {s n} in
theorem rtake_of_length_le (h : s.length ≤ n) : s.rtake n = s := by simp [rtake, Nat.sub_eq_zero_of_le h]

theorem rtake_rtake_append : (s.rtake n ++ t).rtake n = (s ++ t).rtake n := by
  simp [rtake_append, rtake_rtake]

theorem rtake_append_rtake : (s ++ t.rtake n).rtake n = (s ++ t).rtake n := by
  rw [rtake_append, rtake_append, rtake_rtake, min_self, length_rtake]
  congr 2
  omega

end Rtake

/-- All four ways of the tail are one: append the chunk, keep the end, count the rest. -/
theorem pushToTail_eq (b : HeadTailBuffer) (chunk : List UInt8) (htail : b.tail.length ≤ b.tailBudget)
    (homitted : b.omittedBytes ≤ usizeMax) :
    b.pushToTail chunk = { b with
      tail := (b.tail ++ chunk).rtake b.tailBudget
      omittedBytes := saturatingAdd b.omittedBytes ((b.tail ++ chunk).length - b.tailBudget) } := by
  simp only [pushToTail, trimTailToBudget, saturatingAdd, List.isEmpty_iff, length_append, length_drop]
  split_ifs with hempty hbudget hlarge hexcess
  · simp [hempty, Nat.sub_eq_zero_of_le htail, homitted, rtake_of_length_le htail]
  · simp [hbudget, eq_nil_of_length_eq_zero (Nat.le_zero.1 (hbudget ▸ htail))]
  · rw [rtake_append, Nat.sub_eq_zero_of_le hlarge, rtake_zero, nil_append]
    congr 1
    omega
  · rw [rtake, length_append]
  · have hfits : b.tail.length + chunk.length ≤ b.tailBudget := by omega
    rw [rtake_of_length_le (by simpa using hfits), Nat.sub_eq_zero_of_le hfits, Nat.add_zero, Nat.min_eq_left homitted]

theorem pushChunk_keeps (maxBytes : Nat) (stream chunk : List UInt8) :
    (keeps maxBytes stream).pushChunk chunk = keeps maxBytes (stream ++ chunk) := by
  unfold pushChunk
  split_ifs with hempty hmax
  · simp [List.isEmpty_iff.1 hempty]
  · obtain rfl : maxBytes = 0 := hmax
    simp [keeps, new, saturatingAdd]
    omega
  have hcut : min (min (maxBytes / 2 - min (maxBytes / 2) stream.length) chunk.length) chunk.length
      = min (maxBytes / 2 - stream.length) chunk.length := by omega
  rw [pushToTail_eq]
  · simp only [keeps, new, saturatingAdd, rtake_rtake_append, length_append, length_rtake, length_drop, length_take,
      take_append, drop_append, take_eq_take_iff.2 hcut, drop_eq_drop_iff.2 hcut]
    congr 1
    omega
  · exact (length_rtake ..).trans_le (Nat.min_le_left ..)
  · exact Nat.min_le_right ..

/-- What a merge leaves out of the other stream, one push of both streams leaves out too. -/
theorem pushBuffer_keeps (maxBytes : Nat) (stream other : List UInt8) :
    (keeps maxBytes stream).pushBuffer (keeps maxBytes other) = keeps maxBytes (stream ++ other) := by
  simp only [pushBuffer, pushChunk_keeps]
  simp only [keeps, new, saturatingAdd, length_append, length_rtake, length_drop, length_take]
  have homitted (h : Nat) (hle : h ≤ maxBytes) : min (min (stream.length + min h other.length
      + min (maxBytes - h) (other.length - h) - maxBytes) usizeMax + min (other.length - maxBytes) usizeMax) usizeMax
        = min (stream.length + other.length - maxBytes) usizeMax := by omega
  rw [homitted _ (Nat.div_le_self ..)]
  generalize maxBytes / 2 = h
  rcases Nat.le_total other.length h with hshort | hlong
  · simp [take_of_length_le hshort, drop_eq_nil_of_le hshort]
  have hfull : h ≤ (stream ++ other.take h).length := by simp [hlong]
  have hother : stream ++ other = stream ++ other.take h ++ other.drop h := by simp
  rw [hother, take_append_of_le_length hfull, take_append_of_le_length hfull, drop_append_of_le_length hfull,
    drop_append_of_le_length hfull, rtake_append_rtake]

end HeadTailBuffer

open HeadTailBuffer

/-- How a buffer came about: its pushes, the buffers merged into it, and the drains. -/
inductive History
  | new
  | pushChunk (before : History) (chunk : List UInt8)
  | pushBuffer (before other : History)
  | drained (before : History)
  | afterDrain (before : History)

namespace History

def buffer (maxBytes : Nat) : History → HeadTailBuffer
  | new => .new maxBytes
  | pushChunk before chunk => (before.buffer maxBytes).pushChunk chunk
  | pushBuffer before other => (before.buffer maxBytes).pushBuffer (other.buffer maxBytes)
  | drained before => (before.buffer maxBytes).drain.1
  | afterDrain before => (before.buffer maxBytes).drain.2

/-- The bytes pushed since the last drain. -/
def stream : History → List UInt8
  | new => []
  | pushChunk before chunk => before.stream ++ chunk
  | pushBuffer before other => before.stream ++ other.stream
  | drained before => before.stream
  | afterDrain _ => []

theorem keeps_nil (maxBytes : Nat) : keeps maxBytes [] = .new maxBytes := by simp [keeps, HeadTailBuffer.new]

theorem buffer_eq_keeps (maxBytes : Nat) : ∀ history : History, history.buffer maxBytes = keeps maxBytes history.stream
  | new => (keeps_nil maxBytes).symm
  | pushChunk before chunk => by rw [buffer, buffer_eq_keeps maxBytes before, pushChunk_keeps, stream]
  | pushBuffer before other => by
    rw [buffer, buffer_eq_keeps maxBytes before, buffer_eq_keeps maxBytes other, pushBuffer_keeps, stream]
  | drained before => buffer_eq_keeps maxBytes before
  | afterDrain before => by rw [buffer, buffer_eq_keeps maxBytes before, stream, keeps_nil]; rfl

/-- **A buffer is that of a single push of its stream.**  Whatever the chunks, merges and drains, the head is the beginning
of the bytes since the last drain, the tail the end of the others, and the rest is counted, up to the largest `usize`. -/
theorem buffer_eq_single_push (maxBytes : Nat) (history : History) :
    let b := history.buffer maxBytes
    b = (HeadTailBuffer.new maxBytes).pushChunk history.stream ∧
      b.head = history.stream.take b.headBudget ∧ b.tail = (history.stream.drop b.headBudget).rtake b.tailBudget ∧
      b.omittedBytes = min (history.stream.length - b.head.length - b.tail.length) usizeMax ∧
      b.retainedBytes ≤ maxBytes := by
  simp only [buffer_eq_keeps]
  refine ⟨?_, rfl, rfl, ?_, ?_⟩
  · rw [← keeps_nil, pushChunk_keeps, nil_append]
  · simp only [keeps, length_rtake, length_drop, length_take]
    omega
  · simp only [retainedBytes, saturatingAdd, keeps, length_rtake, length_drop, length_take]
    omega

def pushes (chunk : List UInt8) : Nat → History
  | 0 => new
  | n + 1 => pushChunk (pushes chunk n) chunk

theorem length_stream_pushes (chunk : List UInt8) : ∀ n, (pushes chunk n).stream.length = n * chunk.length
  | 0 => by simp [pushes, stream]
  | n + 1 => by rw [pushes, stream, length_append, length_stream_pushes chunk n, Nat.succ_mul]

/-- A buffer of capacity zero that was pushed one byte `2 ^ 64` times has omitted them all, and counts one less. -/
theorem omitted_count_saturates : ((pushes [0] (2 ^ 64)).buffer 0).omittedBytes = 2 ^ 64 - 1 ∧
    (pushes [0] (2 ^ 64)).stream.length = 2 ^ 64 ∧ ((pushes [0] (2 ^ 64)).buffer 0).retainedBytes = 0 := by
  rw [buffer_eq_keeps]
  simp only [keeps, length_stream_pushes, retainedBytes]
  refine ⟨by decide, by decide, ?_⟩
  simp [saturatingAdd]

end History
end Owc.UnifiedExec
