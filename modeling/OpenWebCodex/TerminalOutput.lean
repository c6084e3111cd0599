import Mathlib.Algebra.Order.BigOperators.Group.List
import OpenWebCodex.Base64
import OpenWebCodex.ProjectFrame
/-!
# TerminalOutput — what the browser is shown of a terminal

`persist_terminal_frame` of `event_projection.rs` decodes the bytes of each output delta on their own, so a character that
two deltas share is shown as replacement characters.
-/
namespace Owc.Projection

open List

/-! ## `String::from_utf8_lossy` -/

/-- `utf8_char_width`: 0 for a byte that begins no character. -/
def charWidth (b : UInt8) : Nat :=
  if b < 0x80 then 1 else if b < 0xC2 then 0 else if b < 0xE0 then 2 else if b < 0xF0 then 3 else if b < 0xF5 then 4 else 0

/-- Whether a continuation byte may stand next to the lead byte `b₀`. -/
def second (b₀ b₁ : UInt8) : Bool :=
  (b₀ != 0xE0 || 0xA0 ≤ b₁) && (b₀ != 0xED || b₁ ≤ 0x9F) && (b₀ != 0xF0 || 0x90 ≤ b₁) && (b₀ != 0xF4 || b₁ ≤ 0x8F)

/-- The bytes that belong to the lead byte `b₀` of those that follow it. -/
def charTail (b₀ : UInt8) (bytes : List UInt8) : List UInt8 :=
  if bytes.head?.all (second b₀) then (bytes.takeWhile isContinuation).take (charWidth b₀ - 1) else []

def leadBase (width : Nat) : Nat := [0, 0, 0xC0, 0xE0, 0xF0].getD width 0

def lossyChar (b₀ : UInt8) (tail : List UInt8) : Char :=
  if tail.length + 1 = charWidth b₀ then decodeChar (b₀.toNat - leadBase (charWidth b₀)) tail else '�'

/-- The text of the bytes after the first `skip`, with one replacement character for each broken character. -/
def lossy (skip : Nat) : List UInt8 → Str
  | [] => []
  | b :: bytes =>
    match skip with
    | 0 => lossyChar b (charTail b bytes) :: lossy (charTail b bytes).length bytes
    | skip + 1 => lossy skip bytes

theorem lossy_drop : ∀ (skip : Nat) (bytes : List UInt8), lossy skip bytes = lossy 0 (bytes.drop skip)
  | _, [] => by simp [lossy]
  | 0, _ :: _ => rfl
  | skip + 1, _ :: bytes => lossy_drop skip bytes

theorem charTail_eq_take (b : UInt8) (bytes : List UInt8) : charTail b bytes = bytes.take (charTail b bytes).length := by
  unfold charTail
  split
  · exact prefix_iff_eq_take.1 ((List.take_prefix _ _).trans (List.takeWhile_prefix _))
  · rfl

theorem isContinuation_of_mem_charTail (h : x ∈ charTail b bytes) : isContinuation x := by
  unfold charTail at h
  split at h
  · exact mem_takeWhile_imp (mem_of_mem_take h)
  · simp at h

/-- The bytes do not begin inside a character. -/
def StartsWhole (bytes : List UInt8) : Prop := bytes.takeWhile isContinuation = []

theorem charTail_append (b : UInt8) (bytes : List UInt8) (h : StartsWhole rest) :
    charTail b (bytes ++ rest) = charTail b bytes := by
  unfold charTail
  cases bytes with
  | nil => simp [show rest.takeWhile isContinuation = [] from h]
  | cons b₁ bytes =>
    have hw : ((b₁ :: bytes) ++ rest).takeWhile isContinuation = (b₁ :: bytes).takeWhile isContinuation := by
      rw [takeWhile_append, show rest.takeWhile isContinuation = [] from h, append_nil]
      split
      · exact ((List.takeWhile_prefix _).eq_of_length ‹_›).symm
      · rfl
    rw [hw]
    rfl

/-- `bytes` after the lead byte `b` begin with a whole character of `text`. -/
def ReadsChar (b : UInt8) (bytes : List UInt8) (text : Str) : Prop :=
  (charTail b bytes).length + 1 = charWidth b ∧
    ∃ rest, text = lossyChar b (charTail b bytes) :: rest ∧ fromUtf8 (bytes.drop (charTail b bytes).length) = some rest

theorem readsChar_append {text : Str} (tail : List UInt8) (hw : charWidth b = tail.length + 1)
    (hc : tail.head?.all (second b) && tail.all isContinuation)
    (h : (fromUtf8 bytes).map (decodeChar (b.toNat - leadBase (tail.length + 1)) tail :: ·) = some text) :
    ReadsChar b (tail ++ bytes) text := by
  have ht : charTail b (tail ++ bytes) = tail := by
    cases tail with
    | nil => simp [charTail, hw]
    | cons =>
      simp only [Bool.and_eq_true, all_eq_true] at hc
      simp_all [charTail, takeWhile_append_of_pos]
  obtain ⟨rest, hr, rfl⟩ := Option.map_eq_some_iff.1 h
  simp [ReadsChar, ht, lossyChar, hw, hr]

theorem fromUtf8_cons {text : Str} (h : fromUtf8 (b :: bytes) = some text) : ReadsChar b bytes text := by
  unfold fromUtf8 at h
  repeat' split at h
  all_goals try cases h
  all_goals cases ‹b :: bytes = _›
  · exact readsChar_append [] (if_pos ‹_›) rfl rfl
  · exact readsChar_append [] (if_pos ‹_›) rfl h
  · exact readsChar_append [_] (by grind [charWidth]) (by grind [second]) h
  · exact readsChar_append [_, _] (by grind [charWidth]) (by grind [second]) h
  · exact readsChar_append [_, _, _] (by grind [charWidth]) (by grind [second]) h

/-! ## Cuts -/

def leads (bytes : List UInt8) : Nat := bytes.countP (!isContinuation ·)

theorem leads_drop_charTail (b : UInt8) (bytes : List UInt8) :
    leads (bytes.drop (charTail b bytes).length) = leads bytes := by
  have h : leads (charTail b bytes) = 0 := countP_eq_zero.2 fun x hx => by simp [isContinuation_of_mem_charTail hx]
  conv_rhs => rw [← take_append_drop (charTail b bytes).length bytes, ← charTail_eq_take]
  simp [leads, ← h, countP_append]

theorem leads_le_length_lossy : ∀ bytes : List UInt8,
    leads bytes ≤ (lossy 0 bytes).length ∧ (¬StartsWhole bytes → leads bytes < (lossy 0 bytes).length)
  | [] => ⟨Nat.le_refl 0, nofun⟩
  | b :: bytes => by
    have ih := (leads_le_length_lossy (bytes.drop (charTail b bytes).length)).1
    rw [leads_drop_charTail, ← lossy_drop] at ih
    by_cases hb : isContinuation b <;> simp [leads, lossy, StartsWhole, hb] at ih ⊢ <;> omega
termination_by bytes => bytes.length
decreasing_by simp

theorem length_le_leads : ∀ {bytes : List UInt8} {text : Str}, fromUtf8 bytes = some text → text.length ≤ leads bytes
  | [], text, h => by simp_all [fromUtf8]
  | b :: bytes, text, h => by
    obtain ⟨hw, rest, rfl, hr⟩ := fromUtf8_cons h
    have ih := length_le_leads hr
    have hb : isContinuation b = false := by grind [isContinuation, charWidth]
    rw [leads_drop_charTail] at ih
    simpa [leads, hb] using ih
termination_by bytes => bytes.length
decreasing_by simp

/-- Where the next delta begins with a whole character, a delta is decoded as its part of the stream. -/
theorem fromUtf8_append : ∀ {bytes : List UInt8} {text : Str}, StartsWhole rest →
    fromUtf8 (bytes ++ rest) = some text → ∃ shown, text = lossy 0 bytes ++ shown ∧ fromUtf8 rest = some shown
  | [], text, _, h => ⟨text, rfl, h⟩
  | b :: bytes, text, hs, h => by
    rw [cons_append] at h
    obtain ⟨-, text, rfl, hr⟩ := fromUtf8_cons h
    rw [charTail_append b bytes hs] at hr ⊢
    have hle := congrArg length (charTail_eq_take b bytes)
    rw [drop_append_of_le_length (by simp at hle; omega)] at hr
    obtain ⟨shown, rfl, hshown⟩ := fromUtf8_append hs hr
    exact ⟨shown, by rw [← lossy_drop]; rfl, hshown⟩
termination_by bytes => bytes.length
decreasing_by simp

theorem startsWhole_flatten : ∀ {deltas : List (List UInt8)}, (∀ delta ∈ deltas, StartsWhole delta) →
    StartsWhole deltas.flatten
  | [], _ => rfl
  | [] :: deltas, h => by
    have ih := startsWhole_flatten fun delta hd => h delta (.tail _ hd)
    simpa using ih
  | (b :: bytes) :: _, h => by
    have hb := h _ (.head _)
    simp_all [StartsWhole]

theorem lossy_deltas : ∀ {deltas : List (List UInt8)} {text : Str}, (∀ delta ∈ deltas, StartsWhole delta) →
    fromUtf8 deltas.flatten = some text → deltas.flatMap (lossy 0) = text
  | [], _, _, h => by simpa [fromUtf8] using h
  | delta :: deltas, text, hd, h => by
    have hds := fun x hx => hd x (.tail delta hx)
    obtain ⟨shown, rfl, hs⟩ := fromUtf8_append (startsWhole_flatten hds) h
    rw [flatMap_cons, lossy_deltas hds hs]

theorem lossy_deltas_iff {text : Str} {deltas : List (List UInt8)} (h : fromUtf8 deltas.flatten = some text) :
    deltas.flatMap (lossy 0) = text ↔ ∀ delta ∈ deltas, StartsWhole delta := by
  refine ⟨?_, fun hd => lossy_deltas hd h⟩
  rintro rfl
  by_contra! hd
  have hlt := sum_lt_sum leads (fun delta => (lossy 0 delta).length) (fun delta _ => (leads_le_length_lossy delta).1)
    (hd.imp fun delta hd => ⟨hd.1, (leads_le_length_lossy delta).2 hd.2⟩)
  have hle := length_le_leads h
  rw [length_flatMap, leads, countP_flatten] at hle
  exact absurd hlt hle.not_gt

/-! ## The events of a terminal -/

structure TerminalSession where
  terminalId : Str
  browserWorkspaceId : Str
  runId : Str
  organizationId : Str
  codexThreadId : Option Str

/-- The event's payload; the exit also sets the state of the session, `failed` or `closed`. -/
inductive TerminalEvent
  | output (data : Str)
  | exit (failed : Bool) (exitCode : Json)

inductive TerminalError
  | frame (error : FrameError)
  | invalidBase64

/-- The event is stored in the run of the session and sent to its organization. -/
def persistTerminalFrame (crates : Crates) (sessions : Str → Option TerminalSession) (data : List UInt8) :
    Except TerminalError (Option (TerminalSession × TerminalEvent)) :=
  match internalMessage crates data with
  | .error error => .error (.frame error)
  | .ok none => .ok none
  | .ok (some message) =>
    let method := (stringField message "method").getD []
    let params := messageParams message
    let output := method = "command/exec/outputDelta".toList
    if ¬output ∧ method ≠ "platform/terminalExited".toList then .ok none
    else
      match (stringField params "processId").bind sessions with
      | none => .ok none
      | some session =>
        if output then
          match Base64.decode ((stringField params "deltaBase64").getD []) with
          | none => .error .invalidBase64
          | some decoded => .ok (some (session, .output (lossy 0 (decoded.take (256 * 1024)))))
        else
          .ok (some (session, .exit (params.get "failed".toList == some (.bool true))
            ((params.get "exitCode".toList).getD .null)))

def shown (crates : Crates) (sessions : Str → Option TerminalSession) (frames : List (List UInt8)) : Str :=
  frames.flatMap fun frame => match persistTerminalFrame crates sessions frame with
    | .ok (some (_, .output data)) => data
    | _ => []

/-- A frame of the Runtime with an output delta of a process. -/
structure OutputDelta (crates : Crates) (process : Str) where
  frame : List UInt8
  bytes : List UInt8
  size : bytes.length ≤ 256 * 1024
  read : ∃ message, internalMessage crates frame = .ok (some message) ∧
    stringField message "method" = some "command/exec/outputDelta".toList ∧
    stringField (messageParams message) "processId" = some process ∧
    stringField (messageParams message) "deltaBase64" = some (Base64.encode bytes)

theorem persistTerminalFrame_delta (hs : sessions process = some session) (delta : OutputDelta crates process) :
    persistTerminalFrame crates sessions delta.frame = .ok (some (session, .output (lossy 0 delta.bytes))) := by
  obtain ⟨message, hr, hm, hid, hd⟩ := delta.read
  simp [persistTerminalFrame, hr, hm, hid, hd, hs, Base64.decode_encode, take_of_length_le delta.size]

def deltaCrates : Crates where
  fromStr text := some (.object [("method".toList, .string "app-server-event".toList), ("params".toList, .object
    [("message".toList, .object [("method".toList, .string "command/exec/outputDelta".toList), ("params".toList, .object
      [("processId".toList, .string []), ("deltaBase64".toList, .string (text.drop 1))])])])])
  isUuid _ := false
  unique _ _ h := by cases h; rfl

def deltaFrame (delta : List UInt8) : List UInt8 := ('{' :: Base64.encode delta).map (UInt8.ofNat ·.toNat)

def oneSession (_ : Str) : Option TerminalSession := some ⟨[], [], [], [], none⟩

def character : OutputDelta deltaCrates [] := ⟨deltaFrame [0xC3, 0xA9], [0xC3, 0xA9], by decide, _, rfl, rfl, rfl, rfl⟩

def firstHalf : OutputDelta deltaCrates [] := ⟨deltaFrame [0xC3], [0xC3], by decide, _, rfl, rfl, rfl, rfl⟩

def secondHalf : OutputDelta deltaCrates [] := ⟨deltaFrame [0xA9], [0xA9], by decide, _, rfl, rfl, rfl, rfl⟩

end Owc.Projection
