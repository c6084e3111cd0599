import Mathlib
import OpenWebCodex.Jsonl
/-!
# RolloutWriter — the background writer of a rollout file

Items are queued and leave the queue once their line is written.  After a failure the file is opened again, a torn line is ended,
and what is still queued is written.
-/
namespace Owc.RolloutWriter

open Jsonl

inductive ThreadHistoryMode
  | legacy
  | paginated

inductive RolloutOrdinalState
  | legacy
  | paginated (next : Option Nat)

inductive IoError
  | io
  /-- "paginated rollout record ordinal overflow" -/
  | ordinalOverflow
  /-- "rollout writer is not open" -/
  | notOpen

namespace RolloutOrdinalState

def forNewRollout : ThreadHistoryMode → RolloutOrdinalState
  | .legacy => .legacy
  | .paginated => .paginated (some 0)

def current : RolloutOrdinalState → Except IoError (Option Nat)
  | .legacy => .ok none
  | .paginated none => .error .ordinalOverflow
  | .paginated (some ordinal) => .ok (some ordinal)

def advance : RolloutOrdinalState → RolloutOrdinalState
  | .legacy => .legacy
  | .paginated none => .paginated none
  | .paginated (some ordinal) => .paginated (if ordinal + 1 < 2 ^ 64 then some (ordinal + 1) else none)

end RolloutOrdinalState

structure RolloutLine (Item : Type) where
  ordinal : Option Nat
  item : Item
deriving DecidableEq

structure RolloutWriterState (Item : Type) where
  writerOpen : Bool
  deferred : Bool
  pendingItems : List Item
  sessionMeta : Option Item
  ordinalState : RolloutOrdinalState

/-- **How a call to the file ends.**  A failing write leaves part of its text, all of its text, or all of its line; a failing
open may have ended the last line. -/
inductive Outcome
  | ok
  | torn (kept : Nat)
  | whole (newline : Bool)

structure Session (Byte Item : Type) where
  state : RolloutWriterState Item
  file : Option (List Byte)
  tick : Nat

inductive RolloutCmd (Item : Type)
  | addItems (items : List Item)
  | persist
  | flush
  | shutdown

section Writer

variable {Byte Item : Type} [DecidableEq Byte] (format : Format Byte (RolloutLine Item)) (outcomes : Nat → Outcome)

namespace Session

def content (s : Session Byte Item) : List Byte := s.file.getD []

def ticked (s : Session Byte Item) : Session Byte Item := { s with tick := s.tick + 1 }

def isDeferred (s : Session Byte Item) : Bool := !s.state.writerOpen && s.state.deferred

def enterRecoveryMode (s : Session Byte Item) : Session Byte Item := { s with state := { s.state with writerOpen := false } }

/-- `open_log_file`: the file is created where it is missing, and its last line is ended. -/
def openLogFile (s : Session Byte Item) : Except IoError Unit × Session Byte Item :=
  match outcomes s.tick with
  | .ok => (.ok (), { s.ticked with file := some (terminate format.newline s.content) })
  | .torn 0 => (.error .io, s.ticked)
  | _ => (.error .io, { s.ticked with file := some (terminate format.newline s.content) })

def ensureWriterOpen (s : Session Byte Item) : Except IoError Unit × Session Byte Item :=
  if s.state.writerOpen then (.ok (), s)
  else match openLogFile format outcomes s with
    | (.error e, s) => (.error e, s)
    | (.ok (), s) => (.ok (), { s with state := { s.state with writerOpen := true, deferred := false } })

def writeRolloutItem (item : Item) (ordinal : Option Nat) (s : Session Byte Item) :
    Except IoError Unit × Session Byte Item :=
  let json := format.encode ⟨ordinal, item⟩
  match outcomes s.tick with
  | .ok => (.ok (), { s.ticked with file := some (s.content ++ (json ++ [format.newline])) })
  | .torn kept => (.error .io, { s.ticked with file := some (s.content ++ json.take (min kept (json.length - 1))) })
  | .whole newline =>
    (.error .io, { s.ticked with file := some (s.content ++ (json ++ if newline then [format.newline] else [])) })

def writeNext (item : Item) (s : Session Byte Item) : Except IoError Unit × Session Byte Item :=
  match s.state.ordinalState.current with
  | .error e => (.error e, s)
  | .ok ordinal =>
    match writeRolloutItem format outcomes item ordinal s with
    | (.error e, s) => (.error e, s)
    | (.ok (), s) => (.ok (), { s with state := { s.state with ordinalState := s.state.ordinalState.advance } })

def writeSessionMetaIfNeeded (s : Session Byte Item) : Except IoError Unit × Session Byte Item :=
  match s.state.sessionMeta with
  | none => (.ok (), s)
  | some sessionMeta =>
    match writeNext format outcomes sessionMeta s with
    | (.error e, s) => (.error e, s)
    | (.ok (), s) => (.ok (), { s with state := { s.state with sessionMeta := none } })

def writeLoop : List Item → Session Byte Item → Except IoError Unit × Nat × Session Byte Item
  | [], s => (.ok (), 0, s)
  | item :: items, s =>
    match writeNext format outcomes item s with
    | (.error e, s) => (.error e, 0, s)
    | (.ok (), s) =>
      let rest := writeLoop items s
      (rest.1, rest.2.1 + 1, rest.2.2)

def writePendingItemsOnce (s : Session Byte Item) : Except IoError Unit × Session Byte Item :=
  if !s.state.writerOpen then (.error .notOpen, s)
  else
    let written := writeLoop format outcomes s.state.pendingItems s
    (written.1, { written.2.2 with
      state := { written.2.2.state with pendingItems := written.2.2.state.pendingItems.drop written.2.1 } })

def flushFile (s : Session Byte Item) : Except IoError Unit × Session Byte Item :=
  match outcomes s.tick with
  | .ok => (.ok (), s.ticked)
  | _ => (.error .io, s.ticked)

def andThen (first : Except IoError Unit × Session Byte Item)
    (next : Session Byte Item → Except IoError Unit × Session Byte Item) : Except IoError Unit × Session Byte Item :=
  match first with
  | (.error e, s) => (.error e, s)
  | (.ok (), s) => next s

def writePendingOnce (s : Session Byte Item) : Except IoError Unit × Session Byte Item :=
  andThen (andThen (andThen (ensureWriterOpen format outcomes s) (writeSessionMetaIfNeeded format outcomes))
    (writePendingItemsOnce format outcomes)) (flushFile outcomes)

def writePendingWithRecovery (s : Session Byte Item) : Except IoError Unit × Session Byte Item :=
  match writePendingOnce format outcomes s with
  | (.ok (), s) => (.ok (), s)
  | (.error _, s) =>
    match writePendingOnce format outcomes s.enterRecoveryMode with
    | (.ok (), s) => (.ok (), s)
    | (.error e, s) => (.error e, s.enterRecoveryMode)

def addItems (items : List Item) (s : Session Byte Item) : Session Byte Item :=
  { s with state := { s.state with pendingItems := s.state.pendingItems ++ items } }

def persist (s : Session Byte Item) : Except IoError Unit × Session Byte Item := writePendingWithRecovery format outcomes s

def flush (s : Session Byte Item) : Except IoError Unit × Session Byte Item :=
  if s.isDeferred && s.state.pendingItems.isEmpty then (.ok (), s) else writePendingWithRecovery format outcomes s

def shutdown (s : Session Byte Item) : Except IoError Unit × Session Byte Item :=
  if s.isDeferred && s.state.pendingItems.isEmpty then (.ok (), s) else writePendingWithRecovery format outcomes s

def flushIfMaterialized (s : Session Byte Item) : Session Byte Item :=
  if s.isDeferred then s
  else match flush format outcomes s with
    | (.ok (), s) => s
    | (.error _, s) => s.enterRecoveryMode

end Session

def handle (cmd : RolloutCmd Item) (s : Session Byte Item) : Option (Except IoError Unit) × Session Byte Item :=
  match cmd with
  | .addItems items => (none, (s.addItems items).flushIfMaterialized format outcomes)
  | .persist => ((s.persist format outcomes).1, (s.persist format outcomes).2)
  | .flush => ((s.flush format outcomes).1, (s.flush format outcomes).2)
  | .shutdown => ((s.shutdown format outcomes).1, (s.shutdown format outcomes).2)

def breaks : RolloutCmd Item → Option (Except IoError Unit) → Bool
  | .shutdown, some (.ok ()) => true
  | _, _ => false

/-- The commands the writer comes to, with what was told, and the session after them. -/
def rolloutWriter : List (RolloutCmd Item) → Session Byte Item →
    List (RolloutCmd Item × Option (Except IoError Unit)) × Session Byte Item
  | [], s => ([], s)
  | cmd :: cmds, s =>
    let handled := handle format outcomes cmd s
    let rest := if breaks cmd handled.1 then ([], handled.2) else rolloutWriter cmds handled.2
    ((cmd, handled.1) :: rest.1, rest.2)

end Writer

def newSession {Byte Item : Type} (mode : ThreadHistoryMode) (sessionMeta : Item) : Session Byte Item :=
  ⟨⟨false, true, [], some sessionMeta, .forNewRollout mode⟩, none, 0⟩

def RolloutCmd.items {Item : Type} : RolloutCmd Item → List Item
  | .addItems items => items
  | .persist => []
  | .flush => []
  | .shutdown => []

def recorded {Item : Type} (log : List (RolloutCmd Item × Option (Except IoError Unit))) : List Item :=
  log.flatMap (·.1.items)

end Owc.RolloutWriter
