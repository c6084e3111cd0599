import OpenWebCodex.HistoryContext
import OpenWebCodex.RolloutItem
/-!
# RolloutScan — rebuilding a session from its rollout

`reconstruct_history_from_rollout`: a scan from the newest item to the oldest collects turn segments, pays rollback
markers with the user turns it meets, and looks for the newest surviving replacement history; the items behind that are
then replayed forward.
-/
namespace Owc.Rollout

open History (ResponseItem Env isUserTurnBoundary recordItem dropLastNUserTurns)

/-- What the replay asks of code outside it, besides the context manager's own questions: the rebuilding of a legacy
compaction from the user messages before it, the version 7 uuid a text denotes, and world-state snapshots. -/
structure ReplayEnv (Snapshot : Type) extends Env where
  buildCompactedHistory : List ResponseItem → Str → List ResponseItem
  parseUuidV7 : Str → Option Str
  restore : Json → Option Snapshot
  applyMergePatch : Snapshot → Json → Option Snapshot

structure ReconstructedWindow where
  number : Nat
  firstId : Option Str
  previousId : Option Str
  id : Option Str

structure PreviousTurnSettings where
  model : Str
  compHash : Option Str
  realtimeActive : Option Bool

inductive TurnReferenceContextItem
  | neverSet
  | cleared
  | latest (item : TurnContextItem)
deriving DecidableEq

structure ActiveReplaySegment where
  turnId : Option Str := none
  countsAsUserTurn : Bool := false
  previousTurnSettings : Option PreviousTurnSettings := none
  referenceContextItem : TurnReferenceContextItem := .neverSet
  worldStateReplay : List RolloutItem := []
  baseReplacementHistory : Option (List ResponseItem) := none
  window : Option ReconstructedWindow := none

def turnIdsAreCompatible (activeTurnId itemTurnId : Option Str) : Bool :=
  activeTurnId.all (fun turnId => itemTurnId.all (· == turnId))

structure Scan where
  baseReplacementHistory : Option (List ResponseItem)
  previousTurnSettings : Option PreviousTurnSettings
  referenceContextItem : TurnReferenceContextItem
  worldStateReplay : List RolloutItem
  window : Option ReconstructedWindow
  pendingRollbackTurns : Nat
  rolloutSuffix : List RolloutItem
  activeSegment : Option ActiveReplaySegment

def Scan.init (rolloutItems : List RolloutItem) : Scan := ⟨none, none, .neverSet, [], none, 0, rolloutItems, none⟩

def finalizeActiveSegment (segment : ActiveReplaySegment) (s : Scan) : Scan :=
  if 0 < s.pendingRollbackTurns then
    { s with
      pendingRollbackTurns := if segment.countsAsUserTurn then s.pendingRollbackTurns - 1 else s.pendingRollbackTurns
      activeSegment := none }
  else
    { s with
      worldStateReplay := s.worldStateReplay ++ segment.worldStateReplay
      baseReplacementHistory := s.baseReplacementHistory.or segment.baseReplacementHistory
      window := s.window.or segment.window
      previousTurnSettings :=
        if s.previousTurnSettings.isNone && segment.countsAsUserTurn then segment.previousTurnSettings
        else s.previousTurnSettings
      referenceContextItem :=
        if s.referenceContextItem == .neverSet && (segment.countsAsUserTurn || segment.referenceContextItem == .cleared)
        then segment.referenceContextItem else s.referenceContextItem
      activeSegment := none }

section Scan

variable {Snapshot : Type} (env : ReplayEnv Snapshot)

def CompactedItem.window (compacted : CompactedItem) : Option ReconstructedWindow :=
  compacted.windowNumber.map (fun number =>
    { number := number
      firstId := compacted.firstWindowId.bind env.parseUuidV7
      previousId := compacted.previousWindowId.bind env.parseUuidV7
      id := compacted.windowId.bind env.parseUuidV7 })

def segmentCompacted (compacted : CompactedItem) (segment : ActiveReplaySegment) : ActiveReplaySegment :=
  { segment with
    worldStateReplay := segment.worldStateReplay ++ [.compacted compacted]
    window := segment.window.or (compacted.window env)
    referenceContextItem :=
      if segment.referenceContextItem == .neverSet then .cleared else segment.referenceContextItem
    baseReplacementHistory := segment.baseReplacementHistory.or compacted.replacementHistory }

def segmentTurnContext (ctx : TurnContextItem) (segment : ActiveReplaySegment) : ActiveReplaySegment :=
  let turnId := segment.turnId.or ctx.turnId
  if turnIdsAreCompatible turnId ctx.turnId then
    { segment with
      turnId := turnId
      previousTurnSettings := some ⟨ctx.model, ctx.compHash, ctx.realtimeActive⟩
      referenceContextItem :=
        if segment.referenceContextItem == .neverSet then .latest ctx else segment.referenceContextItem }
  else { segment with turnId := turnId }

def Scan.segment (s : Scan) : ActiveReplaySegment := s.activeSegment.getD {}

def Scan.withSegment (s : Scan) (segment : ActiveReplaySegment) : Scan := { s with activeSegment := some segment }

def scanItem (newer : List RolloutItem) (s : Scan) : RolloutItem → Scan
  | .compacted compacted =>
    let suffix :=
      if s.segment.baseReplacementHistory.isNone && compacted.replacementHistory.isSome then newer else s.rolloutSuffix
    { s.withSegment (segmentCompacted env compacted s.segment) with rolloutSuffix := suffix }
  | .eventMsg (.threadRolledBack numTurns) => { s with pendingRollbackTurns := s.pendingRollbackTurns + numTurns }
  | .eventMsg (.turnComplete turnId _ _) => s.withSegment { s.segment with turnId := s.segment.turnId.or (some turnId) }
  | .eventMsg (.turnAborted turnId _ _) =>
    if s.activeSegment.isSome || turnId.isSome then s.withSegment { s.segment with turnId := s.segment.turnId.or turnId }
    else s
  | .eventMsg (.userMessage _ _) => s.withSegment { s.segment with countsAsUserTurn := true }
  | .turnContext ctx => s.withSegment (segmentTurnContext ctx s.segment)
  | .worldState item =>
    s.withSegment { s.segment with worldStateReplay := s.segment.worldStateReplay ++ [.worldState item] }
  | .eventMsg (.turnStarted turnId _) =>
    match s.activeSegment with
    | some segment => if turnIdsAreCompatible segment.turnId (some turnId) then finalizeActiveSegment segment s else s
    | none => s
  | .responseItem item =>
    s.withSegment
      { s.segment with countsAsUserTurn := s.segment.countsAsUserTurn || isUserTurnBoundary env.toEnv item }
  | .interAgentCommunication _ => s.withSegment { s.segment with countsAsUserTurn := true }
  | .eventMsg _ => s
  | .sessionMeta _ => s
  | .interAgentCommunicationMetadata _ => s

def Scan.known (s : Scan) : Bool :=
  s.baseReplacementHistory.isSome && s.previousTurnSettings.isSome && s.referenceContextItem != .neverSet

def scanItems : List RolloutItem → List RolloutItem → Scan → Scan
  | [], _, s => s
  | item :: older, newer, s =>
    let s' := scanItem env newer s item
    if s'.known then s' else scanItems older (item :: newer) s'

def replayItem (history : List ResponseItem) : RolloutItem → List ResponseItem
  | .responseItem item => recordItem env.toEnv history item
  | .interAgentCommunication communication => recordItem env.toEnv history communication.toModelInputItem
  | .compacted compacted =>
    compacted.replacementHistory.getD (env.buildCompactedHistory history compacted.message)
  | .eventMsg (.threadRolledBack numTurns) => dropLastNUserTurns env.toEnv history numTurns
  | _ => history

def replay (history : List ResponseItem) (items : List RolloutItem) : List ResponseItem :=
  items.foldl (replayItem env) history

def isLegacyCompaction : RolloutItem → Bool
  | .compacted compacted => compacted.replacementHistory.isNone
  | _ => false

def replayWorldState (baseline : Option Snapshot) : RolloutItem → Option Snapshot
  | .compacted _ => none
  | .worldState item => if item.full then env.restore item.state else baseline.bind (env.applyMergePatch · item.state)
  | _ => baseline

def initialWindow (rolloutItems : List RolloutItem) : Option ReconstructedWindow :=
  let legacy := rolloutItems.any (fun
    | .compacted compacted => compacted.windowNumber.isNone
    | _ => false)
  if legacy then none
  else rolloutItems.findSome? (fun
    | .sessionMeta contextWindow => (contextWindow.bind env.parseUuidV7).map (fun id => ⟨0, some id, none, some id⟩)
    | _ => none)

structure RolloutReconstruction (Snapshot : Type) where
  history : List ResponseItem
  previousTurnSettings : Option PreviousTurnSettings
  referenceContextItem : Option TurnContextItem
  worldStateBaseline : Option Snapshot
  window : ReconstructedWindow

def TurnReferenceContextItem.toItem : TurnReferenceContextItem → Option TurnContextItem
  | .latest item => some item
  | _ => none

def reverseScan (rolloutItems : List RolloutItem) : Scan :=
  let s := scanItems env rolloutItems.reverse [] (.init rolloutItems)
  match s.activeSegment with
  | some segment => finalizeActiveSegment segment s
  | none => s

def reconstructHistoryFromRollout (rolloutItems : List RolloutItem) : RolloutReconstruction Snapshot :=
  let s := reverseScan env rolloutItems
  let fallbackWindowNumber := rolloutItems.countP (fun | .compacted _ => true | _ => false)
  { history := replay env (s.baseReplacementHistory.getD []) s.rolloutSuffix
    previousTurnSettings := s.previousTurnSettings
    referenceContextItem :=
      if s.rolloutSuffix.any isLegacyCompaction then none else s.referenceContextItem.toItem
    worldStateBaseline := s.worldStateReplay.reverse.foldl (replayWorldState env) none
    window := (s.window.or (initialWindow env rolloutItems)).getD ⟨fallbackWindowNumber, none, none, none⟩ }

end Scan

end Owc.Rollout
