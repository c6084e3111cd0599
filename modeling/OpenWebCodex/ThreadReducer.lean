import OpenWebCodex.ThreadLifecycle
/-!
# ThreadReducer — the items of the threads, and the reducer

`threadItemsSlice.ts` with its helpers, `threadNaming.ts`, `threadConfigSlice.ts` and what `threadSnapshotSlice.ts` writes
that is read back.  Every slice but one leaves an action as it is, so `threadReducer` is the slice that knows the action.
-/
namespace Owc.Threads

open Js (Text lit)

/-! ## Names of threads -/

def isHex (u : UInt16) : Bool := Js.isDigit u || (97 ≤ (Js.lower u).toNat && (Js.lower u).toNat ≤ 102)

/-- `^[a-f0-9]{4,8}$`, with the flag `i`. -/
def isShortHex (name : Text) : Bool := 4 ≤ name.length && name.length ≤ 8 && name.all isHex

/-- The five groups of hexadecimal digits of a UUID, joined by hyphens. -/
def isUuidLike (name : Text) : Bool :=
  name.length == 36 && name.zipIdx.all (fun (u, i) => if [8, 13, 18, 23].contains i then u == 45 else isHex u)

def looksAutoGeneratedThreadName (name : Text) : Bool :=
  let trimmed := Js.trim name
  trimmed == lit "New Agent" || trimmed == lit "Thread" || Js.startsWith trimmed (lit "Agent ") || isShortHex trimmed ||
    isUuidLike trimmed

def clampName (name : Text) : Text := if 38 < name.length then name.take 38 ++ lit "…" else name

def clampThreadName (name : Text) : Option Text :=
  let trimmed := Js.trim (Js.collapseSpace name)
  if trimmed.isEmpty then none else some (clampName trimmed)

/-- `\[image(?: x\d+)?\]`, with the flag `i`. -/
def matchImage (_ : Bool) (text : Text) : Option Nat :=
  if Js.startsWith (text.map Js.lower) (lit "[image]") then some 7
  else if Js.startsWith (text.map Js.lower) (lit "[image x") then
    let digits := (text.drop 8).takeWhile Js.isDigit
    if !digits.isEmpty && Js.startsWith (text.drop (8 + digits.length)) (lit "]") then some (9 + digits.length) else none
  else none

def isSkillUnit (u : UInt16) : Bool := Js.isDigit u || Js.isLower u || Js.isUpper u || u == 95 || u == 45

/-- `\$[A-Za-z0-9_-]+(?=\s|$)`. -/
def matchSkillName : Text → Option Nat
  | u :: text =>
    let name := text.takeWhile isSkillUnit
    if u == 36 && !name.isEmpty && ((text.drop name.length).head?.all Js.isSpace) then some (name.length + 1) else none
  | [] => none

/-- `(^|\s)\$[A-Za-z0-9_-]+(?=\s|$)`. -/
def matchSkill (start : Bool) (text : Text) : Option Nat :=
  (if start then matchSkillName text else none).or
    (match text with
      | u :: rest => if Js.isSpace u then (matchSkillName rest).map (· + 1) else none
      | [] => none)

def extractRenameText (text : Text) : Text :=
  let withoutImages := Js.replaceAll matchImage (lit " ") text.length true text
  let withoutSkills := Js.replaceAll matchSkill (lit " ") withoutImages.length true withoutImages
  Js.trim (Js.collapseSpace withoutSkills)

/-! ## Items -/

def isMessageOf (role : Role) (item : Item) : Bool :=
  match item.body with
  | .message r _ _ => r == role
  | _ => false

def messageText (item : Item) : Text :=
  match item.body with
  | .message _ text _ => text
  | _ => []

/-- The message of the id, or the last one of the assistant. -/
def getAssistantTextForRename (items : List Item) (itemId : Text) : Text :=
  let named := if itemId.isEmpty then none else items.find? (fun item => isMessageOf .assistant item && item.id == itemId)
  ((named.or (items.reverse.find? (isMessageOf .assistant))).map messageText).getD []

def maybeRenameThreadFromAgent (s : ThreadState) (workspaceId threadId itemId : Text) (items : List Item)
    (hasCustomName : Bool) : ThreadState :=
  if items.any (isMessageOf .user) || hasCustomName then s
  else
    match clampThreadName (getAssistantTextForRename items itemId) with
    | none => s
    | some nextName => mapThreads s workspaceId (fun thread =>
        if thread.id == threadId && looksAutoGeneratedThreadName thread.name then { thread with name := nextName }
        else thread)

def bodyOf (list : List Item) (itemId : Text) : Option Body := (list.find? (·.id == itemId)).map (·.body)

def putItem : List Item → Text → Body → List Item
  | [], itemId, body => [⟨itemId, body⟩]
  | item :: list, itemId, body => if item.id == itemId then ⟨itemId, body⟩ :: list else item :: putItem list itemId body

def dropLatestLocalReviewStart (list : List Item) : List Item :=
  (list.reverse.eraseP (fun item =>
    match item.body with
    | .review .started _ => Js.startsWith item.id (lit "review-start-")
    | _ => false)).reverse

def sameReview (state : ReviewState) (text : Text) (item : Item) : Bool :=
  match item.body with
  | .review state' text' => state' == state && Js.trim text' == Js.trim text
  | _ => false

/-- The first of `id-1`, `id-2`, … that no item has; the items bound the rounds. -/
def freshReviewId (list : List Item) (id : Text) : Nat → Nat → Text
  | 0, suffix => id ++ lit "-" ++ lit (toString suffix)
  | n + 1, suffix =>
    let candidate := id ++ lit "-" ++ lit (toString suffix)
    if list.any (·.id == candidate) then freshReviewId list id n (suffix + 1) else candidate

def ensureUniqueReviewId (list : List Item) (item : Item) : Item :=
  match item.body with
  | .review _ _ => if list.any (·.id == item.id) then { item with id := freshReviewId list item.id list.length 1 } else item
  | _ => item

section Items

variable (explore : Explore)

def setItems (s : ThreadState) (threadId : Text) (items : List Item) : ThreadState :=
  { s with itemsByThread := s.itemsByThread.put threadId (prepareThreadItems explore s.maxItemsPerThread items) }

def addAssistantMessage (s : ThreadState) (threadId text : Text) (now : Nat) : ThreadState :=
  setItems explore s threadId (s.items threadId ++ [⟨lit (toString now) ++ lit "-assistant", .message .assistant text none⟩])

/-- The message of the item gets the text `update` makes of its text; where the item is no message, a new one gets
`fresh`. -/
def writeMessage (list : List Item) (itemId : Text) (update : Text → Text) (fresh : Text) : List Item :=
  match bodyOf list itemId with
  | some (.message role text images) => putItem list itemId (.message role (update text) images)
  | _ => list ++ [⟨itemId, .message .assistant fresh none⟩]

def setMessage (s : ThreadState) (workspaceId threadId itemId : Text) (list : List Item) (hasCustomName : Bool) :
    ThreadState :=
  let s' := setItems explore s threadId list
  maybeRenameThreadFromAgent s' workspaceId threadId itemId (s'.items threadId) hasCustomName

def appendAgentDelta (s : ThreadState) (workspaceId threadId itemId delta : Text) (hasCustomName : Bool) : ThreadState :=
  setMessage explore s workspaceId threadId itemId
    (writeMessage (s.items threadId) itemId (mergeStreamingText · delta) (stripLeadingProviderSentinel delta)) hasCustomName

def completeAgentMessage (s : ThreadState) (workspaceId threadId itemId text : Text) (hasCustomName : Bool) : ThreadState :=
  let clean := stripLeadingProviderSentinel text
  setMessage explore s workspaceId threadId itemId
    (writeMessage (s.items threadId) itemId (fun existing => if clean.isEmpty then existing else clean) clean) hasCustomName

/-- The thread of a user's message is named after the first one and moved to the front. -/
def nameFromUser (s : ThreadState) (workspaceId threadId text : Text) (hadUserMessage hasCustomName : Bool) : ThreadState :=
  let updatedThreads := (s.threads workspaceId).map (fun thread =>
    if thread.id == threadId && !hadUserMessage && !text.isEmpty && looksAutoGeneratedThreadName thread.name &&
        !hasCustomName then { thread with name := clampName text }
    else thread)
  s.setList workspaceId (if s.prefersUpdatedSort workspaceId then bumpThread updatedThreads threadId else updatedThreads)

def upsertThreadItem (s : ThreadState) (workspaceId threadId : Text) (item : Item) (hasCustomName : Bool) : ThreadState :=
  let item := normalizeItem item
  let list := s.items threadId
  let inserted (list : List Item) := setItems explore s threadId (upsertItem list (ensureUniqueReviewId list item))
  match item.body with
  | .message .user text _ =>
    nameFromUser (inserted list) workspaceId threadId (extractRenameText text) (list.any (isMessageOf .user)) hasCustomName
  | .review state text =>
    let list := if state = .started && !Js.startsWith item.id (lit "review-start-") then dropLatestLocalReviewStart list
      else list
    if list.any (fun entry => entry.id == item.id && sameReview state text entry) then s
    else if (list.find? (sameReview state text)).any (·.id != item.id) then s
    else inserted list
  | _ => inserted list

def reasoningOf : Option Body → Text × Text
  | some (.reasoning summary content) => (summary, content)
  | _ => ([], [])

def appendReasoningSummary (s : ThreadState) (threadId itemId delta : Text) : ThreadState :=
  let base := reasoningOf (bodyOf (s.items threadId) itemId)
  setItems explore s threadId (putItem (s.items threadId) itemId (.reasoning (mergeStreamingText base.1 delta) base.2))

def appendReasoningSummaryBoundary (s : ThreadState) (threadId itemId : Text) : ThreadState :=
  let base := reasoningOf (bodyOf (s.items threadId) itemId)
  setItems explore s threadId (putItem (s.items threadId) itemId (.reasoning (addSummaryBoundary base.1) base.2))

def appendReasoningContent (s : ThreadState) (threadId itemId delta : Text) : ThreadState :=
  let base := reasoningOf (bodyOf (s.items threadId) itemId)
  setItems explore s threadId (putItem (s.items threadId) itemId (.reasoning base.1 (mergeStreamingText base.2 delta)))

def planBase : Option Body → Tool
  | some (.tool t) => t
  | _ => ⟨lit "plan", lit "Plan", [], some (lit "in_progress"), some [], none, none⟩

def appendPlanDelta (s : ThreadState) (threadId itemId delta : Text) : ThreadState :=
  let base := planBase (bodyOf (s.items threadId) itemId)
  setItems explore s threadId (putItem (s.items threadId) itemId (.tool { base with
    toolType := lit "plan"
    title := lit "Plan"
    detail := lit "Generating plan..."
    status := some (lit "in_progress")
    output := some (mergeStreamingText (base.output.getD []) delta) }))

/-- Output of a tool that is not there is dropped. -/
def appendToolOutput (s : ThreadState) (threadId itemId delta : Text) : ThreadState :=
  match bodyOf (s.items threadId) itemId with
  | some (.tool t) => setItems explore s threadId (putItem (s.items threadId) itemId
      (.tool { t with output := some (mergeStreamingText (t.output.getD []) delta) }))
  | _ => s

end Items

/-! ## Configuration and snapshots -/

def normalizeMaxItemsPerThread : Option Number → Option Nat
  | none => none
  | some none => some defaultMaxItemsPerThread
  | some (some value) => some (if value ≤ 0 then defaultMaxItemsPerThread else value.floor.toNat)

def setMaxItemsPerThread (s : ThreadState) (value : Option Number) : ThreadState :=
  match normalizeMaxItemsPerThread value with
  | none => { s with maxItemsPerThread := none }
  | some n =>
    if s.maxItemsPerThread = some n then s
    else { s with
      maxItemsPerThread := some n
      itemsByThread := s.itemsByThread.updateAll (fun items => n < items.length) (Js.sliceLast · n) }

def setLastAgentMessage (s : ThreadState) (threadId text : Text) (timestamp : Int) : ThreadState :=
  if (s.lastAgentMessageByThread.get threadId).any (fun last => timestamp ≤ last.2) then s
  else { s with lastAgentMessageByThread := s.lastAgentMessageByThread.put threadId (text, timestamp) }

def threadReducer (explore : Explore) (s : ThreadState) : ThreadAction → ThreadState
  | .setActiveThreadId workspaceId threadId => setActiveThreadId s workspaceId threadId
  | .setMaxItemsPerThread value => setMaxItemsPerThread s value
  | .ensureThread workspaceId threadId => ensureThread s workspaceId threadId
  | .hideThread workspaceId threadId => hideThread s workspaceId threadId
  | .removeThread workspaceId threadId => removeThread s workspaceId threadId
  | .setThreadParent threadId parentId => setThreadParent s threadId parentId
  | .markProcessing threadId isProcessing timestamp => markProcessing s threadId isProcessing timestamp
  | .markReviewing threadId isReviewing => s.setStatus threadId { s.status threadId with isReviewing := isReviewing }
  | .markUnread threadId hasUnread => s.setStatus threadId { s.status threadId with hasUnread := hasUnread }
  | .addAssistantMessage threadId text now => addAssistantMessage explore s threadId text now
  | .setThreadName workspaceId threadId name => setThreadName s workspaceId threadId name
  | .mergeThreadSummary workspaceId threadId patch => mergeThreadSummary s workspaceId threadId patch
  | .setThreadTimestamp workspaceId threadId timestamp => setThreadTimestamp s workspaceId threadId timestamp
  | .appendAgentDelta workspaceId threadId itemId delta hasCustomName =>
    appendAgentDelta explore s workspaceId threadId itemId delta hasCustomName
  | .completeAgentMessage workspaceId threadId itemId text hasCustomName =>
    completeAgentMessage explore s workspaceId threadId itemId text hasCustomName
  | .upsertItem workspaceId threadId item hasCustomName => upsertThreadItem explore s workspaceId threadId item hasCustomName
  | .setThreadItems threadId items => setItems explore s threadId items
  | .appendReasoningSummary threadId itemId delta => appendReasoningSummary explore s threadId itemId delta
  | .appendReasoningSummaryBoundary threadId itemId => appendReasoningSummaryBoundary explore s threadId itemId
  | .appendReasoningContent threadId itemId delta => appendReasoningContent explore s threadId itemId delta
  | .appendPlanDelta threadId itemId delta => appendPlanDelta explore s threadId itemId delta
  | .appendToolOutput threadId itemId delta => appendToolOutput explore s threadId itemId delta
  | .setThreads workspaceId threads sortKey preserveAnchors => setThreads s workspaceId threads sortKey preserveAnchors
  | .setLastAgentMessage threadId text timestamp => setLastAgentMessage s threadId text timestamp
  | .elsewhere => s

end Owc.Threads
