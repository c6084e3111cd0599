import OpenWebCodex.HistoryItem
import OpenWebCodex.Pairing
/-!
# HistoryNormalize — the history as it is sent to the model

`normalize_history` puts an output behind every call that has none, removes the outputs whose call is not there, and
replaces the content the model cannot read.  `remove_first_item` shortens the history from its front, with the partner of
the item removed.  A call and its output share a call id; the outputs of function calls and of local shell calls are of one
kind.
-/
namespace Owc.History

open List FunctionCallOutputContentItem
open Pairing

/-! ## The source -/

inductive InputModality
  | text
  | image
  | audio
deriving DecidableEq

def imageContentOmittedPlaceholder : Str := "image content omitted because you do not support image input".toList

def audioContentOmittedPlaceholder : Str := "audio content omitted because you do not support audio input".toList

def syntheticOutputIdNamespace : Nat := 0x90d38d3e6a5b4d52bfe22f1e634bfac4

/-- What the build brings: whether debug assertions are on, and the crate's name-based UUIDs as their text. -/
structure Build where
  debugAssertions : Bool
  newV5 : Nat → Str → Str

/-- `error_or_panic` for the messages of a pass, in order: with debug assertions the first one is a panic, without them
all are logged. -/
def errorOrPanic (build : Build) (messages : List Str) : Except Str Unit :=
  match messages with
  | [] => .ok ()
  | message :: _ => if build.debugAssertions then .error message else .ok ()

def syntheticOutputId (build : Build) (tag : Str) (itemId : Option Str) : Option Str :=
  match itemId with
  | some sourceId =>
    if sourceId.isEmpty then none
    else some (tag ++ ['_'] ++ build.newV5 syntheticOutputIdNamespace (tag ++ [':'] ++ sourceId))
  | none => none

structure OutputIds where
  function : List Str
  toolSearch : List Str
  customTool : List Str

def OutputIds.insert (ids : OutputIds) : ResponseItem → OutputIds
  | .functionCallOutput _ callId _ _ => { ids with function := callId :: ids.function }
  | .toolSearchOutput _ (some callId) _ _ _ => { ids with toolSearch := callId :: ids.toolSearch }
  | .customToolCallOutput _ callId _ _ _ => { ids with customTool := callId :: ids.customTool }
  | _ => ids

def outputIds (items : List ResponseItem) : OutputIds := items.foldl OutputIds.insert ⟨[], [], []⟩

def aborted : FunctionCallOutputPayload := .fromText "aborted".toList

def missingOutput (build : Build) (ids : OutputIds) : ResponseItem → Option ResponseItem
  | .functionCall id _ _ _ callId _ =>
    if ids.function.contains callId then none
    else some (.functionCallOutput (syntheticOutputId build "fco".toList id) callId aborted none)
  | .toolSearchCall id (some callId) _ =>
    if ids.toolSearch.contains callId then none
    else some (.toolSearchOutput (syntheticOutputId build "tso".toList id) (some callId) "completed".toList
      "client".toList [])
  | .customToolCall id callId _ _ _ =>
    if ids.customTool.contains callId then none
    else some (.customToolCallOutput (syntheticOutputId build "ctco".toList id) callId none aborted none)
  | .localShellCall id (some callId) =>
    if ids.function.contains callId then none
    else some (.functionCallOutput (syntheticOutputId build "fco".toList id) callId aborted none)
  | _ => none

/-- What is reported of an item that gets an output; of function calls and tool searches it is no error. -/
def missingOutputMessage (ids : OutputIds) : ResponseItem → Option Str
  | .customToolCall _ callId _ _ _ =>
    if ids.customTool.contains callId then none
    else some ("Custom tool call output is missing for call id: ".toList ++ callId)
  | .localShellCall _ (some callId) =>
    if ids.function.contains callId then none
    else some ("Local shell call output is missing for call id: ".toList ++ callId)
  | _ => none

def ensureCallOutputsPresent (build : Build) (items : List ResponseItem) : Except Str (List ResponseItem) := do
  errorOrPanic build (items.filterMap (missingOutputMessage (outputIds items)))
  return insertBehind items (found (missingOutput build (outputIds items)) items 0)

structure CallIds where
  function : List Str
  toolSearch : List Str
  localShell : List Str
  customTool : List Str

def callIds (items : List ResponseItem) : CallIds where
  function := items.filterMap (fun
    | .functionCall _ _ _ _ callId _ => some callId
    | _ => none)
  toolSearch := items.filterMap (fun
    | .toolSearchCall _ (some callId) _ => some callId
    | _ => none)
  localShell := items.filterMap (fun
    | .localShellCall _ (some callId) => some callId
    | _ => none)
  customTool := items.filterMap (fun
    | .customToolCall _ callId _ _ _ => some callId
    | _ => none)

def server : Str := "server".toList

def hasMatch (ids : CallIds) : ResponseItem → Bool
  | .functionCallOutput _ callId _ _ => ids.function.contains callId || ids.localShell.contains callId
  | .customToolCallOutput _ callId _ _ _ => ids.customTool.contains callId
  | .toolSearchOutput _ callId _ execution _ =>
    if execution == server then true
    else match callId with
      | some callId => ids.toolSearch.contains callId
      | none => true
  | _ => true

def orphanMessage : ResponseItem → Str
  | .functionCallOutput _ callId _ _ => "Orphan function call output for call id: ".toList ++ callId
  | .customToolCallOutput _ callId _ _ _ => "Orphan custom tool call output for call id: ".toList ++ callId
  | .toolSearchOutput _ (some callId) _ _ _ => "Orphan tool search output for call id: ".toList ++ callId
  | _ => []

def removeOrphanOutputs (build : Build) (items : List ResponseItem) : Except Str (List ResponseItem) := do
  errorOrPanic build ((items.filter (!hasMatch (callIds items) ·)).map orphanMessage)
  return items.filter (hasMatch (callIds items))

def stripImageContent : ContentItem → ContentItem
  | .inputImage _ => .inputText imageContentOmittedPlaceholder
  | content => content

def stripImageOutput : FunctionCallOutputContentItem → FunctionCallOutputContentItem
  | .inputImage _ => .inputText imageContentOmittedPlaceholder
  | content => content

def stripAudioContent : ContentItem → ContentItem
  | .inputAudio _ => .inputText audioContentOmittedPlaceholder
  | content => content

def stripAudioOutput : FunctionCallOutputContentItem → FunctionCallOutputContentItem
  | .inputAudio _ => .inputText audioContentOmittedPlaceholder
  | content => content

/-- Through `content_items_mut`: a text output has no content items. -/
def FunctionCallOutputPayload.mapContentItems (f : FunctionCallOutputContentItem → FunctionCallOutputContentItem)
    (output : FunctionCallOutputPayload) : FunctionCallOutputPayload :=
  match output.body with
  | .text _ => output
  | .contentItems items => { output with body := .contentItems (items.map f) }

def stripImage : ResponseItem → ResponseItem
  | .message id role content metadata => .message id role (content.map stripImageContent) metadata
  | .functionCallOutput id callId output metadata =>
    .functionCallOutput id callId (output.mapContentItems stripImageOutput) metadata
  | .customToolCallOutput id callId name output metadata =>
    .customToolCallOutput id callId name (output.mapContentItems stripImageOutput) metadata
  | .imageGenerationCall id status revisedPrompt _ => .imageGenerationCall id status revisedPrompt []
  | item => item

def stripAudio : ResponseItem → ResponseItem
  | .message id role content metadata => .message id role (content.map stripAudioContent) metadata
  | .functionCallOutput id callId output metadata =>
    .functionCallOutput id callId (output.mapContentItems stripAudioOutput) metadata
  | .customToolCallOutput id callId name output metadata =>
    .customToolCallOutput id callId name (output.mapContentItems stripAudioOutput) metadata
  | item => item

def stripImagesWhenUnsupported (inputModalities : List InputModality) (items : List ResponseItem) : List ResponseItem :=
  if inputModalities.contains .image then items else items.map stripImage

def stripAudioWhenUnsupported (inputModalities : List InputModality) (items : List ResponseItem) : List ResponseItem :=
  if inputModalities.contains .audio then items else items.map stripAudio

def normalizeHistory (build : Build) (inputModalities : List InputModality) (items : List ResponseItem) :
    Except Str (List ResponseItem) := do
  let items ← ensureCallOutputsPresent build items
  let items ← removeOrphanOutputs build items
  return stripAudioWhenUnsupported inputModalities (stripImagesWhenUnsupported inputModalities items)

/-- The history prepared for the model, unless the build panics. -/
def forPrompt (build : Build) (inputModalities : List InputModality) (items : List ResponseItem) :
    Except Str (List ResponseItem) :=
  normalizeHistory build inputModalities items

def isFunctionCall (callId : Str) : ResponseItem → Bool
  | .functionCall _ _ _ _ existing _ => existing == callId
  | _ => false

def isLocalShellCall (callId : Str) : ResponseItem → Bool
  | .localShellCall _ (some existing) => existing == callId
  | _ => false

def isFunctionCallOutput (callId : Str) : ResponseItem → Bool
  | .functionCallOutput _ existing _ _ => existing == callId
  | _ => false

def isToolSearchCall (callId : Str) : ResponseItem → Bool
  | .toolSearchCall _ (some existing) _ => existing == callId
  | _ => false

def isToolSearchOutput (callId : Str) : ResponseItem → Bool
  | .toolSearchOutput _ (some existing) _ _ _ => existing == callId
  | _ => false

def isCustomToolCall (callId : Str) : ResponseItem → Bool
  | .customToolCall _ existing _ _ _ => existing == callId
  | _ => false

def isCustomToolCallOutput (callId : Str) : ResponseItem → Bool
  | .customToolCallOutput _ existing _ _ _ => existing == callId
  | _ => false

/-- An output may be of a function call or of a local shell call; the function calls are searched first. -/
def removeCorrespondingFor (items : List ResponseItem) : ResponseItem → List ResponseItem
  | .functionCall _ _ _ _ callId _ => items.eraseP (isFunctionCallOutput callId)
  | .functionCallOutput _ callId _ _ =>
    if items.any (isFunctionCall callId) then items.eraseP (isFunctionCall callId)
    else items.eraseP (isLocalShellCall callId)
  | .toolSearchCall _ (some callId) _ => items.eraseP (isToolSearchOutput callId)
  | .toolSearchOutput _ (some callId) _ _ _ => items.eraseP (isToolSearchCall callId)
  | .customToolCall _ callId _ _ _ => items.eraseP (isCustomToolCallOutput callId)
  | .customToolCallOutput _ callId _ _ _ => items.eraseP (isCustomToolCall callId)
  | .localShellCall _ (some callId) => items.eraseP (isFunctionCallOutput callId)
  | _ => items

def removeFirstItem : List ResponseItem → List ResponseItem
  | [] => []
  | removed :: items => removeCorrespondingFor items removed

/-! ## Calls and outputs -/

/-- The kinds of outputs; a local shell call is answered by the output of a function call. -/
inductive OutputKind
  | function
  | toolSearch
  | customTool
deriving DecidableEq

def ResponseItem.callKey : ResponseItem → Option (OutputKind × Str)
  | .functionCall _ _ _ _ callId _ => some (.function, callId)
  | .localShellCall _ (some callId) => some (.function, callId)
  | .toolSearchCall _ (some callId) _ => some (.toolSearch, callId)
  | .customToolCall _ callId _ _ _ => some (.customTool, callId)
  | _ => none

def ResponseItem.outputKey : ResponseItem → Option (OutputKind × Str)
  | .functionCallOutput _ callId _ _ => some (.function, callId)
  | .toolSearchOutput _ (some callId) _ _ _ => some (.toolSearch, callId)
  | .customToolCallOutput _ callId _ _ _ => some (.customTool, callId)
  | _ => none

def ResponseItem.serverExecuted : ResponseItem → Bool
  | .toolSearchOutput _ _ _ execution _ => execution == server
  | _ => false

/-- The call an output needs; one that the server executed needs none. -/
def ResponseItem.clientOutputKey (item : ResponseItem) : Option (OutputKind × Str) :=
  if item.serverExecuted then none else item.outputKey

open ResponseItem (callKey outputKey clientOutputKey serverExecuted)

theorem callKey_or_outputKey (item : ResponseItem) : item.callKey = none ∨ item.outputKey = none := by
  cases item with
  | localShellCall | functionCall | toolSearchCall | customToolCall => exact .inr rfl
  | _ => exact .inl rfl

def OutputIds.ofKind (ids : OutputIds) : OutputKind → List Str
  | .function => ids.function
  | .toolSearch => ids.toolSearch
  | .customTool => ids.customTool

theorem mem_insert_ofKind (ids : OutputIds) (item : ResponseItem) (kind : OutputKind) (callId : Str) :
    callId ∈ (ids.insert item).ofKind kind ↔ item.outputKey = some (kind, callId) ∨ callId ∈ ids.ofKind kind := by
  cases item with
  | functionCallOutput | customToolCallOutput => cases kind <;> simp [OutputIds.insert, OutputIds.ofKind, outputKey, eq_comm]
  | toolSearchOutput _ existing =>
    cases existing <;> cases kind <;> simp [OutputIds.insert, OutputIds.ofKind, outputKey, eq_comm]
  | _ => simp [OutputIds.insert, outputKey]

theorem mem_outputIds (items : List ResponseItem) (kind : OutputKind) (callId : Str) :
    callId ∈ (outputIds items).ofKind kind ↔ ∃ item ∈ items, item.outputKey = some (kind, callId) := by
  have hfold : ∀ (items : List ResponseItem) (ids : OutputIds), callId ∈ (items.foldl OutputIds.insert ids).ofKind kind ↔
        (∃ item ∈ items, item.outputKey = some (kind, callId)) ∨ callId ∈ ids.ofKind kind := by
    intro items
    induction items with
    | nil => simp
    | cons item items ih =>
      intro ids
      rw [foldl_cons, ih, mem_insert_ofKind, exists_mem_cons_iff, or_left_comm, or_assoc]
  have hempty : callId ∉ (⟨[], [], []⟩ : OutputIds).ofKind kind := by cases kind <;> exact not_mem_nil
  rw [outputIds, hfold]
  exact or_iff_left hempty

theorem mem_callIds (items : List ResponseItem) (callId : Str) :
    ((callId ∈ (callIds items).function ∨ callId ∈ (callIds items).localShell) ↔
      ∃ item ∈ items, item.callKey = some (.function, callId)) ∧
    (callId ∈ (callIds items).toolSearch ↔ ∃ item ∈ items, item.callKey = some (.toolSearch, callId)) ∧
    (callId ∈ (callIds items).customTool ↔ ∃ item ∈ items, item.callKey = some (.customTool, callId)) := by
  simp only [callIds, mem_filterMap, ← exists_or, ← and_or_left]
  refine ⟨exists_congr fun item => and_congr_right fun _ => ?_, exists_congr fun item => and_congr_right fun _ => ?_,
    exists_congr fun item => and_congr_right fun _ => ?_⟩
  all_goals cases item with
    | localShellCall _ existing | toolSearchCall _ existing => cases existing <;> simp [callKey]
    | _ => simp [callKey]

theorem hasMatch_iff (items : List ResponseItem) (item : ResponseItem) : hasMatch (callIds items) item ↔
      ∀ key, item.clientOutputKey = some key → ∃ call ∈ items, call.callKey = some key := by
  cases item with
  | functionCallOutput _ callId =>
    simp [hasMatch, clientOutputKey, serverExecuted, outputKey, (mem_callIds items callId).1]
  | customToolCallOutput _ callId =>
    simp [hasMatch, clientOutputKey, serverExecuted, outputKey, (mem_callIds items callId).2.2]
  | toolSearchOutput _ callId _ execution =>
    by_cases hserver : execution = server <;> cases callId <;>
      simp [hasMatch, clientOutputKey, serverExecuted, outputKey, hserver, (mem_callIds items _).2.1]
  | _ => simp [hasMatch, clientOutputKey, serverExecuted, outputKey]

variable {item : ResponseItem}

section Missing

variable (build : Build) (items : List ResponseItem)

/-- The output inserted for a call: one of the call's kind and id, unless the history has one. -/
def Completes (item : ResponseItem) (inserted : Option ResponseItem) : Prop :=
  (inserted = none ∧ ∀ key, item.callKey = some key → ∃ output ∈ items, output.outputKey = some key) ∨
  ∃ output key, inserted = some output ∧ item.callKey = some key ∧ (∀ item ∈ items, item.outputKey ≠ some key) ∧
    output.callKey = none ∧ output.outputKey = some key ∧ output.clientOutputKey = some key

theorem completes_ite (kind : OutputKind) {item output callId}
    (hcall : item.callKey = some (kind, callId)) (hnone : output.callKey = none)
    (houtput : output.outputKey = some (kind, callId)) (hclient : output.clientOutputKey = some (kind, callId)) :
    Completes items item (if ((outputIds items).ofKind kind).contains callId then none else some output) := by
  by_cases h : ∃ output ∈ items, output.outputKey = some (kind, callId)
  · have hids := (mem_outputIds items kind callId).2 h
    rw [if_pos (contains_iff_mem.2 hids)]
    refine .inl ⟨rfl, fun key hkey => ?_⟩
    cases hcall.symm.trans hkey
    exact h
  · have hids := mt (mem_outputIds items kind callId).1 h
    rw [if_neg (mt contains_iff_mem.1 hids)]
    exact .inr ⟨output, _, rfl, hcall, fun item hitem hkey => h ⟨item, hitem, hkey⟩, hnone, houtput, hclient⟩

theorem completes_of_callKey_none (h : item.callKey = none) : Completes items item none :=
  .inl ⟨rfl, fun _ hkey => nomatch h.symm.trans hkey⟩

theorem completes_missingOutput (item : ResponseItem) : Completes items item (missingOutput build (outputIds items) item) := by
  cases item with
  | functionCall => exact completes_ite items .function rfl rfl rfl rfl
  | customToolCall => exact completes_ite items .customTool rfl rfl rfl rfl
  | toolSearchCall _ callId =>
    cases callId with
    | none => exact completes_of_callKey_none items rfl
    | some => exact completes_ite items .toolSearch rfl rfl rfl rfl
  | localShellCall _ callId =>
    cases callId with
    | none => exact completes_of_callKey_none items rfl
    | some => exact completes_ite items .function rfl rfl rfl rfl
  | _ => exact completes_of_callKey_none items rfl

theorem missingOutputMessage_of_none
    (h : missingOutput build (outputIds items) item = none) : missingOutputMessage (outputIds items) item = none := by
  cases item with
  | customToolCall _ callId =>
    unfold missingOutput at h
    unfold missingOutputMessage
    split at h <;> simp_all
  | localShellCall _ callId =>
    cases callId with
    | none => rfl
    | some callId =>
      unfold missingOutput at h
      unfold missingOutputMessage
      split at h <;> simp_all
  | _ => rfl

end Missing

/-! ## Content the model cannot read -/

section Content

def ContentItem.isImage : ContentItem → Bool
  | .inputImage _ => true
  | _ => false

def ContentItem.isAudio : ContentItem → Bool
  | .inputAudio _ => true
  | _ => false

def FunctionCallOutputContentItem.isImage : FunctionCallOutputContentItem → Bool
  | .inputImage _ => true
  | _ => false

def FunctionCallOutputContentItem.isAudio : FunctionCallOutputContentItem → Bool
  | .inputAudio _ => true
  | _ => false

def FunctionCallOutputPayload.any (p : FunctionCallOutputContentItem → Bool) (output : FunctionCallOutputPayload) : Bool :=
  match output.body with
  | .text _ => false
  | .contentItems items => items.any p

def ResponseItem.hasImage : ResponseItem → Bool
  | .message _ _ content _ => content.any ContentItem.isImage
  | .functionCallOutput _ _ output _ => output.any FunctionCallOutputContentItem.isImage
  | .customToolCallOutput _ _ _ output _ => output.any FunctionCallOutputContentItem.isImage
  | .imageGenerationCall _ _ _ result => !result.isEmpty
  | _ => false

def ResponseItem.hasAudio : ResponseItem → Bool
  | .message _ _ content _ => content.any ContentItem.isAudio
  | .functionCallOutput _ _ output _ => output.any FunctionCallOutputContentItem.isAudio
  | .customToolCallOutput _ _ _ output _ => output.any FunctionCallOutputContentItem.isAudio
  | _ => false

/-- What replaces the items of a kind leaves none of the kind, and changes nothing where there is none. -/
structure Strips {α : Type} (f : α → α) (isKind : α → Bool) : Prop where
  none_left : ∀ x, isKind (f x) = false
  eq_self : ∀ x, isKind x = false → f x = x

theorem strips_stripImageContent : Strips stripImageContent ContentItem.isImage :=
  ⟨fun x => by cases x <;> rfl, fun x h => by cases x <;> first | rfl | cases h⟩

theorem strips_stripAudioContent : Strips stripAudioContent ContentItem.isAudio :=
  ⟨fun x => by cases x <;> rfl, fun x h => by cases x <;> first | rfl | cases h⟩

theorem strips_stripImageOutput : Strips stripImageOutput isImage :=
  ⟨fun x => by cases x <;> rfl, fun x h => by cases x <;> first | rfl | cases h⟩

theorem strips_stripAudioOutput : Strips stripAudioOutput isAudio :=
  ⟨fun x => by cases x <;> rfl, fun x h => by cases x <;> first | rfl | cases h⟩

section

variable {α : Type} {f : α → α} {isKind : α → Bool} (h : Strips f isKind)
include h

theorem Strips.ite_eq_self {b x} (hx : b = false → isKind x = false) : (if b then x else f x) = x := by
  cases b with
  | true => rfl
  | false => exact h.eq_self x (hx rfl)

theorem Strips.map : Strips (List.map f) (List.any · isKind) where
  none_left items := by simp [h.none_left]
  eq_self items hitems := by
    rw [any_eq_false] at hitems
    exact map_congr_left (fun x hx => h.eq_self x (Bool.eq_false_iff.2 (hitems x hx))) |>.trans (map_id items)

end

theorem Strips.payload {f : FunctionCallOutputContentItem → FunctionCallOutputContentItem}
    {isKind : FunctionCallOutputContentItem → Bool} (h : Strips f isKind) :
    Strips (FunctionCallOutputPayload.mapContentItems f) (FunctionCallOutputPayload.any isKind) where
  none_left output := by
    obtain ⟨body, success⟩ := output
    cases body with
    | text => rfl
    | contentItems items => exact h.map.none_left items
  eq_self output houtput := by
    obtain ⟨body, success⟩ := output
    cases body with
    | text => rfl
    | contentItems items =>
      show (⟨.contentItems (items.map f), success⟩ : FunctionCallOutputPayload) = _
      rw [h.map.eq_self items houtput]

theorem strips_stripImage : Strips stripImage ResponseItem.hasImage where
  none_left item := by
    cases item with
    | message _ _ content => exact strips_stripImageContent.map.none_left content
    | functionCallOutput _ _ output | customToolCallOutput _ _ _ output =>
      exact strips_stripImageOutput.payload.none_left output
    | _ => rfl
  eq_self item h := by
    cases item with
    | message _ _ content => rw [stripImage, strips_stripImageContent.map.eq_self content h]
    | functionCallOutput _ _ output | customToolCallOutput _ _ _ output =>
      rw [stripImage, strips_stripImageOutput.payload.eq_self output h]
    | imageGenerationCall _ _ _ result =>
      rw [List.isEmpty_iff.1 (by simpa [ResponseItem.hasImage] using h : result.isEmpty), stripImage]
    | _ => rfl

theorem strips_stripAudio : Strips stripAudio ResponseItem.hasAudio where
  none_left item := by
    cases item with
    | message _ _ content => exact strips_stripAudioContent.map.none_left content
    | functionCallOutput _ _ output | customToolCallOutput _ _ _ output =>
      exact strips_stripAudioOutput.payload.none_left output
    | _ => rfl
  eq_self item h := by
    cases item with
    | message _ _ content => rw [stripAudio, strips_stripAudioContent.map.eq_self content h]
    | functionCallOutput _ _ output | customToolCallOutput _ _ _ output =>
      rw [stripAudio, strips_stripAudioOutput.payload.eq_self output h]
    | _ => rfl

theorem any_isImage_stripAudioOutput (output : FunctionCallOutputPayload) :
    (output.mapContentItems stripAudioOutput).any isImage = output.any isImage := by
  obtain ⟨body, _⟩ := output
  cases body with
  | text => rfl
  | contentItems items =>
    exact any_map.trans (congrArg items.any (funext fun x => by cases x <;> rfl))

theorem hasImage_stripAudio (item : ResponseItem) : (stripAudio item).hasImage = item.hasImage := by
  cases item with
  | message _ _ content =>
    exact any_map.trans (congrArg content.any (funext fun x => by cases x <;> rfl))
  | functionCallOutput _ _ output | customToolCallOutput _ _ _ output => exact any_isImage_stripAudioOutput output
  | _ => rfl

end Content

/-! ## The normalized history -/

/-- Every call has an output of its kind and id; every output that a client executed has its call. -/
structure Paired (items : List ResponseItem) : Prop where
  calls : ∀ item ∈ items, ∀ key, item.callKey = some key → ∃ output ∈ items, output.outputKey = some key
  outputs : ∀ item ∈ items, ∀ key, item.clientOutputKey = some key → ∃ call ∈ items, call.callKey = some key

section Normalized

variable (build : Build) (modalities : List InputModality) (items : List ResponseItem)

def completed : List ResponseItem :=
  items.flatMap (fun item => item :: (missingOutput build (outputIds items) item).toList)

def matched : List ResponseItem := items.filter (hasMatch (callIds items))

def strip (item : ResponseItem) : ResponseItem :=
  let item := if modalities.contains .image then item else stripImage item
  if modalities.contains .audio then item else stripAudio item

def normalized : List ResponseItem := (matched (completed build items)).map (strip modalities)

theorem stripWhenUnsupported_eq :
    stripAudioWhenUnsupported modalities (stripImagesWhenUnsupported modalities items) = items.map (strip modalities) := by
  unfold stripAudioWhenUnsupported stripImagesWhenUnsupported strip
  cases modalities.contains .image <;> cases modalities.contains .audio <;> simp

theorem strip_keys (item : ResponseItem) :
    (strip modalities item).callKey = item.callKey ∧ (strip modalities item).outputKey = item.outputKey ∧
      (strip modalities item).clientOutputKey = item.clientOutputKey := by
  unfold strip
  cases modalities.contains .image <;> cases modalities.contains .audio <;> cases item <;> exact ⟨rfl, rfl, rfl⟩

theorem errorOrPanic_bind (messages : List Str) (result : Except Str (List ResponseItem)) :
    (errorOrPanic build messages >>= fun _ => result) = result ∨ build.debugAssertions ∧
      ∃ message, (errorOrPanic build messages >>= fun _ => result) = .error message := by
  cases messages with
  | nil => exact .inl rfl
  | cons message =>
    unfold errorOrPanic
    cases build.debugAssertions with
    | false => exact .inl rfl
    | true => exact .inr ⟨rfl, message, rfl⟩

theorem forPrompt_eq : forPrompt build modalities items =
    (errorOrPanic build (items.filterMap (missingOutputMessage (outputIds items))) >>= fun _ =>
      errorOrPanic build (((completed build items).filter (!hasMatch (callIds (completed build items)) ·)).map orphanMessage) >>=
        fun _ => .ok (normalized build modalities items)) := by
  have hcompleted : insertBehind items (found (missingOutput build (outputIds items)) items 0) = completed build items :=
    insertBehind_found _ items
  unfold forPrompt normalizeHistory ensureCallOutputsPresent removeOrphanOutputs
  simp only [hcompleted, bind_assoc, pure_bind, stripWhenUnsupported_eq]
  rfl

/-- **A prompt is the normalized history**, unless debug assertions are on and something was missing or orphaned. -/
theorem forPrompt_cases : forPrompt build modalities items = .ok (normalized build modalities items) ∨
      build.debugAssertions ∧ ∃ message, forPrompt build modalities items = .error message := by
  rw [forPrompt_eq]
  rcases errorOrPanic_bind build (items.filterMap (missingOutputMessage (outputIds items))) _ with h | h
  · rw [h]
    exact errorOrPanic_bind build _ _
  · exact .inr h

/-- Where calls and outputs are paired and nothing is left to replace, a prompt is the history itself. -/
theorem forPrompt_of_paired (hpaired : Paired items) (hstrip : ∀ item ∈ items, strip modalities item = item) :
    forPrompt build modalities items = .ok items := by
  have hmissing : ∀ item ∈ items, missingOutput build (outputIds items) item = none := by
    intro item hitem
    rcases completes_missingOutput build items item with h | ⟨_, key, _, hkey, habsent, _⟩
    · exact h.1
    · obtain ⟨output, houtput, hout⟩ := hpaired.calls item hitem key hkey
      exact absurd hout (habsent output houtput)
  have hmatch : ∀ item ∈ items, hasMatch (callIds items) item := fun item hitem =>
    (hasMatch_iff items item).2 (hpaired.outputs item hitem)
  have hmessages : items.filterMap (missingOutputMessage (outputIds items)) = [] :=
    filterMap_eq_nil_iff.2 fun item hitem => missingOutputMessage_of_none build items (hmissing item hitem)
  have hcompleted : completed build items = items := by
    unfold completed
    rw [flatMap_congr fun item hitem => by rw [hmissing item hitem]]
    exact flatMap_singleton' items
  have horphans : items.filter (!hasMatch (callIds items) ·) = [] :=
    filter_eq_nil_iff.2 fun item hitem => by simp [hmatch item hitem]
  have hnormalized : normalized build modalities items = items := by
    unfold normalized matched
    rw [hcompleted, filter_eq_self.2 hmatch]
    exact (map_congr_left hstrip).trans (map_id items)
  rw [forPrompt_eq, hmessages, hcompleted, horphans, hnormalized]
  rfl

theorem mem_completed :
    item ∈ completed build items ↔ item ∈ items ∨ ∃ call ∈ items, missingOutput build (outputIds items) call = some item := by
  simp [completed, and_or_left, exists_or]

theorem call_completed_iff (key : OutputKind × Str) :
    (∃ call ∈ completed build items, call.callKey = some key) ↔ ∃ call ∈ items, call.callKey = some key := by
  constructor
  · rintro ⟨call, hcall, hkey⟩
    rcases (mem_completed build items).1 hcall with hcall | ⟨source, _, hsome⟩
    · exact ⟨call, hcall, hkey⟩
    rcases completes_missingOutput build items source with ⟨hnone, _⟩ | ⟨output, _, hout, _, _, hcallKey, _⟩
    · cases hnone.symm.trans hsome
    · cases hout.symm.trans hsome
      cases hcallKey.symm.trans hkey
  · rintro ⟨call, hcall, hkey⟩
    exact ⟨call, (mem_completed build items).2 (.inl hcall), hkey⟩

theorem calls_completed (hitem : item ∈ completed build items) {key}
    (hkey : item.callKey = some key) : ∃ output ∈ completed build items, output.outputKey = some key := by
  obtain ⟨call, hcall, hcallKey⟩ := (call_completed_iff build items key).1 ⟨item, hitem, hkey⟩
  rcases completes_missingOutput build items call with ⟨_, hall⟩ | ⟨output, key', hout, hkey', _, _, houtput, _⟩
  · obtain ⟨output, hmem, houtput⟩ := hall key hcallKey
    exact ⟨output, (mem_completed build items).2 (.inl hmem), houtput⟩
  · cases hcallKey.symm.trans hkey'
    exact ⟨output, (mem_completed build items).2 (.inr ⟨call, hcall, hout⟩), houtput⟩

theorem clientOutputKey_eq_some {key} (h : item.clientOutputKey = some key) : item.outputKey = some key := by
  exact (Option.ite_none_left_eq_some.1 h).2

theorem paired_matched {items}
    (hcalls : ∀ item ∈ items, ∀ key, item.callKey = some key → ∃ output ∈ items, output.outputKey = some key) :
    Paired (matched items) := by
  have hcall : ∀ item ∈ items, ∀ key, item.callKey = some key → item ∈ matched items := by
    intro item hitem key hkey
    refine mem_filter.2 ⟨hitem, (hasMatch_iff items item).2 fun key' hkey' => ?_⟩
    rcases callKey_or_outputKey item with h | h
    · cases h.symm.trans hkey
    · cases h.symm.trans (clientOutputKey_eq_some hkey')
  refine ⟨fun item hitem key hkey => ?_, fun item hitem key hkey => ?_⟩
  · have hmem := (mem_filter.1 hitem).1
    obtain ⟨output, houtput, hout⟩ := hcalls item hmem key hkey
    refine ⟨output, mem_filter.2 ⟨houtput, (hasMatch_iff items output).2 fun key' hkey' => ?_⟩, hout⟩
    cases hout.symm.trans (clientOutputKey_eq_some hkey')
    exact ⟨item, hmem, hkey⟩
  · have hmem := mem_filter.1 hitem
    obtain ⟨call, hmemCall, hcallKey⟩ := (hasMatch_iff items item).1 hmem.2 key hkey
    exact ⟨call, hcall call hmemCall key hcallKey, hcallKey⟩

theorem Paired.map_strip {items} (h : Paired items) : Paired (items.map (strip modalities)) := by
  refine ⟨fun item hitem key hkey => ?_, fun item hitem key hkey => ?_⟩ <;> obtain ⟨source, hsource, rfl⟩ := mem_map.1 hitem
  · rw [(strip_keys modalities source).1] at hkey
    obtain ⟨output, houtput, hout⟩ := h.calls source hsource key hkey
    exact ⟨_, mem_map_of_mem houtput, (strip_keys modalities output).2.1.trans hout⟩
  · rw [(strip_keys modalities source).2.2] at hkey
    obtain ⟨call, hcall, hcallKey⟩ := h.outputs source hsource key hkey
    exact ⟨_, mem_map_of_mem hcall, (strip_keys modalities call).1.trans hcallKey⟩

theorem paired_normalized : Paired (normalized build modalities items) :=
  (paired_matched fun _ hitem _ hkey => calls_completed build items hitem hkey).map_strip modalities

def others : List ResponseItem := items.filter (fun item => item.clientOutputKey = none)

theorem others_completed : others (completed build items) = others items := by
  unfold others completed
  rw [filter_flatMap]
  have hone : ∀ item, (item :: (missingOutput build (outputIds items) item).toList).filter
      (fun item => item.clientOutputKey = none) = [item].filter (fun item => item.clientOutputKey = none) := by
    intro item
    rcases completes_missingOutput build items item with ⟨h, _⟩ | ⟨output, key, h, _, _, _, _, hclient⟩ <;> rw [h]
    · rfl
    · simp [filter_cons, hclient]
  rw [flatMap_congr fun item _ => hone item, ← filter_flatMap, flatMap_singleton']

theorem others_matched : others (matched items) = others items := by
  unfold others matched
  rw [filter_filter]
  refine filter_congr fun item hitem => ?_
  by_cases h : item.clientOutputKey = none
  · have hmatch := (hasMatch_iff items item).2 fun key hkey => nomatch h.symm.trans hkey
    simp [h, hmatch]
  · simp [h]

/-- **What is no client's output is kept, in order, and nothing but outputs is added.** -/
theorem others_normalized : others (normalized build modalities items) = (others items).map (strip modalities) := by
  have hmap : ∀ items, others (items.map (strip modalities)) = (others items).map (strip modalities) := by
    intro items
    simp [others, filter_map, Function.comp_def, strip_keys]
  rw [normalized, hmap, others_matched, others_completed]

theorem matched_sublist_normalized : ((matched items).map (strip modalities)).Sublist (normalized build modalities items) := by
  have hsame : hasMatch (callIds items) = hasMatch (callIds (completed build items)) := by
    funext item
    rw [Bool.eq_iff_iff, hasMatch_iff, hasMatch_iff]
    simp only [call_completed_iff]
  have hsub : items.Sublist (completed build items) := by
    conv_lhs => rw [← flatMap_singleton' items]
    exact Sublist.flatMap_right items fun _ _ => singleton_sublist.2 mem_cons_self
  unfold normalized matched
  rw [hsame]
  exact (hsub.filter _).map _

theorem hasImage_strip (h : InputModality.image ∉ modalities) (item : ResponseItem) : (strip modalities item).hasImage = false := by
  have hc : modalities.contains .image = false := by simpa using h
  unfold strip
  rw [hc]
  cases modalities.contains .audio with
  | true => exact strips_stripImage.none_left item
  | false => exact (hasImage_stripAudio _).trans (strips_stripImage.none_left item)

theorem hasAudio_strip (h : InputModality.audio ∉ modalities) (item : ResponseItem) : (strip modalities item).hasAudio = false := by
  have hc : modalities.contains .audio = false := by simpa using h
  unfold strip
  rw [hc]
  exact strips_stripAudio.none_left _

theorem strip_strip (item : ResponseItem) : strip modalities (strip modalities item) = strip modalities item := by
  have himage := strips_stripImage.ite_eq_self (b := modalities.contains .image) fun h =>
    hasImage_strip modalities (by simpa using h) item
  have haudio := strips_stripAudio.ite_eq_self (b := modalities.contains .audio) fun h =>
    hasAudio_strip modalities (by simpa using h) item
  show (if _ then ite _ (strip modalities item) _ else stripAudio (ite _ (strip modalities item) _)) = _
  rw [himage]
  exact haudio

end Normalized

/-! ## Removal from the front -/

section Removal

theorem isOutput_iff (callId : Str) (item : ResponseItem) :
    (isFunctionCallOutput callId item ↔ item.outputKey = some (.function, callId)) ∧
      (isToolSearchOutput callId item ↔ item.outputKey = some (.toolSearch, callId)) ∧
      (isCustomToolCallOutput callId item ↔ item.outputKey = some (.customTool, callId)) := by
  cases item with
  | toolSearchOutput _ existing =>
    cases existing <;> simp [isFunctionCallOutput, isToolSearchOutput, isCustomToolCallOutput, outputKey]
  | _ => simp [isFunctionCallOutput, isToolSearchOutput, isCustomToolCallOutput, outputKey]

theorem isCall_iff (callId : Str) (item : ResponseItem) :
    ((isFunctionCall callId item ∨ isLocalShellCall callId item) ↔ item.callKey = some (.function, callId)) ∧
      (isToolSearchCall callId item ↔ item.callKey = some (.toolSearch, callId)) ∧
      (isCustomToolCall callId item ↔ item.callKey = some (.customTool, callId)) := by
  cases item with
  | toolSearchCall _ existing | localShellCall _ existing =>
    cases existing <;> simp [isFunctionCall, isLocalShellCall, isToolSearchCall, isCustomToolCall, callKey]
  | _ => simp [isFunctionCall, isLocalShellCall, isToolSearchCall, isCustomToolCall, callKey]

/-- Where no call id stands twice, the call of an output is found among the function calls or else the shell calls. -/
theorem eraseP_function {items : List ResponseItem} (hcalls : (items.filterMap callKey).Nodup) (callId : Str) :
    (if items.any (isFunctionCall callId) then items.eraseP (isFunctionCall callId)
      else items.eraseP (isLocalShellCall callId)) = dropKey callKey (some (.function, callId)) items := by
  split
  · obtain ⟨call, hcall, hfunction⟩ := any_eq_true.1 ‹_›
    refine eraseP_eq_dropKey fun item hitem => ⟨fun h => (isCall_iff callId item).1.1 (.inl h), fun h => ?_⟩
    rw [eq_of_key_eq hcalls hitem hcall h ((isCall_iff callId call).1.1 (.inl hfunction))]
    exact hfunction
  · rename_i hany
    rw [Bool.not_eq_true, any_eq_false] at hany
    refine eraseP_eq_dropKey fun item hitem => ?_
    rw [← (isCall_iff callId item).1]
    exact (or_iff_right (hany item hitem)).symm

/-- **The first item goes with its partner**, where no call id stands twice. -/
theorem removeFirstItem_eq {items} (hcalls : (items.filterMap callKey).Nodup) :
    removeFirstItem items = dropFirst callKey outputKey items := by
  cases items with
  | nil => rfl
  | cons removed =>
    cases removed with
    | functionCall _ _ _ _ callId => exact eraseP_eq_dropKey fun item _ => (isOutput_iff callId item).1
    | functionCallOutput _ callId =>
      rw [filterMap_cons_none rfl] at hcalls
      exact eraseP_function hcalls callId
    | customToolCall _ callId => exact eraseP_eq_dropKey fun item _ => (isOutput_iff callId item).2.2
    | customToolCallOutput _ callId => exact eraseP_eq_dropKey fun item _ => (isCall_iff callId item).2.2
    | toolSearchCall _ callId =>
      cases callId with
      | none => rfl
      | some callId => exact eraseP_eq_dropKey fun item _ => (isOutput_iff callId item).2.1
    | toolSearchOutput _ callId =>
      cases callId with
      | none => rfl
      | some callId => exact eraseP_eq_dropKey fun item _ => (isCall_iff callId item).2.1
    | localShellCall _ callId =>
      cases callId with
      | none => rfl
      | some callId => exact eraseP_eq_dropKey fun item _ => (isOutput_iff callId item).1
    | _ => rfl

theorem keeps_removeFirstItem (n : Nat) {items} (hcalls : (items.filterMap callKey).Nodup)
    (houtputs : (items.filterMap outputKey).Nodup) :
    Keeps callKey outputKey items (removeFirstItem^[n] items) := by
  refine Keeps.iterate (fun items hcalls houtputs => ?_) n hcalls houtputs
  rw [removeFirstItem_eq hcalls]
  exact keeps_dropFirst callKey_or_outputKey hcalls houtputs

end Removal

/-- **A prompt pairs calls with outputs, keeps the rest in order and shows the model nothing it cannot read; it is its own
prompt.**  A build with debug assertions may panic instead.  Items removed from the front, however many, take their
partners along, where no call id stands twice in a kind. -/
theorem prompt_paired (build : Build) (modalities : List InputModality) (history : List ResponseItem) :
    (build.debugAssertions = false → ∃ items, forPrompt build modalities history = .ok items) ∧
    (∀ items, forPrompt build modalities history = .ok items →
      Paired items ∧
      others items = (others history).map (strip modalities) ∧
      ((matched history).map (strip modalities)).Sublist items ∧
      (.image ∉ modalities → ∀ item ∈ items, item.hasImage = false) ∧
      (.audio ∉ modalities → ∀ item ∈ items, item.hasAudio = false) ∧
      forPrompt build modalities items = .ok items) ∧
    ((history.filterMap ResponseItem.callKey).Nodup → (history.filterMap ResponseItem.outputKey).Nodup →
      ∀ n, Keeps ResponseItem.callKey ResponseItem.outputKey history (removeFirstItem^[n] history)) := by
  refine ⟨fun hrelease => ?_, fun items hitems => ?_, fun hcalls houtputs n => keeps_removeFirstItem n hcalls houtputs⟩
  · rcases forPrompt_cases build modalities history with h | ⟨hdebug, _⟩
    · exact ⟨_, h⟩
    · cases hrelease.symm.trans hdebug
  · have heq : items = normalized build modalities history := by
      rcases forPrompt_cases build modalities history with h | ⟨_, _, h⟩
      · exact Except.ok.inj (hitems.symm.trans h)
      · cases hitems.symm.trans h
    subst heq
    have hpaired := paired_normalized build modalities history
    have hstripped : ∀ item ∈ normalized build modalities history, ∃ source, strip modalities source = item :=
      fun item hitem => (mem_map.1 hitem).imp fun _ h => h.2
    refine ⟨hpaired, others_normalized build modalities history, matched_sublist_normalized build modalities history,
      fun himage item hitem => ?_, fun haudio item hitem => ?_, forPrompt_of_paired build modalities _ hpaired ?_⟩
    · obtain ⟨source, rfl⟩ := hstripped item hitem
      exact hasImage_strip modalities himage source
    · obtain ⟨source, rfl⟩ := hstripped item hitem
      exact hasAudio_strip modalities haudio source
    · intro item hitem
      obtain ⟨source, rfl⟩ := hstripped item hitem
      exact strip_strip modalities source

def releaseBuild : Build where
  debugAssertions := false
  newV5 _ name := name

def interruptedHistory : List ResponseItem :=
  [.localShellCall (some ['i']) (some ['a']), .functionCallOutput none ['z'] aborted none,
    .customToolCall none ['b'] ['t'] [] none,
    .customToolCallOutput none ['b'] none ⟨.contentItems [.inputImage ['u'], .inputAudio ['v']], none⟩ none]

theorem interrupted_prompt_paired :
    ∃ items, forPrompt releaseBuild [.text, .audio] interruptedHistory = .ok items ∧ Paired items ∧
      items = [.localShellCall (some ['i']) (some ['a']), .functionCallOutput (some "fco_fco:i".toList) ['a'] aborted none,
        .customToolCall none ['b'] ['t'] [] none,
        .customToolCallOutput none ['b'] none
          ⟨.contentItems [.inputText imageContentOmittedPlaceholder, .inputAudio ['v']], none⟩ none] ∧
      Keeps ResponseItem.callKey ResponseItem.outputKey interruptedHistory (removeFirstItem^[3] interruptedHistory) ∧
      removeFirstItem^[3] interruptedHistory = [] := by
  obtain ⟨hreturns, hprompt, hremoved⟩ := prompt_paired releaseBuild [.text, .audio] interruptedHistory
  obtain ⟨items, hitems⟩ := hreturns rfl
  refine ⟨items, hitems, (hprompt items hitems).1, ?_, hremoved (by decide) (by decide) 3, by decide⟩
  have hvalue : forPrompt releaseBuild [.text, .audio] interruptedHistory =
      .ok (normalized releaseBuild [.text, .audio] interruptedHistory) := rfl
  rw [Except.ok.inj (hitems.symm.trans hvalue)]
  decide

end Owc.History
