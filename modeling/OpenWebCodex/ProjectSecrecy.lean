import OpenWebCodex.ProjectMapCard
/-!
# ProjectSecrecy — no secret reaches the browser

Frames that differ only below sensitive keys and in the directories of absolute paths have the same payload, and the same
artifact unless the second is refused at a gate (`frame_secrecy`).
-/
namespace Owc.Projection

open Option Json

def artifactCard (structured : Json.Map) : Option Json.Map :=
  ((structured.get "artifact".toList).bind Json.asObject).bind (fun artifact =>
    ((artifact.get "renderer".toList).bind Json.asObject).bind (fun renderer =>
      (renderer.get "payload".toList).bind Json.asObject))

def plainItem (item : Json.Map) : Bool := ((structuredContent item).bind artifactCard).all plainCard

/-- The item passes what is asked of its warnings, and its card the gate. -/
def passesGates (item : Json.Map) : Bool :=
  (structuredContent item).all (fun structured =>
    (structured.get "warnings".toList).all validateInlineVisualizationWarnings &&
    (artifactCard structured).all sanitizedCard)

/-! ## Artifacts -/

theorem structuredContent_alike {item item' : Json.Map} (h : alikeMembers item item') {structured : Json.Map}
    (hs : structuredContent item = some structured) :
    ∃ structured', structuredContent item' = some structured' ∧ alikeMembers structured structured' := by
  simp only [structuredContent] at hs ⊢
  obtain ⟨result, hr, hs⟩ := bind_eq_some_iff.1 hs
  obtain ⟨result', hr', hresult⟩ := alikeMembers_object_some h (k := "result".toList) (by decide) hr
  rw [hr', bind_some]
  exact alikeMembers_object_some hresult (by decide) hs

theorem unique_card {item structured card : Json.Map} (hu : Json.unique (.object item))
    (hs : structuredContent item = some structured) (hc : artifactCard structured = some card) :
    Json.unique (.object card) := by
  simp only [structuredContent, artifactCard, bind_eq_some_iff] at hs hc
  obtain ⟨_, hr, hs⟩ := hs
  obtain ⟨_, ha, _, hren, hc⟩ := hc
  have hresult := unique_object_of_get hu (bind_eq_some_iff.2 hr)
  have hstructured := unique_object_of_get hresult (bind_eq_some_iff.2 hs)
  have hartifact := unique_object_of_get hstructured (bind_eq_some_iff.2 ha)
  have hrenderer := unique_object_of_get hartifact (bind_eq_some_iff.2 hren)
  exact unique_object_of_get hrenderer (bind_eq_some_iff.2 hc)

theorem projectInlineRenderer_alike {kind : Str} {card card' : Json.Map} (h : alikeMembers card card')
    (hu : Json.unique (.object card)) (hp : plainCard card) (hs : sanitizedCard card') {payload : Json}
    (hx : projectInlineRenderer kind card = some payload) : projectInlineRenderer kind card' = some payload := by
  unfold projectInlineRenderer at hx ⊢
  by_cases hk : kind = "map.v3".toList
  · rw [if_pos hk] at hx ⊢
    exact projectMapCardV3_alike h hu hp hs hx
  · rw [if_neg hk] at hx
    cases hx

variable {a : InlineVisualizationArtifactCandidate}

/-- **An item that is alike to one with an accepted artifact has the same artifact, if it passes the gates.** -/
theorem projectInlineVisualizationArtifact_alike {item item' : Json.Map} (h : alikeMembers item item')
    (hu : Json.unique (.object item)) (hp : plainItem item) (hg : passesGates item')
    (ha : projectInlineVisualizationArtifact item = some a) :
    projectInlineVisualizationArtifact item' = some a := by
  simp only [projectInlineVisualizationArtifact, bind, bind_eq_some_iff, require_eq_some, Bool.and_eq_true] at ha ⊢
  obtain ⟨structured, hs, _, ⟨⟨htype, hkind⟩, hkeys⟩, _, -, artifact, hart, _, hartKeys, artifactRef, href, _, hrefOk,
    renderer, hren, _, hrenKeys, rendererKind, hrenKind, card, hcard, payload, hpay, embed, hemb, _,
    ⟨⟨hembKeys, hsyntax⟩, hcode⟩, ha⟩ := ha
  rw [← bind_eq_some_iff] at hart hren hcard hemb
  obtain ⟨structured', hs', hst⟩ := structuredContent_alike h hs
  obtain ⟨artifact', hart', har⟩ := alikeMembers_object_some hst (by decide) hart
  obtain ⟨renderer', hren', hre⟩ := alikeMembers_object_some har (by decide) hren
  obtain ⟨card', hcard', hca⟩ := alikeMembers_object_some hre (by decide) hcard
  obtain ⟨embed', hemb', hem⟩ := alikeMembers_object_some hst (by decide) hemb
  -- the card is where `plainItem` and `passesGates` look for it
  have hplace : artifactCard structured = some card := by
    rw [artifactCard, hart, bind_some, hren, bind_some, hcard]
  have hplace' : artifactCard structured' = some card' := by
    rw [artifactCard, hart', bind_some, hren', bind_some, hcard']
  rw [plainItem, hs, bind_some, hplace, all_some] at hp
  rw [passesGates, hs', all_some, hplace', all_some, Bool.and_eq_true] at hg
  have hpay' := projectInlineRenderer_alike hca (unique_card hu hs hplace) hp hg.2 hpay
  rw [isStr_eq hst (by decide)] at htype hkind
  rw [keysWithin_eq hst] at hkeys
  rw [keysWithin_eq har] at hartKeys
  rw [keysWithin_eq hre] at hrenKeys
  rw [keysWithin_eq hem] at hembKeys
  rw [alikeMembers_str har (by decide)] at href
  rw [alikeMembers_str hre (by decide)] at hrenKind
  rw [isStr_eq hem (by decide)] at hsyntax
  rw [alikeMembers_str hem (by decide)] at hcode
  rw [bind_eq_some_iff] at hart' hren' hcard' hemb'
  exact ⟨structured', hs', (), ⟨⟨htype, hkind⟩, hkeys⟩, (), hg.1, artifact', hart', (), hartKeys, artifactRef, href, (), hrefOk,
    renderer', hren', (), hrenKeys, rendererKind, hrenKind, card', hcard', payload, hpay', embed', hemb', (),
    ⟨⟨hembKeys, hsyntax⟩, hcode⟩, ha⟩

theorem passesGates_of_some (ha : projectInlineVisualizationArtifact item = some a) : passesGates item := by
  simp only [projectInlineVisualizationArtifact, bind, bind_eq_some_iff, require_eq_some] at ha
  obtain ⟨structured, hs, _, -, _, hwarn, artifact, hart, _, -, _, -, _, -, renderer, hren, _, -, kind, -, card, hcard,
    payload, hpay, -⟩ := ha
  rw [← bind_eq_some_iff] at hart hren hcard
  have hplace : artifactCard structured = some card := by
    rw [artifactCard, hart, bind_some, hren, bind_some, hcard]
  rw [passesGates, hs, all_some, hwarn, hplace, all_some, Bool.true_and]
  unfold projectInlineRenderer at hpay
  split at hpay
  · exact sanitizedCard_of_some hpay
  · cases hpay

/-! ## Frames -/

theorem unique_envelopeMessage (hu : value.unique)
    (h : envelopeMessage value = some m) : Json.unique (.object m) := by
  simp only [envelopeMessage, bind, bind_eq_some_iff, Json.get] at h
  obtain ⟨_, -, _, ⟨_, henvelope, hparams⟩, _, ⟨_, hps, hmessage⟩, hm⟩ := h
  rw [Json.eq_of_asObject henvelope] at hu
  have hup := unique_of_get hu hparams
  rw [Json.eq_of_asObject hps] at hup
  rw [← Json.eq_of_asObject hm]
  exact unique_of_get hup hmessage

theorem unique_internalMessage
    (h : internalMessage crates data = .ok (some m)) : Json.unique (.object m) := by
  unfold internalMessage at h
  split at h
  · cases h
  split at h
  · cases h
  split at h
  · cases h
  · rename_i value hvalue
    exact unique_envelopeMessage (crates.unique _ value hvalue) (by simpa using h)

theorem unique_messageItem {m item : Json.Map} (hu : Json.unique (.object m)) (h : messageItem m = some item) :
    Json.unique (.object item) := by
  unfold messageItem messageParams at h
  cases hp : (m.get "params".toList).bind asObject with
  | none => rw [hp] at h; cases h
  | some =>
    rw [hp, getD_some] at h
    exact unique_object_of_get (unique_object_of_get hu hp) h

theorem projectFrame_eq
    (h : internalMessage crates data = .ok (some m)) : projectFrame crates data = .ok (projectMessage crates m) := by
  rw [projectFrame, h]

/-- The artifact of the second of two alike items: that of the first, or none because a gate refuses it. -/
theorem artifact_alike {x y : Option Json.Map} (h : Option.Rel (fun m n => alikeMembers m n) x y)
    (hu : ∀ item, x = some item → Json.unique (.object item)) (hp : x.all plainItem)
    (ha : x.bind projectInlineVisualizationArtifact = some a) :
    y.bind projectInlineVisualizationArtifact = some a ∨
      (y.bind projectInlineVisualizationArtifact = none ∧ y.all passesGates = false) := by
  cases h with
  | none => cases ha
  | some hmn =>
    rename_i item item'
    rw [bind_some] at ha
    rw [all_some] at hp
    by_cases hg : passesGates item'
    · exact .inl (projectInlineVisualizationArtifact_alike hmn (hu item rfl) hp hg ha)
    · refine .inr ⟨?_, by simpa using hg⟩
      rw [bind_some, eq_none_iff_forall_ne_some]
      exact fun b hb => hg (passesGates_of_some hb)

/-- **No secret reaches the browser.**  A frame that differs from a projected one only below sensitive keys and in the
directories of absolute paths is projected with the same payload; an artifact of the first is the artifact of the second
too, unless the second is refused at a gate.  What is accepted of a card is redacted. -/
theorem frame_secrecy (crates : Crates) : (∀ (data data' : List UInt8) (m n : Json.Map) (event : ProjectedEvent),
      internalMessage crates data = .ok (some m) → internalMessage crates data' = .ok (some n) →
      alikeMembers m n = true → projectFrame crates data = .ok (some event) →
      ∃ event', projectFrame crates data' = .ok (some event') ∧ event'.payload = event.payload ∧
        ((messageItem m).all plainItem = true → ∀ a, event.inlineArtifact = some a →
          event'.inlineArtifact = some a ∨
            (event'.inlineArtifact = none ∧ (messageItem n).all passesGates = false))) ∧
    ∀ (card : Json.Map) (payload : Json), Json.unique (.object card) = true → plainCard card = true →
      projectMapCardV3 card = some payload → redacted payload = true := by
  refine ⟨?_, fun card payload hu hp h => redacted_mapCard hu hp h⟩
  intro data data' m n event hm hn halike hevent
  rw [projectFrame_eq hm, Except.ok.injEq] at hevent
  obtain ⟨event', hevent', hpayload, hart, hart'⟩ := projectMessage_alike crates halike hevent
  refine ⟨event', by rw [projectFrame_eq hn, hevent'], hpayload, ?_⟩
  intro hplain a ha
  rw [hart] at ha
  rw [hart']
  exact artifact_alike (messageItem_alike halike) (fun item hi => unique_messageItem (unique_internalMessage hm) hi) hplain ha

/-! ## Sample frames -/

def text (s : String) : Json := .string s.toList

def members (ms : List (String × Json)) : Json := .object (ms.map (fun e => (e.1.toList, e.2)))

def quoted (s : Str) : Str := '\x22' :: s.flatMap (fun c => if c == '\x22' || c == '\\' then ['\\', c] else [c]) ++ ['\x22']

mutual

def compact : Json → Option Str
  | .string s => some (quoted s)
  | .array values => (compactValues values).map (fun texts => '[' :: (List.intersperse [','] texts).flatten ++ [']'])
  | .object ms => (compactMembers ms).map (fun texts => '{' :: (List.intersperse [','] texts).flatten ++ ['}'])
  | .null | .bool _ | .number _ => none

def compactValues : List Json → Option (List Str)
  | [] => some []
  | v :: vs => do
    let first ← compact v
    let rest ← compactValues vs
    some (first :: rest)

def compactMembers : List (Str × Json) → Option (List Str)
  | [] => some []
  | (k, v) :: ms => do
    let first ← compact v
    let rest ← compactMembers ms
    some ((quoted k ++ ':' :: first) :: rest)

end

def sampleCard (source geojsonToken layerToken : String) (hover : List (String × Json)) : Json :=
  members [("extensions", members [("hover", members (("layers", .array []) :: hover))]), ("intent", text "show"),
    ("layers", .array [members [("id", text "dots"), ("token", text layerToken), ("type", text "circle")]]),
    ("sources", members [(source, members [
      ("data", members [("format", text "geojson"),
        ("geojson", members [("token", text geojsonToken), ("type", text "Point")]), ("type", text "inline")]),
      ("type", text "geojson")])]),
    ("status", text "ready"), ("title", text "Map")]

def sampleValue (card : Json) : Json :=
  members [("method", text "app-server-event"), ("params", members [("message", members [
    ("method", text "item/completed"), ("params", members [
      ("item", members [("id", text "call"), ("result", members [("structuredContent", members [
        ("artifact", members [("ref", text "map"), ("renderer", members [("kind", text "map.v3"), ("payload", card)])]),
        ("embed", members [("code", .string (embedCode "map".toList)), ("syntax", text "codex-inline-vis.artifact.v1")]),
        ("kind", text "inline-visualization.v1"), ("type", text "open-web-artifact")])]),
        ("type", text "mcpToolCall")]),
      ("threadId", text "thread")])])])]

def sampleCards : List Json :=
  [sampleCard "points" "abc" "[redacted]" [], sampleCard "points" "xyz" "[redacted]" [], sampleCard "points" "abc" "xyz" []]

def sampleCrates : Crates where
  fromStr t := (sampleCards.map sampleValue).find? (fun v => compact v == some t)
  isUuid _ := false
  unique t value h := by
    have hmem := List.mem_of_find?_eq_some h
    have hall : (sampleCards.map sampleValue).all (fun v => v.unique) = true := by decide +kernel
    exact List.all_eq_true.1 hall value hmem

def sampleFrame (card : Json) : List UInt8 := ((compact (sampleValue card)).getD []).map (fun c => UInt8.ofNat c.toNat)

def sampleMessage (card : Json) : Json.Map := (envelopeMessage (sampleValue card)).getD []

theorem internalMessage_sample (card : Json) (h : card ∈ sampleCards) :
    internalMessage sampleCrates (sampleFrame card) = .ok (some (sampleMessage card)) :=
  List.all_iff_forall_prop.1 (by decide +kernel : sampleCards.all (fun card =>
    decide (internalMessage sampleCrates (sampleFrame card) = .ok (some (sampleMessage card))))) card h

def frameArtifact (crates : Crates) (data : List UInt8) : Option InlineVisualizationArtifactCandidate :=
  match projectFrame crates data with
  | .ok event => event.bind (·.inlineArtifact)
  | .error _ => none

theorem frameArtifact_sample (card : Json) (h : card ∈ sampleCards) : frameArtifact sampleCrates (sampleFrame card) =
      (projectMessage sampleCrates (sampleMessage card)).bind (·.inlineArtifact) := by
  rw [frameArtifact, projectFrame_eq (internalMessage_sample card h)]

theorem frame_secrecy_geojson : ∃ event event' a,
      projectFrame sampleCrates (sampleFrame (sampleCard "points" "abc" "[redacted]" [])) = .ok (some event) ∧
      projectFrame sampleCrates (sampleFrame (sampleCard "points" "xyz" "[redacted]" [])) = .ok (some event') ∧
      event'.payload = event.payload ∧ event.inlineArtifact = some a ∧ event'.inlineArtifact = some a := by
  have hm := internalMessage_sample (sampleCard "points" "abc" "[redacted]" []) (by simp [sampleCards])
  have hn := internalMessage_sample (sampleCard "points" "xyz" "[redacted]" []) (by simp [sampleCards])
  have hsome : ((projectMessage sampleCrates (sampleMessage (sampleCard "points" "abc" "[redacted]" []))).bind
      (·.inlineArtifact)).isSome = true := by decide +kernel
  obtain ⟨a, ha⟩ := isSome_iff_exists.1 hsome
  obtain ⟨event, hevent, ha⟩ := bind_eq_some_iff.1 ha
  have hframe := projectFrame_eq hm
  rw [hevent] at hframe
  obtain ⟨event', hevent', hpayload, hart⟩ :=
    (frame_secrecy sampleCrates).1 _ _ _ _ event hm hn (by decide +kernel) hframe
  have hgates : (messageItem (sampleMessage (sampleCard "points" "xyz" "[redacted]" []))).all passesGates = true := by
    decide +kernel
  refine ⟨event, event', a, hframe, hevent', hpayload, ha, ?_⟩
  rcases hart (by decide +kernel) a ha with h | ⟨_, h⟩
  · exact h
  · rw [hgates] at h
    cases h

def cardOf (card : Json) : Json.Map := card.asObject.getD []

/-- A layer with a secret is refused where the same layer without it is accepted; a secret in a member of `hover` that is
not checked is shown; and a source is shown whose id is a sensitive key. -/
theorem secret_decides_artifact : (alikeMembers (sampleMessage (sampleCard "points" "abc" "[redacted]" []))
        (sampleMessage (sampleCard "points" "abc" "xyz" [])) = true ∧
      (frameArtifact sampleCrates (sampleFrame (sampleCard "points" "abc" "[redacted]" []))).isSome ∧
      frameArtifact sampleCrates (sampleFrame (sampleCard "points" "abc" "xyz" [])) = none) ∧
    (alike "payload".toList (sampleCard "points" "abc" "[redacted]" [("token", text "abc")])
        (sampleCard "points" "abc" "[redacted]" [("token", text "xyz")]) = true ∧
      (projectMapCardV3 (cardOf (sampleCard "points" "abc" "[redacted]" [("token", text "abc")]))).any
        (fun payload => !redacted payload) ∧
      projectMapCardV3 (cardOf (sampleCard "points" "abc" "[redacted]" [("token", text "abc")])) ≠
        projectMapCardV3 (cardOf (sampleCard "points" "abc" "[redacted]" [("token", text "xyz")]))) ∧
    (projectMapCardV3 (cardOf (sampleCard "tokens" "abc" "[redacted]" []))).any (fun payload => !redacted payload) := by
  rw [frameArtifact_sample _ (by simp [sampleCards]), frameArtifact_sample _ (by simp [sampleCards])]
  decide +kernel

end Owc.Projection
