import OpenWebCodex.ProjectRenderer
/-!
# ProjectMapCard — what an accepted map card shows

A card that is alike to an accepted one is accepted with the same payload if it passes the gate (`projectMapCardV3_alike`),
and an accepted payload is redacted (`redacted_mapCard`).  The renderer copies the members of `hover` and `legend` that it
does not check, and a source under whatever id it has, so both ask that these hold no sensitive and no path key
(`plainCard`).
-/
namespace Owc.Projection

open List Option Json

/-- No source id is a sensitive key, and the members of the extensions that no check reads hold no sensitive or path key. -/
def plainCard (card : Json.Map) : Bool :=
  (card.get "sources".toList).all (fun sources =>
    sources.asObject.all (fun sources => sources.all (fun e => !isSensitiveKey e.1))) &&
  (card.get "extensions".toList).all (fun extensions =>
    (extensions.get "hover".toList).all (fun hover =>
      hover.asObject.all (fun members => plainMembers (members.erase "layers".toList))) &&
    (extensions.get "legend".toList).all (fun legend =>
      legend.asObject.all (fun members => plainMembers (members.erase "items".toList))))

/-- The layers and the options of the sources are their own sanitization: the gate a card has to pass. -/
def sanitizedCard (card : Json.Map) : Bool :=
  (card.get "sources".toList).all (fun sources =>
    sources.asObject.all (fun sources => sources.all (fun e => sanitizedOptions e.2))) &&
  ((card.get "layers".toList).bind Json.asArray).all (fun layers => layers.all sanitizedLayer)

theorem mem_mapM {α β : Type} {f : α → Option β} : ∀ {as : List α} {bs : List β}, as.mapM f = some bs →
    (∀ a ∈ as, ∃ b ∈ bs, f a = some b) ∧ ∀ b ∈ bs, ∃ a ∈ as, f a = some b
  | [], bs, h => by
    cases h
    simp
  | a :: as, bs, h => by
    rw [mapM_cons] at h
    simp only [bind, bind_eq_some_iff, pure, some.injEq] at h
    obtain ⟨b, hb, _, hbs, rfl⟩ := h
    obtain ⟨hto, hfrom⟩ := mem_mapM hbs
    simp only [forall_mem_cons, exists_mem_cons_iff]
    exact ⟨⟨.inl hb, fun x hx => .inr (hto x hx)⟩, .inl hb, fun y hy => .inr (hfrom y hy)⟩

/-! ## Extensions of a plain card -/

variable {layerIds sourceBacked : List Str} {value x : Json}

theorem projectMapV3Extensions_some (h : projectMapV3Extensions value layerIds sourceBacked = some x) :
    x = value ∧ ∃ members : Json.Map, value = .object members ∧ keysWithin ["hover", "legend"] members ∧
      (members.get "hover".toList).all (checkHover layerIds sourceBacked) ∧
      (members.get "legend".toList).all checkLegend := by
  simp only [projectMapV3Extensions, bind, bind_eq_some_iff, require_eq_some, some.injEq] at h
  obtain ⟨members, hm, _, hk, _, hh, _, hl, hx⟩ := h
  exact ⟨hx.symm, members, eq_of_asObject hm, hk, hh, hl⟩

theorem plain_extensions (hu : value.unique) (h : projectMapV3Extensions value layerIds sourceBacked = some x)
    (hhover : (value.get "hover".toList).all (fun hover =>
      hover.asObject.all (fun members => plainMembers (members.erase "layers".toList))))
    (hlegend : (value.get "legend".toList).all (fun legend =>
      legend.asObject.all (fun members => plainMembers (members.erase "items".toList)))) :
    plain value := by
  obtain ⟨-, members, rfl, hk, hh, hl⟩ := projectMapV3Extensions_some h
  refine plain_object hu hk (by decide) ?_
  intro name hname v hv huv
  simp only [mem_cons, not_mem_nil, or_false] at hname
  rcases hname with rfl | rfl
  · have hget : get (.object members) "hover".toList = some v := hv
    rw [hget, all_some] at hhover
    rw [hv, all_some, checkHover] at hh
    have hlayers : ((v.get "layers".toList).bind asArray).any
        (fun vs => true && vs.all (checkHoverLayer layerIds sourceBacked)) := hh
    exact plain_extension huv (by decide) hhover hlayers fun x hx hc => plain_hoverLayer hx hc
  · have hget : get (.object members) "legend".toList = some v := hv
    rw [hget, all_some] at hlegend
    rw [hv, all_some, checkLegend] at hl
    exact plain_extension huv (by decide) hlegend hl fun x hx hc => plain_legendItem hx hc

/-! ## Cards -/

structure CardParts (card : Json.Map) where
  title : Str
  intent : Str
  status : Str
  fallback : List (Str × Json)
  summary : List (Str × Json)
  sources : Json.Map
  layers : List Json
  layerIds : List Str
  sourceBacked : List Str
  camera : List (Str × Json)
  bearing : List (Str × Json)
  pitch : List (Str × Json)
  extensions : List (Str × Json)
  hasFallback : projectText card "fallback_text" = some fallback
  hasSummary : projectText card "summary" = some summary
  hasSources : (card.get "sources".toList).bind projectMapV3Sources = some sources
  hasLayers : (card.get "layers".toList).bind Json.asArray = some layers
  checked : checkLayers (sources.map (·.1)) layers [] [] = some (layerIds, sourceBacked)
  hasCamera : projectCamera card = some camera
  hasBearing : projectNumber card "bearing" (-180) 180 = some bearing
  hasPitch : projectNumber card "pitch" 0 85 = some pitch
  hasExtensions : projectExtensions card layerIds sourceBacked = some extensions

def CardParts.members {card : Json.Map} (c : CardParts card) : List (Str × Json) :=
  [("title".toList, .string c.title), ("intent".toList, .string c.intent), ("status".toList, .string c.status)] ++
    c.fallback ++ c.summary ++ [("sources".toList, .object c.sources), ("layers".toList, .array c.layers)] ++ c.camera ++
    c.bearing ++ c.pitch ++ c.extensions

section

variable {card : Json.Map} {payload : Json} (h : projectMapCardV3 card = some payload)
include h

theorem projectMapCardV3_some : ∃ c : CardParts card, payload = .object (Json.Map.ofList c.members) := by
  obtain ⟨_, -, h⟩ := bind_eq_some_iff.1 h
  obtain ⟨title, -, h⟩ := bind_eq_some_iff.1 h
  obtain ⟨intent, -, h⟩ := bind_eq_some_iff.1 h
  obtain ⟨status, -, h⟩ := bind_eq_some_iff.1 h
  obtain ⟨_, -, h⟩ := bind_eq_some_iff.1 h
  obtain ⟨fallback, hf, h⟩ := bind_eq_some_iff.1 h
  obtain ⟨summary, hsum, h⟩ := bind_eq_some_iff.1 h
  obtain ⟨sources, hsrc, h⟩ := bind_eq_some_iff.1 h
  obtain ⟨layers, hl, h⟩ := bind_eq_some_iff.1 h
  obtain ⟨_, -, h⟩ := bind_eq_some_iff.1 h
  obtain ⟨⟨layerIds, sourceBacked⟩, hcheck, h⟩ := bind_eq_some_iff.1 h
  obtain ⟨camera, hc, h⟩ := bind_eq_some_iff.1 h
  obtain ⟨bearing, hb, h⟩ := bind_eq_some_iff.1 h
  obtain ⟨pitch, hp, h⟩ := bind_eq_some_iff.1 h
  obtain ⟨extensions, he, hpay⟩ := bind_eq_some_iff.1 h
  exact ⟨⟨title, intent, status, fallback, summary, sources, layers, layerIds, sourceBacked, camera, bearing, pitch,
    extensions, hf, hsum, hsrc, hl, hcheck, hc, hb, hp, he⟩, (some.inj hpay).symm⟩

theorem sanitizedCard_of_some : sanitizedCard card := by
  obtain ⟨c, -⟩ := projectMapCardV3_some h
  have hsources := c.hasSources
  simp only [projectMapV3Sources, bind, bind_eq_some_iff] at hsources
  obtain ⟨_, hv, _, hms, _, -, hx⟩ := hsources
  rw [sanitizedCard, hv, all_some, hms, all_some, c.hasLayers, all_some, Bool.and_eq_true, List.all_eq_true, List.all_eq_true]
  constructor
  · intro e he
    obtain ⟨x, -, hxe⟩ := (mem_mapM hx).1 e he
    exact sanitizedOptions_of_some hxe
  · intro layer hl
    obtain ⟨_, rfl, hsan⟩ := checkLayers_sanitized c.checked layer hl
    rw [sanitizedLayer, asObject, all_some, hsan]
    exact beq_self_eq_true _

end

variable {xs : List (Str × Json)}

theorem projectExtensions_some {card : Json.Map} (hu : unique (.object card)) (hp : plainCard card)
    (h : projectExtensions card layerIds sourceBacked = some xs)
    {value : Json} (hv : card.get "extensions".toList = some value) :
    plain value ∧ xs = [("extensions".toList, value)] := by
  unfold projectExtensions at h
  rw [hv] at h
  simp only [map_eq_some_iff] at h
  obtain ⟨x, hx, rfl⟩ := h
  rw [plainCard, hv, all_some, Bool.and_eq_true, Bool.and_eq_true] at hp
  rw [(projectMapV3Extensions_some hx).1]
  exact ⟨plain_extensions (unique_of_get hu hv) hx hp.2.1 hp.2.2, rfl⟩

section

variable {card card' : Json.Map} (h : alikeMembers card card' = true) {payload : Json}
include h

theorem extensions_eq (hu : unique (.object card)) (hp : plainCard card)
    (hx : projectExtensions card layerIds sourceBacked = some xs) :
    card.get "extensions".toList = card'.get "extensions".toList := by
  rcases rel_cases (alikeMembers_get_plain h (k := "extensions".toList) (by decide)) with ⟨hm, hn⟩ | ⟨v, w, hm, hn, hvw⟩
  · rw [hm, hn]
  · rw [hm, hn, eq_of_alike_plain (by decide) _ _ (projectExtensions_some hu hp hx hm).1 hvw]

theorem cardSources_eq (hp : plainCard card) (hs : sanitizedCard card') {xs}
    (hx : (card.get "sources".toList).bind projectMapV3Sources = some xs) :
    (card'.get "sources".toList).bind projectMapV3Sources = some xs := by
  rcases rel_cases (alikeMembers_get_plain h (k := "sources".toList) (by decide)) with ⟨hm, -⟩ | ⟨v, w, hm, hn, hvw⟩
  · rw [hm] at hx
    cases hx
  rw [plainCard, hm, all_some, Bool.and_eq_true] at hp
  rw [sanitizedCard, hn, all_some, Bool.and_eq_true] at hs
  rw [hm] at hx
  rw [hn]
  exact projectMapV3Sources_eq hvw hp.1 hs.1 hx

theorem cardLayers_eq (hs : sanitizedCard card') (hl : (card.get "layers".toList).bind asArray = some layers)
    (hpass : ∀ v ∈ layers, ∃ ms, v = .object ms ∧ sanitizeMembers ms = ms) :
    (card'.get "layers".toList).bind asArray = some layers := by
  have hrel := rel_bind (alikeMembers_get_plain h (k := "layers".toList) (by decide)) fun _ _ => alike_asArray
  rw [sanitizedCard, Bool.and_eq_true] at hs
  replace hs := hs.2
  rw [hl] at hrel
  generalize (card'.get "layers".toList).bind asArray = y at hrel hs ⊢
  cases hrel with
  | some hvw =>
    rw [all_some, List.all_eq_true] at hs
    rw [layers_eq hvw hpass hs]

/-- **A card that is alike to an accepted one is accepted with the same payload, if it passes the gate.** -/
theorem projectMapCardV3_alike (hu : unique (.object card)) (hp : plainCard card)
    (hs : sanitizedCard card') (hx : projectMapCardV3 card = some payload) :
    projectMapCardV3 card' = some payload := by
  obtain ⟨c, -⟩ := projectMapCardV3_some hx
  have hsources := cardSources_eq h hp hs c.hasSources
  have hlayers := cardLayers_eq h hs c.hasLayers (checkLayers_sanitized c.checked)
  have hextensions : projectExtensions card = projectExtensions card' := by
    funext layerIds sourceBacked
    unfold projectExtensions
    rw [extensions_eq h hu hp c.hasExtensions]
  rw [← hx]
  unfold projectMapCardV3
  rw [hsources, hlayers, c.hasSources, c.hasLayers, ← keysWithin_eq h, ← nonemptyString_eq h "title" (by decide),
    ← nonemptyString_eq h "intent" (by decide), ← nonemptyString_eq h "status" (by decide),
    ← projectText_eq h "fallback_text" (by decide), ← projectText_eq h "summary" (by decide), ← projectCamera_eq h,
    ← projectNumber_eq h "bearing" (by decide), ← projectNumber_eq h "pitch" (by decide), hextensions]

end

/-! ## What an accepted card shows -/

theorem redactedMember_of (hk : isSensitiveKey key = false) (hv : redacted v) : redactedMember (key, v) :=
  ⟨fun hs => absurd hs (by rw [hk]; decide), fun _ => hv⟩

theorem redacted_ofList (h : ∀ e ∈ members, redactedMember e) : redacted (.object (Json.Map.ofList members)) := by
  rw [redacted, redactedMembers_iff]
  exact fun e he => h e (Json.Map.mem_ofList he)

theorem redacted_boundedNumber {minimum maximum} (h : boundedNumber value minimum maximum = some x) : redacted x := by
  unfold boundedNumber at h
  split at h
  · split at h <;> cases h
    rfl
  · cases h

section

variable {card : Json.Map} (key : String) (hk : isSensitiveKey key.toList = false)
include hk

theorem redacted_text (h : projectText card key = some xs) : ∀ e ∈ xs, redactedMember e := by
  simp only [projectText, map_eq_some_iff] at h
  obtain ⟨value, -, rfl⟩ := h
  intro e he
  cases value with
  | none => cases he
  | some =>
    rw [map_some, toList_some, mem_singleton] at he
    rw [he]
    exact redactedMember_of hk rfl

theorem redacted_number {minimum maximum} (h : projectNumber card key minimum maximum = some xs) :
    ∀ e ∈ xs, redactedMember e := by
  unfold projectNumber at h
  split at h
  · cases h
    simp
  simp only [map_eq_some_iff] at h
  obtain ⟨_, hn, rfl⟩ := h
  rw [forall_mem_singleton]
  exact redactedMember_of hk (redacted_boundedNumber hn)

end

theorem redacted_center (h : projectCenter value = some x) : redacted x := by
  unfold projectCenter at h
  split at h
  · simp only [bind, bind_eq_some_iff, some.injEq] at h
    obtain ⟨_, hlon, _, hlat, rfl⟩ := h
    simp [redacted, redactedValues, redacted_boundedNumber hlon, redacted_boundedNumber hlat]
  · cases h

theorem redacted_camera {card} (h : projectCamera card = some xs) : ∀ e ∈ xs, redactedMember e := by
  unfold projectCamera at h
  split at h
  · cases h
    simp
  · simp only [bind, bind_eq_some_iff, some.injEq] at h
    obtain ⟨center, hc, zoom, hz, rfl⟩ := h
    simp only [forall_mem_cons]
    exact ⟨redactedMember_of (by decide) (redacted_center hc), redactedMember_of (by decide) (redacted_boundedNumber hz),
      by simp⟩
  · cases h

theorem redacted_sourceData {x} (h : projectSourceData data = some x) : redacted x := by
  unfold projectSourceData at h
  split at h
  · simp only [projectMcpResource, bind, bind_eq_some_iff, some.injEq] at h
    obtain ⟨_, -, server, -, uri, -, _, -, rfl⟩ := h
    refine redacted_ofList ?_
    simp only [forall_mem_cons]
    exact ⟨redactedMember_of (by decide) rfl, redactedMember_of (by decide) rfl, redactedMember_of (by decide) rfl,
      redactedMember_of (by decide) rfl, by simp⟩
  · split at h
    · simp only [projectInlineData, bind, bind_eq_some_iff, some.injEq] at h
      obtain ⟨_, -, geojson, -, _, -, rfl⟩ := h
      refine redacted_ofList ?_
      simp only [forall_mem_cons]
      exact ⟨redactedMember_of (by decide) rfl, redactedMember_of (by decide) rfl,
        redactedMember_of (by decide) (redacted_sanitizeValue _ _), by simp⟩
    · cases h

theorem redacted_source {id x} (h : projectSource (id, v) = some x) : x.1 = id ∧ redacted x.2 := by
  obtain ⟨source, data, projected, -, hsan, -, hp, rfl⟩ := projectSource_some h
  refine ⟨rfl, ?_⟩
  rw [redacted, redactedMembers_iff]
  intro e he
  rcases Json.Map.mem_insert he with rfl | ⟨he, hne⟩
  · exact redactedMember_of (by decide) (redacted_sourceData hp)
  · have hoptions : redactedMembers (source.erase "data".toList) := hsan ▸ redacted_sanitizeMembers _
    exact (redactedMembers_iff _).1 hoptions e (mem_filter.2 ⟨he, by simpa using hne⟩)

theorem redacted_sources {card} (hp : plainCard card) {xs}
    (h : (card.get "sources".toList).bind projectMapV3Sources = some xs) : redacted (.object xs) := by
  simp only [projectMapV3Sources, bind, bind_eq_some_iff] at h
  obtain ⟨_, hv, _, hms, _, -, hx⟩ := h
  rw [plainCard, hv, all_some, hms, all_some, Bool.and_eq_true, List.all_eq_true] at hp
  rw [redacted, redactedMembers_iff]
  intro x hmem
  obtain ⟨e, he, hxe⟩ := (mem_mapM hx).2 x hmem
  obtain ⟨hid, hred⟩ := redacted_source hxe
  have hkey : isSensitiveKey e.1 = false := by simpa using hp.1 e he
  exact redactedMember_of (hid ▸ hkey) hred

theorem redacted_layers
    (h : checkLayers sourceIds layers layerIds sourceBacked = some r) : redacted (.array layers) := by
  rw [redacted, redactedValues_iff]
  intro layer hl
  obtain ⟨members, rfl, hsan⟩ := checkLayers_sanitized h layer hl
  rw [redacted, ← hsan]
  exact redacted_sanitizeMembers members

section

variable {card : Json.Map} (hu : unique (.object card) = true) (hp : plainCard card = true)
include hu hp

theorem redacted_extensions (h : projectExtensions card layerIds sourceBacked = some xs) : ∀ e ∈ xs, redactedMember e := by
  cases hv : card.get "extensions".toList with
  | none =>
    unfold projectExtensions at h
    rw [hv] at h
    cases h
    simp
  | some value =>
    obtain ⟨hplain, rfl⟩ := projectExtensions_some hu hp h hv
    rw [forall_mem_singleton]
    exact redactedMember_of (by decide) (redacted_of_plain value hplain)

theorem redacted_mapCard {payload} (h : projectMapCardV3 card = some payload) : redacted payload := by
  obtain ⟨c, rfl⟩ := projectMapCardV3_some h
  refine redacted_ofList ?_
  unfold CardParts.members
  simp only [forall_mem_append, forall_mem_cons]
  have hnil : ∀ e ∈ ([] : List (Str × Json)), redactedMember e := by simp
  have htexts : ∀ key : String, isSensitiveKey key.toList = false → ∀ text, redactedMember (key.toList, .string text) :=
    fun key hk text => redactedMember_of hk rfl
  refine ⟨⟨⟨⟨⟨⟨⟨⟨?_, ?_, ?_, hnil⟩, ?_⟩, ?_⟩, ?_, ?_, hnil⟩, ?_⟩, ?_⟩, ?_⟩, ?_⟩
  · exact htexts "title" (by decide) c.title
  · exact htexts "intent" (by decide) c.intent
  · exact htexts "status" (by decide) c.status
  · exact redacted_text "fallback_text" (by decide) c.hasFallback
  · exact redacted_text "summary" (by decide) c.hasSummary
  · exact redactedMember_of (by decide) (redacted_sources hp c.hasSources)
  · exact redactedMember_of (by decide) (redacted_layers c.checked)
  · exact redacted_camera c.hasCamera
  · exact redacted_number "bearing" (by decide) c.hasBearing
  · exact redacted_number "pitch" (by decide) c.hasPitch
  · exact redacted_extensions hu hp c.hasExtensions

end

end Owc.Projection
