import OpenWebCodex.ProjectPayload
/-!
# ProjectRenderer — what alike cards are rendered to

The parts of a map card, each compared on alike cards.  The rebuilt parts are the same outright; the layers and the
options of a source are copied only where they are their own sanitization, so those that pass this gate are equal.
-/
namespace Owc.Projection

open List Option Json

variable {m n : Json.Map}

theorem keysWithin_eq (h : alikeMembers m n) (names : List String) : keysWithin names m = keysWithin names n := by
  have hkeys : ∀ m, keysWithin names m = (m.map (·.1)).all (fun key => names.any fun name => name.toList == key) := by
    intro m
    rw [List.all_map]
    rfl
  rw [hkeys m, hkeys n, alikeMembers_keys h]

variable {key : Str}

theorem isStr_eq (h : alikeMembers m n) (hk : plainKey key) (text : String) :
    isStr (m.get key) text = isStr (n.get key) text := by
  unfold isStr
  rw [alikeMembers_str h hk]

section

variable (h : alikeMembers m n = true) (key : String) (hk : plainKey key.toList = true)
include h hk

theorem nonemptyString_eq : nonemptyString m key = nonemptyString n key := by
  unfold nonemptyString
  rw [alikeMembers_str h hk]

theorem optionalString_eq : optionalString m key = optionalString n key := by
  simp only [plainKey, Bool.and_eq_true, Bool.not_eq_true'] at hk
  unfold optionalString
  rcases rel_cases (alikeMembers_get_plain h hk.1) with ⟨hm, hn⟩ | ⟨v, w, hm, hn, hvw⟩ <;> rw [hm, hn]
  cases v <;> cases w <;> simp_all [alike]

end

theorem boundedNumber_eq (h : alike key v w) (minimum maximum : Rat) :
    boundedNumber v minimum maximum = boundedNumber w minimum maximum := by
  cases v <;> cases w <;> simp_all [alike, boundedNumber]

theorem projectNumber_eq (h : alikeMembers m n) (key : String) (hk : isSensitiveKey key.toList = false)
    (minimum maximum : Rat) : projectNumber m key minimum maximum = projectNumber n key minimum maximum := by
  unfold projectNumber
  rcases rel_cases (alikeMembers_get_plain h hk) with ⟨hm, hn⟩ | ⟨v, w, hm, hn, hvw⟩
  · rw [hm, hn]
  · simp only [hm, hn, boundedNumber_eq hvw]

theorem projectText_eq (h : alikeMembers m n) (key : String) (hk : plainKey key.toList) :
    projectText m key = projectText n key := by
  unfold projectText
  rw [optionalString_eq h key hk]

theorem projectCenter_eq (h : alike key v w) : projectCenter v = projectCenter w := by
  have hrel := alike_asArray h
  cases v with
  | array vs =>
    cases w with
    | array ws =>
      cases hrel with
      | some hvw =>
        match vs, ws, alikeValues_iff.1 hvw with
        | [], [], .nil => rfl
        | [_], [_], .cons _ .nil => rfl
        | [_, _], [_, _], .cons hlng (.cons hlat .nil) => simp only [projectCenter, boundedNumber_eq hlng, boundedNumber_eq hlat]
        | _ :: _ :: _ :: _, _ :: _ :: _ :: _, .cons _ (.cons _ (.cons _ _)) => rfl
    | _ => cases hrel
  | _ =>
    cases w with
    | array => cases hrel
    | _ => rfl

theorem projectCamera_eq (h : alikeMembers m n) : projectCamera m = projectCamera n := by
  unfold projectCamera
  rcases rel_cases (alikeMembers_get_plain h (k := "zoom".toList) (by decide)) with ⟨hm, hn⟩ | ⟨z, z', hm, hn, hz⟩
  all_goals rcases rel_cases (alikeMembers_get_plain h (k := "center".toList) (by decide)) with
    ⟨hm', hn'⟩ | ⟨c, c', hm', hn', hc⟩
  · rw [hm, hn, hm', hn']
  · rw [hm, hn, hm', hn']
  · rw [hm, hn, hm', hn']
  · simp only [hm, hn, hm', hn', projectCenter_eq hc, boundedNumber_eq hz]

/-! ## Sources -/

theorem validGeojsonRoot_eq (h : alike key v w) : validGeojsonRoot v = validGeojsonRoot w := by
  unfold validGeojsonRoot Json.get
  rcases rel_cases (alike_asObject h) with ⟨hv, hw⟩ | ⟨x, y, hv, hw, hxy⟩
  · rw [hv, hw]
  rw [hv, hw]
  congr 1
  funext text
  exact isStr_eq hxy (by decide) text

theorem projectMcpResource_eq (h : alikeMembers m n) : projectMcpResource m = projectMcpResource n := by
  unfold projectMcpResource
  rw [keysWithin_eq h, isStr_eq h (by decide), nonemptyString_eq h "server" (by decide), nonemptyString_eq h "uri" (by decide)]

theorem projectInlineData_eq (h : alikeMembers m n) : projectInlineData m = projectInlineData n := by
  unfold projectInlineData
  rw [keysWithin_eq h, isStr_eq h (by decide)]
  rcases rel_cases (alikeMembers_get_plain h (k := "geojson".toList) (by decide)) with ⟨hm, hn⟩ | ⟨x, y, hm, hn, hxy⟩
  · rw [hm, hn]
  · simp only [hm, hn, bind, bind_some, validGeojsonRoot_eq hxy, sanitizeValue_eq _ _ _ hxy]

theorem projectSourceData_eq (h : alikeMembers m n) : projectSourceData m = projectSourceData n := by
  unfold projectSourceData
  rw [isStr_eq h (by decide), isStr_eq h (by decide), projectMcpResource_eq h, projectInlineData_eq h]

variable {v : Json}

theorem projectSource_some {id x} (h : projectSource (id, v) = some x) : ∃ source data projected, v.asObject = some source ∧
      sanitizeMembers (source.erase "data".toList) = source.erase "data".toList ∧
      (source.get "data".toList).bind asObject = some data ∧ projectSourceData data = some projected ∧
      x = (id, .object (source.insert "data".toList projected)) := by
  simp only [projectSource, bind, bind_eq_some_iff, require_eq_some, beq_iff_eq] at h
  obtain ⟨_, -, source, hsource, _, -, _, hsan, data, hdata, projected, hproj, hx⟩ := h
  rw [sanitizeValue_object (by decide), object.injEq] at hsan
  exact ⟨source, data, projected, hsource, hsan, bind_eq_some_iff.2 hdata, hproj, (some.inj hx).symm⟩

/-- The options of a source are their own sanitization: the gate it has to pass. -/
def sanitizedOptions (source : Json) : Bool :=
  source.asObject.all (fun source => sanitizeMembers (source.erase "data".toList) == source.erase "data".toList)

theorem sanitizedOptions_of_some {id x} (h : projectSource (id, v) = some x) : sanitizedOptions v := by
  obtain ⟨_, _, _, hs, hsan, -⟩ := projectSource_some h
  rw [sanitizedOptions, hs, all_some, hsan]
  exact beq_self_eq_true _

theorem projectSource_eq {id} (h : alike id v w) (hv : sanitizedOptions v)
    (hw : sanitizedOptions w) : projectSource (id, v) = projectSource (id, w) := by
  unfold sanitizedOptions at hv hw
  unfold projectSource
  rcases rel_cases (alike_asObject h) with ⟨hx, hy⟩ | ⟨source, source', hx, hy, hsource⟩
  · rw [hx, hy]
  rw [hx, all_some, beq_iff_eq] at hv
  rw [hy, all_some, beq_iff_eq] at hw
  have hoptions : Table.erase source "data".toList = Table.erase source' "data".toList :=
    eq_of_sanitized (alikeMembers_erase hsource _) hv hw
  simp only [hx, hy, bind, bind_some, Json.Map.insert,
    isStr_eq hsource (show plainKey "type".toList = true by decide), hoptions]
  rcases rel_cases (alikeMembers_object hsource (k := "data".toList) (by decide)) with ⟨hd, hd'⟩ | ⟨d, d', hd, hd', hdata⟩
  · rw [hd, hd']
  · simp only [hd, hd', bind_some, projectSourceData_eq hdata]

theorem mapM_projectSource_eq {ms ns xs : Json.Map} (h : alikeMembers ms ns)
    (hs : ∀ e ∈ ms, isSensitiveKey e.1 = false) (hn : ∀ e ∈ ns, sanitizedOptions e.2)
    (hx : ms.mapM projectSource = some xs) : ns.mapM projectSource = some xs := by
  rw [alikeMembers_iff] at h
  induction h generalizing xs with
  | nil => exact hx
  | @cons e f ms ns hef _ ih =>
    obtain ⟨k, w⟩ := f
    obtain ⟨rfl, hv⟩ := hef
    rw [hs e mem_cons_self] at hv
    rw [mapM_cons] at hx ⊢
    simp only [bind, bind_eq_some_iff, pure, some.injEq] at hx ⊢
    obtain ⟨x, hx, xs, hxs, rfl⟩ := hx
    have hw := projectSource_eq (hv.resolve_left nofun) (sanitizedOptions_of_some hx) (hn (e.1, w) mem_cons_self)
    have htail := ih (fun e he => hs e (mem_cons_of_mem _ he)) (fun e he => hn e (mem_cons_of_mem _ he)) hxs
    exact ⟨x, hw ▸ hx, xs, htail, rfl⟩

theorem projectMapV3Sources_eq (h : alike key v w)
    (hs : v.asObject.all (fun sources => sources.all (fun e => !isSensitiveKey e.1)))
    (hw : w.asObject.all (fun sources => sources.all (fun e => sanitizedOptions e.2)))
    (hx : projectMapV3Sources v = some xs) : projectMapV3Sources w = some xs := by
  simp only [projectMapV3Sources, bind, bind_eq_some_iff, require_eq_some] at hx ⊢
  obtain ⟨ms, hms, _, hne, hx⟩ := hx
  have hrel := alike_asObject h
  rw [hms, all_some, List.all_eq_true] at hs
  rw [hms] at hrel
  generalize w.asObject = y at hrel hw ⊢
  cases hrel with
  | some hmn =>
    rename_i ns
    rw [all_some, List.all_eq_true] at hw
    refine ⟨ns, rfl, (), ?_, mapM_projectSource_eq hmn (fun e he => by simpa using hs e he) hw hx⟩
    have hkeys := alikeMembers_keys hmn
    cases ns with
    | nil => rw [map_eq_nil_iff.1 hkeys] at hne; exact hne
    | cons => rfl

/-! ## Layers -/

theorem checkLayers_sanitized : ∀ {layers layerIds sourceBacked r}, checkLayers sourceIds layers layerIds sourceBacked = some r →
    ∀ layer ∈ layers, ∃ members, layer = .object members ∧ sanitizeMembers members = members
  | [], _, _, _, _, layer, hmem => by cases hmem
  | l :: layers, layerIds, sourceBacked, r, h, layer, hmem => by
    simp only [checkLayers, bind, bind_eq_some_iff, require_eq_some, beq_iff_eq] at h
    obtain ⟨members, hl, _, hsan, id, -, _, -, _, -, hrest⟩ := h
    have hrest' : ∃ layerIds sourceBacked, checkLayers sourceIds layers layerIds sourceBacked = some r := by
      split at hrest
      · exact ⟨_, _, hrest⟩
      · simp only [bind_eq_some_iff] at hrest
        obtain ⟨_, -, _, -, hrest⟩ := hrest
        exact ⟨_, _, hrest⟩
    obtain ⟨layerIds', sourceBacked', hrest'⟩ := hrest'
    rcases mem_cons.1 hmem with rfl | hmem
    · rw [sanitizeValue_object (by decide), object.injEq] at hsan
      refine ⟨members, ?_, hsan⟩
      cases layer with
      | object =>
        cases hl
        rfl
      | _ => cases hl
    · exact checkLayers_sanitized hrest' layer hmem

/-- A layer is its own sanitization: the gate it has to pass. -/
def sanitizedLayer (layer : Json) : Bool := layer.asObject.all (fun members => sanitizeMembers members == members)

theorem layers_eq (h : alikeValues key vs ws)
    (hv : ∀ v ∈ vs, ∃ ms, v = .object ms ∧ sanitizeMembers ms = ms) (hw : ∀ w ∈ ws, sanitizedLayer w) : vs = ws := by
  rw [alikeValues_iff] at h
  induction h with
  | nil => rfl
  | @cons v w vs ws hvw _ ih =>
    obtain ⟨ms, rfl, hms⟩ := hv v mem_cons_self
    have hlayer : sanitizedLayer w := hw w mem_cons_self
    rw [ih (fun v hm => hv v (mem_cons_of_mem _ hm)) fun w hm => hw w (mem_cons_of_mem _ hm)]
    cases w with
    | object ns =>
      have hhead : alikeMembers ms ns := by simpa [alike] using hvw
      have hns : sanitizeMembers ns = ns := by simpa [sanitizedLayer, asObject] using hlayer
      rw [eq_of_sanitized hhead hms hns]
    | _ => simp [alike] at hvw

/-! ## Extensions -/

theorem plain_of_asStr (h : v.asStr.isSome) : plain v := by
  cases v <;> first | rfl | cases h

theorem plain_object (hu : unique (.object m)) (hk : keysWithin names m)
    (hn : names.all (fun name => plainKey name.toList))
    (hv : ∀ name ∈ names, ∀ v, m.get name.toList = some v → v.unique → plain v) :
    plain (.object m) := by
  rw [plain]
  refine (plainMembers_iff m).2 fun e he => ?_
  obtain ⟨name, hmem, hname⟩ := any_eq_true.1 (all_eq_true.1 hk e he)
  have hkey : name.toList = e.1 := by simpa using hname
  obtain ⟨hget, hue⟩ := get_of_unique hu he
  constructor
  · rw [← hkey]
    exact all_eq_true.1 hn name hmem
  · exact hv name hmem e.2 (by rw [hkey]; exact hget) hue

theorem plain_of_nonemptyString {key} (h : (nonemptyString m key).isSome) (hv : m.get key.toList = some v) : plain v := by
  unfold nonemptyString at h
  rw [hv, bind_some] at h
  exact plain_of_asStr (by simpa using isSome_of_isSome_filter _ _ h)

theorem plain_hoverField (hu : field.unique) (h : checkHoverField field) : plain field := by
  cases field with
  | string => rfl
  | object =>
    simp only [checkHoverField, Bool.and_eq_true] at h
    obtain ⟨⟨hk, hprop⟩, hlabel⟩ := h
    refine plain_object hu hk (by decide) ?_
    intro name hname v hv _
    simp only [mem_cons, not_mem_nil, or_false] at hname
    rcases hname with rfl | rfl
    · exact plain_of_nonemptyString hprop hv
    rw [hv] at hlabel
    simp only [isNone_some, Bool.false_or, optionalString, hv] at hlabel
    cases v with
    | string => rfl
    | _ => cases hlabel
  | _ => cases h

theorem unique_of_mem_array (hu : v.unique) (hv : v.asArray = some vs) : ∀ x ∈ vs, x.unique := by
  rw [eq_of_asArray hv, unique] at hu
  exact (uniqueValues_iff vs).1 hu

theorem plain_array (hv : v.asArray = some vs) (h : ∀ x ∈ vs, plain x) : plain v := by
  rw [eq_of_asArray hv, plain]
  exact (plainValues_iff vs).2 h

theorem plain_of_checked (hu : v.unique) {check : Json → Bool} {p : List Json → Bool}
    (h : v.asArray.any (fun vs => p vs && vs.all check))
    (hcheck : ∀ x, x.unique → check x → plain x) : plain v := by
  obtain ⟨_, hv, h⟩ := (any_eq_true _ _).1 h
  rw [Bool.and_eq_true, List.all_eq_true] at h
  exact plain_array hv fun x hx => hcheck x (unique_of_mem_array hu hv x hx) (h.2 x hx)

theorem plain_hoverLayer (hu : layer.unique)
    (h : checkHoverLayer layerIds sourceBacked layer) : plain layer := by
  obtain ⟨members, hl, h⟩ := (any_eq_true _ _).1 h
  simp only [Bool.and_eq_true] at h
  obtain ⟨⟨⟨hk, hlayer⟩, htitle⟩, hfields⟩ := h
  rw [eq_of_asObject hl] at hu ⊢
  refine plain_object hu hk (by decide) ?_
  intro name hname v hv huv
  simp only [mem_cons, not_mem_nil, or_false] at hname
  rcases hname with rfl | rfl | rfl
  · exact plain_of_nonemptyString (isSome_of_any hlayer) hv
  · rw [hv, all_some] at htitle
    exact plain_of_asStr (isSome_of_any htitle)
  · rw [hv, bind_some] at hfields
    refine plain_of_checked (p := fun _ => true) huv ?_ fun x hx hc => plain_hoverField hx hc
    simpa using hfields

theorem plain_legendItem (hu : item.unique) (h : checkLegendItem item) : plain item := by
  obtain ⟨members, hi, h⟩ := (any_eq_true _ _).1 h
  simp only [Bool.and_eq_true] at h
  obtain ⟨⟨⟨hk, hlabel⟩, hcolor⟩, htype⟩ := h
  rw [eq_of_asObject hi] at hu ⊢
  refine plain_object hu hk (by decide) ?_
  intro name hname v hv _
  simp only [mem_cons, not_mem_nil, or_false] at hname
  rcases hname with rfl | rfl | rfl
  · exact plain_of_nonemptyString hlabel hv
  · exact plain_of_nonemptyString hcolor hv
  · rw [hv, all_some] at htype
    exact plain_of_asStr (isSome_of_any htype)

theorem plain_extension (hu : v.unique) {name : String} (hn : plainKey name.toList)
    (hk : v.asObject.all (fun members => plainMembers (members.erase name.toList))) {check : Json → Bool}
    {p : List Json → Bool} (h : ((v.get name.toList).bind asArray).any (fun vs => p vs && vs.all check))
    (hcheck : ∀ x, x.unique → check x → plain x) : plain v := by
  unfold Json.get at h
  cases ho : v.asObject with
  | none => rw [ho] at h; cases h
  | some =>
    rw [ho, all_some, plainMembers_iff] at hk
    rw [ho, bind_some] at h
    rw [eq_of_asObject ho] at hu ⊢
    rw [plain, plainMembers_iff]
    intro e he
    by_cases hname : e.1 = name.toList
    · obtain ⟨hget, hue⟩ := get_of_unique hu he
      rw [hname] at hget ⊢
      rw [hget, bind_some] at h
      exact ⟨hn, plain_of_checked hue h hcheck⟩
    · exact hk e (mem_filter.2 ⟨he, by simpa using hname⟩)

end Owc.Projection
