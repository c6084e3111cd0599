import OpenWebCodex.ProjectSanitize
/-!
# ProjectCard — the renderer payload of an inline visualization

`project_inline_visualization_artifact` and what it calls: the whitelist of a map card's members, the sources, layers and
extensions of a card, and the envelope around it.  A check that fails gives none; what passes is copied or rebuilt, as
the source does it.
-/
namespace Owc.Projection

def require (b : Bool) : Option Unit := if b then some () else none

@[simp] theorem require_eq_some : require b = some u ↔ b = true := by
  unfold require
  cases b <;> simp

/-! ## Fields -/

def nonemptyString (values : Json.Map) (key : String) : Option Str :=
  (((values.get key.toList).bind Json.asStr).map Str.trim).filter (fun value => !value.isEmpty)

def optionalString (values : Json.Map) (key : String) : Option (Option Str) :=
  match values.get key.toList with
  | none | some .null => some none
  | some (.string value) => if (Str.trim value).isEmpty then none else some (some (Str.trim value))
  | some _ => none

def keysWithin (names : List String) (values : Json.Map) : Bool :=
  values.all (fun e => names.any (fun name => name.toList == e.1))

def isStr (value : Option Json) (text : String) : Bool := value.bind Json.asStr == some text.toList

def boundedNumber (value : Json) (minimum maximum : Rat) : Option Json :=
  match value with
  | .number n => if minimum ≤ n.toRat ∧ n.toRat ≤ maximum then some (.number (.float n.toRat)) else none
  | _ => none

def validCardIdentifier (value : Str) : Bool :=
  !value.isEmpty && value.utf8Len ≤ 128 &&
    value.all (fun c => c.isAlphanum || c == '-' || c == '_' || c == '.')

def validMapboxIdentifier (value : Str) : Bool := !(Str.trim value).isEmpty && !value.any Str.isControl

def validGeojsonResourceUri (value : Str) : Bool :=
  (Str.stripPrefix value "maps-data://geojson/".toList).any validCardIdentifier

def geojsonTypes : List String :=
  ["FeatureCollection", "Feature", "GeometryCollection", "Point", "MultiPoint", "LineString", "MultiLineString", "Polygon",
    "MultiPolygon"]

def validGeojsonRoot (value : Json) : Bool := geojsonTypes.any (isStr (value.get "type".toList))

/-! ## Sources -/

def projectMcpResource (data : Json.Map) : Option Json := do
  require (keysWithin ["type", "server", "uri", "format"] data && isStr (data.get "format".toList) "geojson")
  let server ← nonemptyString data "server"
  let uri ← nonemptyString data "uri"
  require (validCardIdentifier server && !Str.startsWith server "mcp__".toList && validGeojsonResourceUri uri)
  some (.object (Json.Map.ofList [("type".toList, .string "mcp_resource".toList), ("server".toList, .string server),
    ("uri".toList, .string uri), ("format".toList, .string "geojson".toList)]))

def projectInlineData (data : Json.Map) : Option Json := do
  require (keysWithin ["type", "format", "geojson"] data && isStr (data.get "format".toList) "geojson")
  let geojson ← data.get "geojson".toList
  require (validGeojsonRoot geojson)
  some (.object (Json.Map.ofList [("type".toList, .string "inline".toList), ("format".toList, .string "geojson".toList),
    ("geojson".toList, sanitizeValue geojson "geojson".toList)]))

def projectSourceData (data : Json.Map) : Option Json :=
  if isStr (data.get "type".toList) "mcp_resource" then projectMcpResource data
  else if isStr (data.get "type".toList) "inline" then projectInlineData data
  else none

def projectSource (e : Str × Json) : Option (Str × Json) := do
  require (validMapboxIdentifier e.1)
  let source ← e.2.asObject
  require (isStr (source.get "type".toList) "geojson")
  let options := source.erase "data".toList
  require (sanitizeValue (.object options) "source".toList == .object options)
  let data ← (source.get "data".toList).bind Json.asObject
  let data ← projectSourceData data
  some (e.1, .object (source.insert "data".toList data))

def projectMapV3Sources (value : Json) : Option Json.Map := do
  let sources ← value.asObject
  require (!sources.isEmpty)
  sources.mapM projectSource

/-! ## Layers and extensions -/

def checkLayers (sourceIds : List Str) : List Json → List Str → List Str → Option (List Str × List Str)
  | [], layerIds, sourceBacked => some (layerIds, sourceBacked)
  | layer :: layers, layerIds, sourceBacked => do
    let layer ← layer.asObject
    require (sanitizeValue (.object layer) "layer".toList == .object layer)
    let id ← nonemptyString layer "id"
    require (validMapboxIdentifier id && !layerIds.contains id)
    require (nonemptyString layer "type").isSome
    match layer.get "source".toList with
    | none => checkLayers sourceIds layers (id :: layerIds) sourceBacked
    | some source => do
      let source ← source.asStr
      require (sourceIds.contains source)
      checkLayers sourceIds layers (id :: layerIds) (id :: sourceBacked)

def checkHoverField : Json → Bool
  | .string property => !(Str.trim property).isEmpty
  | .object field => keysWithin ["property", "label"] field && (nonemptyString field "property").isSome &&
      ((Table.get field "label".toList).isNone || (optionalString field "label").any (·.isSome))
  | _ => false

def checkHoverLayer (layerIds sourceBacked : List Str) (layer : Json) : Bool :=
  layer.asObject.any (fun layer => keysWithin ["layer", "title_property", "fields"] layer &&
    (nonemptyString layer "layer").any (fun id => layerIds.contains id && sourceBacked.contains id) &&
    (layer.get "title_property".toList).all (fun title => title.asStr.any (fun title => !(Str.trim title).isEmpty)) &&
    ((layer.get "fields".toList).bind Json.asArray).any (·.all checkHoverField))

def checkHover (layerIds sourceBacked : List Str) (hover : Json) : Bool :=
  ((hover.get "layers".toList).bind Json.asArray).any (·.all (checkHoverLayer layerIds sourceBacked))

def checkLegendItem (item : Json) : Bool :=
  item.asObject.any (fun item => keysWithin ["label", "color", "type"] item && (nonemptyString item "label").isSome &&
    (nonemptyString item "color").isSome && (item.get "type".toList).all (fun kind =>
      kind.asStr.any (fun kind => ["circle", "line", "fill"].any (·.toList == kind))))

def checkLegend (legend : Json) : Bool :=
  ((legend.get "items".toList).bind Json.asArray).any (fun items => !items.isEmpty && items.all checkLegendItem)

def projectMapV3Extensions (value : Json) (layerIds sourceBacked : List Str) : Option Json := do
  let extensions ← value.asObject
  require (keysWithin ["hover", "legend"] extensions)
  require ((extensions.get "hover".toList).all (checkHover layerIds sourceBacked))
  require ((extensions.get "legend".toList).all checkLegend)
  some value

/-! ## The card -/

def cardFields : List String :=
  ["title", "intent", "status", "fallback_text", "summary", "sources", "layers", "center", "zoom", "bearing", "pitch",
    "extensions"]

def projectCenter : Json → Option Json
  | .array [longitude, latitude] => do
    let longitude ← boundedNumber longitude (-180) 180
    let latitude ← boundedNumber latitude (-90) 90
    some (.array [longitude, latitude])
  | _ => none

def projectCamera (card : Json.Map) : Option (List (Str × Json)) :=
  match card.get "center".toList, card.get "zoom".toList with
  | none, none => some []
  | some center, some zoom => do
    let center ← projectCenter center
    let zoom ← boundedNumber zoom 0 24
    some [("center".toList, center), ("zoom".toList, zoom)]
  | _, _ => none

def projectNumber (card : Json.Map) (key : String) (minimum maximum : Rat) : Option (List (Str × Json)) :=
  match card.get key.toList with
  | none => some []
  | some value => (boundedNumber value minimum maximum).map (fun number => [(key.toList, number)])

def projectText (card : Json.Map) (key : String) : Option (List (Str × Json)) :=
  (optionalString card key).map (fun value => (value.map (fun text => (key.toList, Json.string text))).toList)

def projectExtensions (card : Json.Map) (layerIds sourceBacked : List Str) : Option (List (Str × Json)) :=
  match card.get "extensions".toList with
  | none => some []
  | some value => (projectMapV3Extensions value layerIds sourceBacked).map (fun value => [("extensions".toList, value)])

def projectMapCardV3 (card : Json.Map) : Option Json := do
  require (keysWithin cardFields card)
  let title ← nonemptyString card "title"
  let intent ← nonemptyString card "intent"
  let status ← nonemptyString card "status"
  require (["loading", "ready", "error"].any (·.toList == status))
  let fallback ← projectText card "fallback_text"
  let summary ← projectText card "summary"
  let sources ← (card.get "sources".toList).bind projectMapV3Sources
  let layers ← (card.get "layers".toList).bind Json.asArray
  require (!layers.isEmpty)
  let (layerIds, sourceBacked) ← checkLayers (sources.map (·.1)) layers [] []
  let camera ← projectCamera card
  let bearing ← projectNumber card "bearing" (-180) 180
  let pitch ← projectNumber card "pitch" 0 85
  let extensions ← projectExtensions card layerIds sourceBacked
  some (.object (Json.Map.ofList ([("title".toList, .string title), ("intent".toList, .string intent),
    ("status".toList, .string status)] ++ fallback ++ summary ++
    [("sources".toList, .object sources), ("layers".toList, .array layers)] ++ camera ++ bearing ++ pitch ++ extensions)))

def projectInlineRenderer (kind : Str) (payload : Json.Map) : Option Json :=
  if kind = "map.v3".toList then projectMapCardV3 payload else none

/-! ## The artifact -/

structure InlineVisualizationArtifactCandidate where
  artifactRef : Str
  rendererKind : Str
  rendererPayload : Json

def validWarningText (maximum : Nat) (text : Str) : Bool :=
  !text.isEmpty && text.length ≤ maximum && !text.any Str.isControl

def validateWarning (warning : Json) : Bool :=
  warning.asObject.any (fun warning => keysWithin ["code", "path", "message"] warning && 2 ≤ warning.length &&
    warning.length ≤ 3 &&
    ["ignored_extra_input", "mapbox_style_warning"].any (isStr (warning.get "code".toList)) &&
    ((warning.get "path".toList).bind Json.asStr).any (validWarningText 512) &&
    (warning.get "message".toList).all (fun message => message.asStr.any (validWarningText 1024)))

def validateInlineVisualizationWarnings (value : Json) : Bool := value.asArray.any (·.all validateWarning)

def embedCode (artifactRef : Str) : Str :=
  "::codex-inline-vis\x7bartifact=\"".toList ++ artifactRef ++ "\"\x7d".toList

def structuredContent (item : Json.Map) : Option Json.Map :=
  ((item.get "result".toList).bind Json.asObject).bind (fun result =>
    (result.get "structuredContent".toList).bind Json.asObject)

def projectInlineVisualizationArtifact (item : Json.Map) : Option InlineVisualizationArtifactCandidate := do
  let structured ← structuredContent item
  require (isStr (structured.get "type".toList) "open-web-artifact" &&
    isStr (structured.get "kind".toList) "inline-visualization.v1" &&
    keysWithin ["type", "kind", "artifact", "embed", "warnings"] structured)
  require ((structured.get "warnings".toList).all validateInlineVisualizationWarnings)
  let artifact ← (structured.get "artifact".toList).bind Json.asObject
  require (keysWithin ["ref", "renderer"] artifact)
  let artifactRef ← ((artifact.get "ref".toList).bind Json.asStr).map Str.trim
  require (validCardIdentifier artifactRef)
  let renderer ← (artifact.get "renderer".toList).bind Json.asObject
  require (keysWithin ["kind", "payload"] renderer)
  let rendererKind ← ((renderer.get "kind".toList).bind Json.asStr).map Str.trim
  let payload ← (renderer.get "payload".toList).bind Json.asObject
  let rendererPayload ← projectInlineRenderer rendererKind payload
  let embed ← (structured.get "embed".toList).bind Json.asObject
  require (keysWithin ["syntax", "code"] embed && isStr (embed.get "syntax".toList) "codex-inline-vis.artifact.v1" &&
    (embed.get "code".toList).bind Json.asStr == some (embedCode artifactRef))
  some ⟨artifactRef, rendererKind, rendererPayload⟩

end Owc.Projection
