import OpenWebCodex.Json
/-!
# ProjectSanitize — what the event projection redacts

`sanitize_value` of `event_projection.rs`, and the two properties it is for.  Values that differ only below sensitive keys
and in the directories of absolute paths (`alike`) are sanitized to the same value (`sanitizeValue_eq`), and a sanitized
value holds nothing but the redaction under a sensitive key (`redacted_sanitizeValue`).
-/
namespace Owc.Projection

open List Json Str

def redactedText : Json := .string "[redacted]".toList

def normalizeKey (key : Str) : Str := (key.map Char.toLower).filter (fun c => c != '_' && c != '-')

-- the words stand as characters: every key of the projection is compared with them by evaluation

def countKeys : List Str :=
  [['t', 'o', 'k', 'e', 'n', 'u', 's', 'a', 'g', 'e'], ['i', 'n', 'p', 'u', 't', 't', 'o', 'k', 'e', 'n', 's'],
    ['c', 'a', 'c', 'h', 'e', 'd', 'i', 'n', 'p', 'u', 't', 't', 'o', 'k', 'e', 'n', 's'],
    ['c', 'a', 'c', 'h', 'e', 'w', 'r', 'i', 't', 'e', 'i', 'n', 'p', 'u', 't', 't', 'o', 'k', 'e', 'n', 's'],
    ['o', 'u', 't', 'p', 'u', 't', 't', 'o', 'k', 'e', 'n', 's'],
    ['r', 'e', 'a', 's', 'o', 'n', 'i', 'n', 'g', 'o', 'u', 't', 'p', 'u', 't', 't', 'o', 'k', 'e', 'n', 's'],
    ['t', 'o', 't', 'a', 'l', 't', 'o', 'k', 'e', 'n', 's'],
    ['m', 'o', 'd', 'e', 'l', 'c', 'o', 'n', 't', 'e', 'x', 't', 'w', 'i', 'n', 'd', 'o', 'w']]

def sensitiveWords : List Str :=
  [['a', 'u', 't', 'h', 'o', 'r', 'i', 'z', 'a', 't', 'i', 'o', 'n'], ['c', 'o', 'o', 'k', 'i', 'e'],
    ['c', 'r', 'e', 'd', 'e', 'n', 't', 'i', 'a', 'l'], ['p', 'a', 's', 's', 'w', 'o', 'r', 'd'],
    ['s', 'e', 'c', 'r', 'e', 't'], ['t', 'o', 'k', 'e', 'n'], ['a', 'p', 'i', 'k', 'e', 'y'],
    ['s', 't', 'd', 'i', 'n'], ['c', 'h', 'a', 'r', 's']]

def pathKeys : List Str :=
  [['p', 'a', 't', 'h'], ['c', 'w', 'd'], ['s', 'a', 'v', 'e', 'd', 'P', 'a', 't', 'h'],
    ['a', 'g', 'e', 'n', 't', 'P', 'a', 't', 'h']]

example : countKeys.map String.ofList =
    ["tokenusage", "inputtokens", "cachedinputtokens", "cachewriteinputtokens", "outputtokens",
      "reasoningoutputtokens", "totaltokens", "modelcontextwindow"] := rfl

example : sensitiveWords.map String.ofList =
    ["authorization", "cookie", "credential", "password", "secret", "token", "apikey", "stdin", "chars"] := rfl

example : pathKeys.map String.ofList = ["path", "cwd", "savedPath", "agentPath"] := rfl

def isSensitiveKey (key : Str) : Bool :=
  let normalized := normalizeKey key
  !countKeys.contains normalized && sensitiveWords.any (Str.containsStr normalized)

def isPathKey (key : Str) : Bool := pathKeys.contains key

/-- A path that starts at a root or at a drive: its second byte is a colon only if its first character has one byte. -/
def isAbsolute : Str → Bool
  | [] => false
  | '/' :: _ => true
  | '\\' :: _ => true
  | c :: ':' :: _ => c.utf8Size == 1
  | _ :: _ => false

def fileName (path : Str) : Str :=
  ((Str.splitWhere (fun c => c == '/' || c == '\\') path).reverse.find? (fun part => !part.isEmpty)).getD "path".toList

def safePath (path : Str) : Str :=
  if isAbsolute path then "[workspace-path]/".toList ++ fileName path else path

mutual

-- a tag makes the equations once, before the proofs
@[local grind =] def sanitizeValue (value : Json) (key : Str) : Json :=
  if isSensitiveKey key then redactedText
  else
    match value with
    | .array values => .array (sanitizeValues values key)
    | .object members => .object (sanitizeMembers members)
    | .string s =>
      if isPathKey key then .string (safePath s)
      else if Str.startsWith s "data:".toList then .string "[embedded-data]".toList
      else .string s
    | value => value

def sanitizeValues (values : List Json) (key : Str) : List Json :=
  match values with
  | [] => []
  | v :: vs => sanitizeValue v key :: sanitizeValues vs key

def sanitizeMembers (members : List (Str × Json)) : List (Str × Json) :=
  match members with
  | [] => []
  | (k, v) :: ms => (k, sanitizeValue v k) :: sanitizeMembers ms

end

/-! ## Values that differ only in secrets and directories -/

def samePath (s t : Str) : Bool := isAbsolute s && isAbsolute t && fileName s == fileName t

mutual

/-- Two values under `key`, a key that is not sensitive, that differ only below sensitive keys and in the directories of
absolute paths under path keys. -/
@[local grind =] def alike (key : Str) (v w : Json) : Bool :=
  match v, w with
  | .array vs, .array ws => alikeValues key vs ws
  | .object ms, .object ns => alikeMembers ms ns
  | .string s, .string t => s == t || (isPathKey key && samePath s t)
  | v, w => v == w

def alikeValues (key : Str) (vs ws : List Json) : Bool :=
  match vs, ws with
  | [], [] => true
  | v :: vs, w :: ws => alike key v w && alikeValues key vs ws
  | _, _ => false

def alikeMembers (ms ns : List (Str × Json)) : Bool :=
  match ms, ns with
  | [], [] => true
  | (j, v) :: ms, (k, w) :: ns => j == k && (isSensitiveKey j || alike j v w) && alikeMembers ms ns
  | _, _ => false

end

theorem sanitizeValue_of_sensitive (h : isSensitiveKey key) (v : Json) : sanitizeValue v key = redactedText := by
  cases v <;> simp [sanitizeValue, h]

theorem sanitizeValue_object (h : isSensitiveKey key = false) (ms : List (Str × Json)) :
    sanitizeValue (.object ms) key = .object (sanitizeMembers ms) := by
  simp [sanitizeValue, h]

theorem safePath_eq_of_samePath (h : samePath s t) : safePath s = safePath t := by
  simp only [samePath, Bool.and_eq_true, beq_iff_eq] at h
  obtain ⟨⟨hs, ht⟩, hn⟩ := h
  rw [safePath, safePath, if_pos hs, if_pos ht, hn]

def AlikeMember (e f : Str × Json) : Prop := e.1 = f.1 ∧ (isSensitiveKey e.1 = true ∨ alike e.1 e.2 f.2 = true)

theorem alikeValues_iff : alikeValues key vs ws ↔ List.Forall₂ (fun v w => alike key v w) vs ws := by
  induction vs generalizing ws with
  | nil => cases ws <;> simp [alikeValues]
  | cons v vs ih => cases ws <;> simp [alikeValues, ih]

theorem alikeMembers_iff : alikeMembers ms ns ↔ List.Forall₂ AlikeMember ms ns := by
  induction ms generalizing ns with
  | nil => cases ns <;> simp [alikeMembers]
  | cons e ms ih => cases ns <;> simp [alikeMembers, AlikeMember, ih]

theorem sanitizeValues_eq_map (key : Str) : ∀ vs, sanitizeValues vs key = vs.map (sanitizeValue · key)
  | [] => rfl
  | v :: vs => by rw [sanitizeValues, sanitizeValues_eq_map key vs, map_cons]

theorem sanitizeMembers_eq_map : ∀ ms, sanitizeMembers ms = ms.map (fun e => (e.1, sanitizeValue e.2 e.1))
  | [] => rfl
  | (k, v) :: ms => by rw [sanitizeMembers, sanitizeMembers_eq_map ms, map_cons]

theorem map_eq_map_of_forall₂ {α β : Type} {R : α → α → Prop} {f : α → β} {xs ys} (h : List.Forall₂ R xs ys)
    (hf : ∀ x ∈ xs, ∀ y, R x y → f x = f y) : xs.map f = ys.map f := by
  rw [← forall₂_eq_eq_eq, forall₂_map_left_iff, forall₂_map_right_iff]
  exact ((forall₂_and_left xs ys).2 ⟨hf, h⟩).imp fun x y hxy => hxy.1 y hxy.2

theorem sanitizeValue_eq (key : Str) (v w : Json) (h : alike key v w) : sanitizeValue v key = sanitizeValue w key := by
  induction v using inductOn generalizing key w with
  | array vs ih =>
    cases w with
    | array =>
      rw [alike, alikeValues_iff] at h
      simp only [sanitizeValue, sanitizeValues_eq_map, map_eq_map_of_forall₂ h fun v hv w hvw => ih v hv key w hvw]
    | _ => simp [alike] at h
  | object ms ih =>
    cases w with
    | object ns =>
      rw [alike, alikeMembers_iff] at h
      have hmap : ms.map (fun e => (e.1, sanitizeValue e.2 e.1)) = ns.map (fun e => (e.1, sanitizeValue e.2 e.1)) := by
        refine map_eq_map_of_forall₂ h ?_
        rintro ⟨k, v⟩ hv ⟨_, w⟩ ⟨rfl, hs | ha⟩
        · simp only [sanitizeValue_of_sensitive hs]
        · exact congrArg (Prod.mk k) (ih _ hv k w ha)
      simp only [sanitizeValue, sanitizeMembers_eq_map, hmap]
    | _ => simp [alike] at h
  | string =>
    cases w with
    | string =>
      simp only [alike, Bool.or_eq_true, Bool.and_eq_true, beq_iff_eq] at h
      rcases h with rfl | ⟨hp, hs⟩
      · rfl
      · simp only [sanitizeValue, hp, if_true, safePath_eq_of_samePath hs]
    | _ => simp [alike] at h
  | _ =>
    simp only [alike, beq_iff_eq] at h
    rw [← h]

theorem sanitizeMembers_eq (ms ns : List (Str × Json)) (h : alikeMembers ms ns) :
    sanitizeMembers ms = sanitizeMembers ns := by
  have hobject := sanitizeValue_eq [] (.object ms) (.object ns) (by rwa [alike])
  rw [sanitizeValue_object (by decide), sanitizeValue_object (by decide)] at hobject
  exact object.inj hobject

/-! ## Reading alike members -/

theorem rel_cases {α β : Type} {R : α → β → Prop} {x y} (h : Option.Rel R x y) :
    x = none ∧ y = none ∨ ∃ a b, x = some a ∧ y = some b ∧ R a b := by
  cases h with
  | none => exact .inl ⟨rfl, rfl⟩
  | some h => exact .inr ⟨_, _, rfl, rfl, h⟩

theorem rel_bind {α β : Type} {R : α → α → Prop} {S : β → β → Prop} {f : α → Option β} {x y}
    (h : Option.Rel R x y) (hf : ∀ a b, R a b → Option.Rel S (f a) (f b)) : Option.Rel S (x.bind f) (y.bind f) := by
  cases h with
  | none => exact .none
  | some h => exact hf _ _ h

/-- A key under which alike strings are equal. -/
def plainKey (key : Str) : Bool := !isSensitiveKey key && !isPathKey key

theorem alike_asStr (hk : isPathKey key = false) (h : alike key v w) : v.asStr = w.asStr := by
  cases v <;> cases w <;> simp_all [alike, asStr]

theorem alike_asObject (h : alike key v w) :
    Option.Rel (fun ms ns => alikeMembers ms ns) v.asObject w.asObject := by
  cases v <;> cases w <;> simp_all [alike, asObject]

theorem alike_asArray (h : alike key v w) :
    Option.Rel (fun vs ws => alikeValues key vs ws) v.asArray w.asArray := by
  cases v <;> cases w <;> simp_all [alike, asArray]

section Members

variable {ms ns : Json.Map} (h : alikeMembers ms ns = true) {k : Str}

include h

theorem alikeMembers_get : Option.Rel (fun v w => isSensitiveKey k ∨ alike k v w) (ms.get k) (ns.get k) := by
  rw [alikeMembers_iff] at h
  induction h with
  | nil => exact .none
  | @cons e f ms ns hef _ ih =>
    obtain ⟨i, v⟩ := e
    obtain ⟨j, w⟩ := f
    obtain ⟨hij, hv⟩ := hef
    cases (show i = j from hij)
    rw [Table.get, Table.get]
    by_cases hi : i = k
    · subst hi
      rw [if_pos rfl, if_pos rfl]
      exact .some hv
    · rw [if_neg hi, if_neg hi]
      exact ih

theorem sanitized_get_eq (k : Str) : (ms.get k).map (sanitizeValue · k) = (ns.get k).map (sanitizeValue · k) := by
  rcases rel_cases (alikeMembers_get (k := k) h) with ⟨hm, hn⟩ | ⟨v, w, hm, hn, hs | ha⟩
  · rw [hm, hn]
  · rw [hm, hn, Option.map_some, Option.map_some, sanitizeValue_of_sensitive hs, sanitizeValue_of_sensitive hs]
  · rw [hm, hn, Option.map_some, Option.map_some, sanitizeValue_eq k _ _ ha]

theorem alikeMembers_get_plain (hk : isSensitiveKey k = false) :
    Option.Rel (fun v w => alike k v w) (ms.get k) (ns.get k) := by
  rcases rel_cases (alikeMembers_get (k := k) h) with ⟨hm, hn⟩ | ⟨v, w, hm, hn, hs | ha⟩
  · rw [hm, hn]
    exact .none
  · rw [hk] at hs
    cases hs
  · rw [hm, hn]
    exact .some ha

theorem alikeMembers_str (hk : plainKey k) : (ms.get k).bind asStr = (ns.get k).bind asStr := by
  simp only [plainKey, Bool.and_eq_true, Bool.not_eq_true'] at hk
  rcases rel_cases (alikeMembers_get_plain h hk.1) with ⟨hm, hn⟩ | ⟨v, w, hm, hn, hvw⟩
  · rw [hm, hn]
  · rw [hm, hn, Option.bind_some, Option.bind_some, alike_asStr hk.2 hvw]

theorem alikeMembers_object (hk : isSensitiveKey k = false) :
    Option.Rel (fun m n => alikeMembers m n) ((ms.get k).bind asObject) ((ns.get k).bind asObject) :=
  rel_bind (alikeMembers_get_plain h hk) fun _ _ => alike_asObject

theorem alikeMembers_object_some (hk : isSensitiveKey k = false) (hm : (ms.get k).bind asObject = some m) :
    ∃ n, (ns.get k).bind asObject = some n ∧ alikeMembers m n := by
  have hrel := alikeMembers_object h hk
  rw [hm] at hrel
  generalize (ns.get k).bind asObject = y at hrel ⊢
  cases hrel with
  | some hmn => exact ⟨_, rfl, hmn⟩

theorem alikeMembers_erase (k : Str) : alikeMembers (ms.erase k) (ns.erase k) := by
  rw [alikeMembers_iff] at h ⊢
  unfold Table.erase
  induction h with
  | nil => exact .nil
  | @cons e f ms ns hef _ ih =>
    by_cases hi : e.1 = k
    · rwa [filter_cons_of_neg (by simpa using hi), filter_cons_of_neg (by simpa [← hef.1] using hi)]
    · rw [filter_cons_of_pos (by simpa using hi), filter_cons_of_pos (by simpa [← hef.1] using hi)]
      exact .cons hef ih

theorem alikeMembers_keys : ms.map (·.1) = ns.map (·.1) :=
  map_eq_map_of_forall₂ (alikeMembers_iff.1 h) fun _ _ _ hef => hef.1

theorem eq_of_sanitized (hm : sanitizeMembers ms = ms) (hn : sanitizeMembers ns = ns) : ms = ns := by
  rw [← hm, ← hn]
  exact sanitizeMembers_eq ms ns h

end Members

/-! ## What a sanitized value holds -/

mutual

/-- Under a sensitive key, at any depth, there is nothing but the redaction. -/
def redacted : Json → Bool
  | .array values => redactedValues values
  | .object members => redactedMembers members
  | .null | .bool _ | .number _ | .string _ => true

def redactedValues : List Json → Bool
  | [] => true
  | v :: vs => redacted v && redactedValues vs

def redactedMembers : List (Str × Json) → Bool
  | [] => true
  | (k, v) :: ms => (if isSensitiveKey k then v == redactedText else redacted v) && redactedMembers ms

end

theorem redactedValues_iff : ∀ vs, redactedValues vs ↔ ∀ v ∈ vs, redacted v
  | [] => by simp [redactedValues]
  | v :: vs => by simp [redactedValues, redactedValues_iff vs]

def redactedMember (e : Str × Json) : Prop :=
  (isSensitiveKey e.1 = true → e.2 = redactedText) ∧ (isSensitiveKey e.1 = false → redacted e.2 = true)

theorem redactedMembers_iff : ∀ ms : List (Str × Json), redactedMembers ms ↔ ∀ e ∈ ms, redactedMember e
  | [] => by simp [redactedMembers]
  | (k, v) :: ms => by
    rw [redactedMembers, Bool.and_eq_true, redactedMembers_iff ms, forall_mem_cons]
    refine and_congr_left fun _ => ?_
    by_cases hk : isSensitiveKey k <;> simp [redactedMember, hk]

theorem redactedMember_sanitized (h : redacted (sanitizeValue v k)) : redactedMember (k, sanitizeValue v k) :=
  ⟨fun hk => sanitizeValue_of_sensitive hk v, fun _ => h⟩

theorem redacted_sanitizeValue (v : Json) (key : Str) : redacted (sanitizeValue v key) := by
  induction v using inductOn generalizing key with
  | array vs ih =>
    rw [sanitizeValue, sanitizeValues_eq_map]
    split
    · rfl
    · exact (redactedValues_iff _).2 (forall_mem_map.2 fun v hv => ih v hv key)
  | object ms ih =>
    rw [sanitizeValue, sanitizeMembers_eq_map]
    split
    · rfl
    · exact (redactedMembers_iff _).2 (forall_mem_map.2 fun e he => redactedMember_sanitized (ih e he e.1))
  | string =>
    rw [sanitizeValue]
    split
    · rfl
    · split
      · rfl
      · split <;> rfl
  | _ => simp only [sanitizeValue]; split <;> rfl

theorem redacted_sanitizeMembers (ms : List (Str × Json)) : redactedMembers (sanitizeMembers ms) := by
  rw [sanitizeMembers_eq_map]
  exact (redactedMembers_iff _).2 (forall_mem_map.2 fun e _ => redactedMember_sanitized (redacted_sanitizeValue e.2 e.1))

/-! ## Sanitizing again -/

/-- The value with `f` applied to each string and the key it stands under, and the redaction under sensitive keys. -/
@[local grind =] def mapStrings (f : Str → Str → Str) (key : Str) (value : Json) : Json :=
  if isSensitiveKey key then redactedText
  else
    match value with
    | .array values => .array (values.map fun v => mapStrings f key v)
    | .object members => .object (members.map fun e => (e.1, mapStrings f e.1 e.2))
    | .string s => .string (f key s)
    | .null | .bool _ | .number _ => value
termination_by sizeOf value
decreasing_by exacts [Json.sizeOf_lt_array ‹_›, Json.sizeOf_lt_object ‹_›]

/-- The strings of a value, each with the key it stands under, except below the keys in `cut`. -/
@[local grind =] def strings (cut : Str → Bool) (key : Str) (value : Json) : List (Str × Str) :=
  if cut key then []
  else
    match value with
    | .array values => values.flatMap fun v => strings cut key v
    | .object members => members.flatMap fun e => strings cut e.1 e.2
    | .string s => [(key, s)]
    | .null | .bool _ | .number _ => []
termination_by sizeOf value
decreasing_by exacts [Json.sizeOf_lt_array ‹_›, Json.sizeOf_lt_object ‹_›]

/-- What becomes of a string under a key that is not sensitive. -/
def cleanString (key s : Str) : Str :=
  if isPathKey key then safePath s
  else if Str.startsWith s "data:".toList then "[embedded-data]".toList
  else s

theorem sanitizeValue_eq_mapStrings (v : Json) (key : Str) : sanitizeValue v key = mapStrings cleanString key v := by
  induction v using inductOn generalizing key with
  | array vs ih =>
    rw [sanitizeValue, mapStrings, sanitizeValues_eq_map, map_congr_left fun v hv => ih v hv key]
  | object ms ih =>
    rw [sanitizeValue, mapStrings, sanitizeMembers_eq_map, map_congr_left fun e he => by rw [ih e he e.1]]
  | string =>
    rw [sanitizeValue, mapStrings, cleanString, apply_ite string, apply_ite string]
  | _ => rw [mapStrings]; rfl

theorem mapStrings_of_sensitive (h : isSensitiveKey key) (f : Str → Str → Str) (v : Json) :
    mapStrings f key v = redactedText := by
  cases v <;> rw [mapStrings, if_pos h]

theorem mapStrings_mapStrings (f g : Str → Str → Str) (v : Json) (key : Str) :
    mapStrings f key (mapStrings g key v) = mapStrings (fun k s => f k (g k s)) key v := by
  by_cases hk : isSensitiveKey key
  · simp only [mapStrings_of_sensitive hk]
  induction v using inductOn generalizing key with
  | array vs ih =>
    simp only [mapStrings, if_neg hk, map_map]
    exact congrArg array (map_congr_left fun v hv => ih v hv key hk)
  | object ms ih =>
    simp only [mapStrings, if_neg hk, map_map]
    refine congrArg object (map_congr_left fun e he => Prod.ext rfl ?_)
    by_cases he' : isSensitiveKey e.1
    · simp only [Function.comp_apply, mapStrings_of_sensitive he']
    · exact ih e he e.1 he'
  | _ => simp only [mapStrings, if_neg hk]

/-- The strings of the result: those that `f` gives, and redactions. -/
theorem forall_strings_mapStrings {p : Str → Str → Prop} (hredacted : ∀ k, p k "[redacted]".toList)
    (f : Str → Str → Str) (v : Json) (key : Str) :
    (∀ e ∈ strings (fun _ => false) key (mapStrings f key v), p e.1 e.2) ↔
      ∀ e ∈ strings isSensitiveKey key v, p e.1 (f e.1 e.2) := by
  have hcut : ∀ k v, isSensitiveKey k → ((∀ e ∈ strings (fun _ => false) k (mapStrings f k v), p e.1 e.2) ↔
        ∀ e ∈ strings isSensitiveKey k v, p e.1 (f e.1 e.2)) := by
    intro k v hk
    have hnone : strings isSensitiveKey k v = [] := by cases v <;> rw [strings, if_pos hk]
    rw [mapStrings_of_sensitive hk, hnone, redactedText, strings]
    simpa using hredacted k
  by_cases hk : isSensitiveKey key
  · exact hcut key v hk
  induction v using inductOn generalizing key with
  | array vs ih =>
    simp only [mapStrings, strings, if_neg hk, Bool.false_eq_true, if_false, forall_mem_flatMap, forall_mem_map]
    exact forall₂_congr fun v hv => ih v hv key hk
  | object ms ih =>
    simp only [mapStrings, strings, if_neg hk, Bool.false_eq_true, if_false, forall_mem_flatMap, forall_mem_map]
    refine forall₂_congr fun e he => ?_
    by_cases he' : isSensitiveKey e.1
    · exact hcut e.1 e.2 he'
    · exact ih e he e.1 he'
  | _ => simp [mapStrings, strings, if_neg hk]

theorem isAbsolute_safePath (s : Str) : isAbsolute (safePath s) = false := by
  unfold safePath
  split
  · rfl
  · next h => simpa using h

theorem startsWith_safePath (s : Str) : startsWith (safePath s) "data:".toList = startsWith s "data:".toList := by
  unfold safePath
  split
  · next habsolute =>
    cases hs : startsWith s "data:".toList with
    | false => rfl
    | true =>
      obtain ⟨t, rfl⟩ := isPrefixOf_iff_prefix.1 hs
      cases habsolute
  · rfl

theorem cleanString_cleanString (key s : Str) : cleanString key (cleanString key s) = cleanString key s := by
  unfold cleanString
  split
  · rw [safePath, if_neg (by rw [isAbsolute_safePath]; decide)]
  by_cases hs : startsWith s "data:".toList
  · rw [if_pos hs]
    rfl
  · simp only [if_neg hs]

/-- **Sanitizing.**  Once is as good as twice, only strings and what is below sensitive keys change, and no absolute path
stays under a path key.  No embedded data stays either, exactly if none stands under a path key: there it is taken for a
relative path. -/
theorem sanitize_value_safe (v : Json) (key : Str) : (sanitizeValue (sanitizeValue v key) key = sanitizeValue v key ∧
      mapStrings (fun _ _ => []) key (sanitizeValue v key) = mapStrings (fun _ _ => []) key v ∧
      (∀ e ∈ strings (fun _ => false) key (sanitizeValue v key), isPathKey e.1 = true → isAbsolute e.2 = false) ∧
      ∀ e ∈ strings (fun _ => false) key (sanitizeValue v key), startsWith e.2 "data:".toList = false) ↔
    ∀ e ∈ strings isSensitiveKey key v, isPathKey e.1 = true → startsWith e.2 "data:".toList = false := by
  simp only [sanitizeValue_eq_mapStrings, mapStrings_mapStrings, cleanString_cleanString, true_and]
  have habsolute := forall_strings_mapStrings (p := fun k s => isPathKey k = true → isAbsolute s = false)
    (fun _ _ => by decide) cleanString v key
  have hdata := forall_strings_mapStrings (p := fun _ s => startsWith s "data:".toList = false)
    (fun _ => by decide) cleanString v key
  refine (and_iff_right (habsolute.2 fun e _ hpath => ?_)).trans (hdata.trans (forall₂_congr fun e _ => ?_))
  · rw [cleanString, if_pos hpath, isAbsolute_safePath]
  by_cases hpath : isPathKey e.1 = true
  · rw [cleanString, if_pos hpath, startsWith_safePath, imp_iff_right hpath]
  refine iff_of_true ?_ fun h => absurd h hpath
  rw [cleanString, if_neg hpath]
  split
  · rfl
  · next hs => simpa using hs

/-- An image kept under `savedPath` is passed on whole. -/
theorem embedded_data_kept : sanitizeValue (.object [("savedPath".toList, .string "data:image/png,x".toList)]) [] =
    .object [("savedPath".toList, .string "data:image/png,x".toList)] := by
  decide

/-! ## Values without sensitive or path keys -/

mutual

def plain : Json → Bool
  | .array values => plainValues values
  | .object members => plainMembers members
  | .null | .bool _ | .number _ | .string _ => true

def plainValues : List Json → Bool
  | [] => true
  | v :: vs => plain v && plainValues vs

def plainMembers : List (Str × Json) → Bool
  | [] => true
  | (k, v) :: ms => plainKey k && plain v && plainMembers ms

end

theorem plainValues_iff : ∀ vs, plainValues vs ↔ ∀ v ∈ vs, plain v
  | [] => by simp [plainValues]
  | v :: vs => by simp [plainValues, plainValues_iff vs]

theorem plainMembers_iff : ∀ ms : List (Str × Json), plainMembers ms ↔ ∀ e ∈ ms, plainKey e.1 ∧ plain e.2
  | [] => by simp [plainMembers]
  | (k, v) :: ms => by simp [plainMembers, plainMembers_iff ms, and_assoc]

theorem eq_of_alike_plain {key} (hk : isPathKey key = false) (v w : Json) (hp : plain v) (h : alike key v w) : v = w := by
  induction v using inductOn generalizing key w with
  | array vs ih =>
    cases w with
    | array ws =>
      rw [alike, alikeValues_iff] at h
      rw [← vs.map_id, ← ws.map_id]
      exact congrArg array (map_eq_map_of_forall₂ h fun v hv w => ih v hv hk w ((plainValues_iff vs).1 hp v hv))
    | _ => simp [alike] at h
  | object ms ih =>
    cases w with
    | object ns =>
      rw [alike, alikeMembers_iff] at h
      rw [← ms.map_id, ← ns.map_id]
      refine congrArg object (map_eq_map_of_forall₂ h ?_)
      rintro ⟨k, v⟩ hv ⟨_, w⟩ ⟨rfl, hvw⟩
      obtain ⟨hkey, hplain⟩ := (plainMembers_iff ms).1 hp _ hv
      simp only [plainKey, Bool.and_eq_true, Bool.not_eq_true'] at hkey
      rw [hkey.1] at hvw
      exact congrArg (Prod.mk k) (ih _ hv hkey.2 w hplain (hvw.resolve_left nofun))
    | _ => simp [alike] at h
  | string =>
    cases w with
    | string =>
      simp only [alike, hk, Bool.false_and, Bool.or_false, beq_iff_eq] at h
      rw [h]
    | _ => simp [alike] at h
  | _ => simpa [alike] using h

theorem redacted_of_plain (v : Json) (h : plain v) : redacted v := by
  induction v using inductOn with
  | array vs ih => exact (redactedValues_iff vs).2 fun v hv => ih v hv ((plainValues_iff vs).1 h v hv)
  | object ms ih =>
    refine (redactedMembers_iff ms).2 fun e he => ?_
    obtain ⟨hkey, hplain⟩ := (plainMembers_iff ms).1 h e he
    exact ⟨fun hs => by simp [plainKey, hs] at hkey, fun _ => ih e he hplain⟩
  | _ => rfl

end Owc.Projection
