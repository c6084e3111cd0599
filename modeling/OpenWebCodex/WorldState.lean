import OpenWebCodex.RolloutScan
/-!
# WorldState — snapshots and the patches between them

A rollout records the state that the model has seen: a full snapshot first, then JSON merge patches (RFC 7386), in which a
null deletes.  Values are equal whatever the order of their keys, so an object is held in key order.
-/
namespace Owc

open List Table

namespace Json

/-! ## Objects in key order -/

def Map.Ordered (m : Map) : Prop := m.Pairwise fun a b => a.1 < b.1

theorem Map.Ordered.nodup {m : Map} (h : m.Ordered) : (m.map (·.1)).Nodup :=
  pairwise_map.2 (h.imp fun hlt => ne_of_lt hlt)

theorem Map.Ordered.get_eq_some_iff {m : Map} (h : m.Ordered) {e : Str × Json} : m.get e.1 = some e.2 ↔ e ∈ m :=
  ⟨mem_of_get, Map.get_of_mem h.nodup⟩

theorem Map.Ordered.ext {m n : Map} (hm : m.Ordered) (hn : n.Ordered) (h : ∀ k, m.get k = n.get k) : m = n := by
  refine Perm.eq_of_pairwise (fun a b _ _ (hab : a.1 < b.1) hba => absurd hab (lt_asymm hba)) hm hn ?_
  refine (perm_ext_iff_of_nodup hm.nodup.of_map hn.nodup.of_map).2 fun e => ?_
  rw [← hm.get_eq_some_iff, ← hn.get_eq_some_iff, h]

theorem Map.ordered_place : ∀ {m}, m.Ordered → key ∉ m.map (·.1) → (Map.place m key value).Ordered
  | [], _, _ => pairwise_singleton ..
  | (k, v) :: m, hm, hkey => by
    obtain ⟨hhead, htail⟩ := pairwise_cons.1 hm
    simp only [map_cons, mem_cons, not_or] at hkey
    rw [Map.place]
    split
    · next hlt => exact pairwise_cons.2 ⟨by simpa using ⟨hlt, fun a b he => lt_trans hlt (hhead _ he)⟩, hm⟩
    · next hge =>
      refine pairwise_cons.2 ⟨fun e he => ?_, Map.ordered_place htail hkey.2⟩
      rcases Map.mem_place he with rfl | he
      · exact lt_of_le_of_ne (not_lt.1 hge) (Ne.symm hkey.1)
      · exact hhead e he

theorem Map.get_place (k : Str) : ∀ {m}, key ∉ m.map (·.1) →
    Table.get (Map.place m key value) k = if k = key then some value else m.get k
  | [], _ => by simp [Map.place, Table.get, eq_comm]
  | (j, v) :: m, hkey => by
    simp only [map_cons, mem_cons, not_or] at hkey
    rw [Map.place]
    split
    · simp [Table.get, eq_comm]
    · rw [Table.get, Map.get_place k hkey.2, Table.get]
      grind

theorem Map.Ordered.erase {m : Map} (h : m.Ordered) (key : Str) : Map.Ordered (erase m key) := h.filter _

theorem Map.not_mem_erase (m : Map) (key : Str) : key ∉ (erase m key).map (·.1) := by
  rw [← get_eq_none_iff, get_erase, if_pos rfl]

theorem Map.Ordered.insert {m : Map} (h : m.Ordered) (key : Str) (value : Json) : (m.insert key value).Ordered :=
  Map.ordered_place (h.erase key) (Map.not_mem_erase m key)

@[simp]
theorem Map.get_insert (m : Map) (key : Str) (value : Json) (k : Str) :
    Table.get (m.insert key value) k = if k = key then some value else m.get k := by
  rw [Map.insert, Map.get_place k (Map.not_mem_erase m key), Table.get_erase]
  grind

end Json

namespace WorldState

open Json

/-! ## Patches -/

def record (patch : Map) (key : Str) : Option Json → Map
  | none => patch
  | some entry => patch.insert key entry

def removeMembers (current patch : Map) : List (Str × Json) → Map
  | [] => patch
  | (key, _) :: previous =>
    removeMembers current (record patch key (if (current.get key).isSome then none else some .null)) previous

mutual

@[local grind =] def createMergePatch (previous : Json) : Json → Option Json
  | .object current =>
    if previous = .object current then none
    else
      let previous := previous.asObject.getD []
      some (.object (createMembers previous (removeMembers current [] previous) current))
  | current => if previous = current then none else some current

def createMembers (previous patch : Map) : List (Str × Json) → Map
  | [] => patch
  | (key, value) :: current =>
    createMembers previous (record patch key (match previous.get key with
      | none => some value
      | some previousValue => createMergePatch previousValue value)) current

end

mutual

def applyMergePatchValue (target : Json) : Json → Json
  | .object patch => .object (applyMembers (target.asObject.getD []) patch)
  | patch => patch

def applyMembers (target : Map) : List (Str × Json) → Map
  | [] => target
  | (key, value) :: patch =>
    applyMembers (if value = .null then target.erase key
      else target.insert key (applyMergePatchValue ((target.get key).getD .null) value)) patch

end

/-- A snapshot's value: every object is in key order and none of its members is null; arrays are replaced as a whole. -/
inductive NullFree : Json → Prop
  | bool (b : Bool) : NullFree (.bool b)
  | number (n : Number) : NullFree (.number n)
  | string (s : Str) : NullFree (.string s)
  | array (values : List Json) : NullFree (.array values)
  | object {members : Map} (ordered : members.Ordered) (parts : ∀ e ∈ members, NullFree e.2) : NullFree (.object members)

/-! ## Lookups -/

theorem ordered_record {patch : Map} (h : patch.Ordered) (key : Str) (entry : Option Json) :
    (record patch key entry).Ordered := by
  cases entry with
  | none => exact h
  | some => exact h.insert ..

@[simp]
theorem get_record (patch : Map) (key : Str) (entry : Option Json) (k : Str) :
    (record patch key entry).get k = if k = key then entry.or (patch.get k) else patch.get k := by
  cases entry <;> simp [record]

theorem removeMembers_spec (current : Map) : ∀ (previous : List (Str × Json)) {patch : Map}, patch.Ordered →
    (removeMembers current patch previous).Ordered ∧ ∀ k, (removeMembers current patch previous).get k =
      if (Table.get previous k).isSome ∧ current.get k = none then some .null else patch.get k
  | [], _, h => ⟨h, by simp [removeMembers, Table.get]⟩
  | (key, _) :: previous, _, h => by
    obtain ⟨hordered, hget⟩ := removeMembers_spec current previous (ordered_record h key _)
    refine ⟨hordered, fun k => ?_⟩
    rw [removeMembers, hget, get_record, Table.get]
    by_cases hk : k = key
    · cases hcurrent : current.get key <;> simp [hk, hcurrent]
    · simp [hk, Ne.symm hk]

/-- What a member of the current object adds to the patch. -/
def memberPatch (previous : Map) (key : Str) (value : Json) : Option Json :=
  match previous.get key with
  | none => some value
  | some previousValue => createMergePatch previousValue value

theorem createMembers_spec (previous : Map) : ∀ (current : List (Str × Json)) {patch : Map}, (current.map (·.1)).Nodup →
    patch.Ordered → (createMembers previous patch current).Ordered ∧ ∀ k,
      (createMembers previous patch current).get k = ((Table.get current k).bind (memberPatch previous k)).or (patch.get k)
  | [], _, _, h => ⟨h, by simp [createMembers, Table.get]⟩
  | (key, value) :: current, _, hnodup, h => by
    obtain ⟨hkey, hrest⟩ := nodup_cons.1 hnodup
    obtain ⟨hordered, hget⟩ := createMembers_spec previous current hrest (ordered_record h key (memberPatch previous key value))
    refine ⟨hordered, fun k => (hget k).trans ?_⟩
    rw [get_record, Table.get]
    by_cases hk : k = key
    · simp [hk, Table.get_eq_none_iff.2 hkey]
    · simp [hk, Ne.symm hk]

theorem applyMembers_spec : ∀ (patch : List (Str × Json)) {target : Map}, (patch.map (·.1)).Nodup → target.Ordered →
    (applyMembers target patch).Ordered ∧ ∀ k, (applyMembers target patch).get k = (Table.get patch k).elim (target.get k)
      fun value => if value = .null then none else some (applyMergePatchValue ((target.get k).getD .null) value)
  | [], _, _, h => ⟨h, by simp [applyMembers, Table.get]⟩
  | (key, value) :: patch, target, hnodup, h => by
    obtain ⟨hkey, hrest⟩ := nodup_cons.1 hnodup
    have hordered : Map.Ordered (if value = .null then target.erase key
        else target.insert key (applyMergePatchValue ((target.get key).getD .null) value)) := by
      split
      · exact h.erase key
      · exact h.insert ..
    obtain ⟨hordered, hget⟩ := applyMembers_spec patch hrest hordered
    refine ⟨hordered, fun k => (hget k).trans ?_⟩
    rw [Table.get]
    by_cases hk : k = key
    · subst hk
      rw [Table.get_eq_none_iff.2 hkey]
      by_cases hnull : value = .null <;> simp [hnull, Table.get_erase]
    · by_cases hnull : value = .null <;> simp [hk, Ne.symm hk, hnull, Table.get_erase]

/-! ## Applying what was created -/

variable {p c : Json}

theorem NullFree.ne_null (h : NullFree c) : c ≠ .null := by rintro rfl; cases h

/-- A value without nulls is the patch that makes it of nothing. -/
theorem NullFree.apply_null (h : NullFree c) : applyMergePatchValue .null c = c := by
  induction h with
  | @object members ordered parts ih =>
    obtain ⟨hordered, hget⟩ := applyMembers_spec members ordered.nodup (Pairwise.nil : Map.Ordered [])
    refine congrArg Json.object (hordered.ext ordered fun k => (hget k).trans ?_)
    cases hk : members.get k with
    | none => rfl
    | some =>
      have hmem := Table.mem_of_get hk
      simpa [Table.get, (parts _ hmem).ne_null] using ih _ hmem
  | _ => rfl

theorem createMergePatch_eq_none_iff : createMergePatch p c = none ↔ p = c := by
  cases c <;> simp [createMergePatch]

theorem createMergePatch_ne_null (h : NullFree c) : createMergePatch p c ≠ some .null := by
  cases h <;> simp [createMergePatch]

theorem NullFree.ordered_asObject (h : NullFree p) : Map.Ordered (p.asObject.getD []) := by
  cases h with
  | object ordered => exact ordered
  | _ => exact Pairwise.nil

theorem apply_createMergePatch (hc : NullFree c) : ∀ {p}, NullFree p → ∀ {patch},
    createMergePatch p c = some patch → applyMergePatchValue p patch = c := by
  induction hc with
  | @object current ordered parts ih =>
    intro p hp patch hpatch
    rw [createMergePatch] at hpatch
    split at hpatch
    · cases hpatch
    cases hpatch
    have hprevious := hp.ordered_asObject
    obtain ⟨hremoved, hgetRemoved⟩ := removeMembers_spec current (p.asObject.getD []) (Pairwise.nil : Map.Ordered [])
    obtain ⟨hcreated, hgetCreated⟩ := createMembers_spec (p.asObject.getD []) current ordered.nodup hremoved
    obtain ⟨happlied, hgetApplied⟩ := applyMembers_spec _ hcreated.nodup hprevious
    refine congrArg Json.object (happlied.ext ordered fun k => ?_)
    rw [hgetApplied, hgetCreated, hgetRemoved]
    cases hk : current.get k with
    | none => cases hold : Table.get (p.asObject.getD []) k <;> simp [Table.get]
    | some value =>
      have hmem := Table.mem_of_get hk
      cases hold : Table.get (p.asObject.getD []) k with
      | none => simp [memberPatch, hold, (parts _ hmem).ne_null, (parts _ hmem).apply_null]
      | some previous =>
        have hfree : NullFree previous := by
          cases hp with
          | object _ hparts => exact hparts _ (Table.mem_of_get hold)
          | _ => cases hold
        cases hpatch : createMergePatch previous value with
        | none =>
          obtain rfl := createMergePatch_eq_none_iff.1 hpatch
          simp [memberPatch, hold, hpatch, Table.get]
        | some entry =>
          have hne : entry ≠ .null := fun h => createMergePatch_ne_null (parts _ hmem) (hpatch.trans (h ▸ rfl))
          simp [memberPatch, hold, hpatch, hne, ih _ hmem hfree hpatch]
  | _ =>
    intro p hp patch hpatch
    simp only [createMergePatch] at hpatch
    split at hpatch <;> cases hpatch
    rfl

/-! ## Rollouts -/

def mergePatchFrom (snapshot previous : Map) : Option Json := createMergePatch (.object previous) (.object snapshot)

def applyMergePatch (snapshot : Map) (patch : Json) : Option Map := (applyMergePatchValue (.object snapshot) patch).asObject

/-- What a rollout gets of a snapshot: all of it, if it is asked for or there is none before it, and else what has changed. -/
def recordSnapshot (baseline : Option Map) (full : Bool) (snapshot : Map) : List Rollout.RolloutItem :=
  match if full then none else baseline with
  | none => [.worldState ⟨true, .object snapshot⟩]
  | some previous => (mergePatchFrom snapshot previous).toList.map fun patch => .worldState ⟨false, patch⟩

def recordSnapshots : Option Map → List (Bool × Map) → List Rollout.RolloutItem
  | _, [] => []
  | baseline, (full, snapshot) :: rest => recordSnapshot baseline full snapshot ++ recordSnapshots (some snapshot) rest

/-- What the replay of a rollout asks of snapshots. -/
def replayEnv (env : Rollout.ReplayEnv Map) : Rollout.ReplayEnv Map := { env with restore := asObject, applyMergePatch := applyMergePatch }

theorem applyMergePatch_mergePatchFrom {p c : Map} (hp : NullFree (.object p)) (hc : NullFree (.object c)) {patch : Json}
    (h : mergePatchFrom c p = some patch) : applyMergePatch p patch = some c := by
  rw [applyMergePatch, apply_createMergePatch hc hp h]
  rfl

theorem replay_recordSnapshots (env : Rollout.ReplayEnv Map) : ∀ (steps : List (Bool × Map)) {baseline : Option Map},
    (∀ p ∈ baseline, NullFree (.object p)) → (∀ step ∈ steps, NullFree (.object step.2)) →
    (recordSnapshots baseline steps).foldl (Rollout.replayWorldState (replayEnv env)) baseline =
      (steps.getLast?.map (·.2)).or baseline
  | [], _, _, _ => rfl
  | (full, snapshot) :: steps, baseline, hbaseline, h => by
    have hsnapshot := h _ mem_cons_self
    have hone : (recordSnapshot baseline full snapshot).foldl (Rollout.replayWorldState (replayEnv env)) baseline =
        some snapshot := by
      unfold recordSnapshot
      split
      · rfl
      · next previous hprevious =>
        obtain ⟨rfl, rfl⟩ : full = false ∧ baseline = some previous := by cases full <;> simp_all
        cases hpatch : mergePatchFrom snapshot previous with
        | none =>
          cases createMergePatch_eq_none_iff.1 hpatch
          rfl
        | some => exact applyMergePatch_mergePatchFrom (hbaseline previous rfl) hsnapshot hpatch
    rw [recordSnapshots, foldl_append, hone,
      replay_recordSnapshots env steps (by simpa using hsnapshot) fun step hmem => h step (mem_cons_of_mem _ hmem)]
    rw [getLast?_cons]
    cases steps.getLast? <;> rfl

/-- **A patch is none exactly between equal snapshots, and takes one snapshot to the next;** so the replay of the full and
patch records of a rollout ends at the last snapshot. -/
theorem world_state_patches {p c : Map} (hp : NullFree (.object p)) (hc : NullFree (.object c)) :
    (mergePatchFrom c p = none ↔ c = p) ∧ (∀ patch, mergePatchFrom c p = some patch → applyMergePatch p patch = some c) ∧
    ∀ (env : Rollout.ReplayEnv Map) steps, (∀ step ∈ steps, NullFree (.object step.2)) →
      (recordSnapshots none steps).foldl (Rollout.replayWorldState (replayEnv env)) none = steps.getLast?.map (·.2) :=
  ⟨createMergePatch_eq_none_iff.trans (by simp [eq_comm]), fun _ => applyMergePatch_mergePatchFrom hp hc,
    fun env steps h => (replay_recordSnapshots env steps (by simp) h).trans Option.or_none⟩

theorem world_state_patches_removal : mergePatchFrom [] [(['a'], .array [.null])] = some (.object [(['a'], .null)]) ∧
      applyMergePatch [(['a'], .array [.null])] (.object [(['a'], .null)]) = some [] := by
  have hp : NullFree (.object [(['a'], .array [.null])]) := .object (pairwise_singleton ..) (by simp [NullFree.array])
  have hpatch : mergePatchFrom [] [(['a'], .array [.null])] = some (.object [(['a'], .null)]) := by decide
  exact ⟨hpatch, (world_state_patches hp (.object .nil (by simp))).2.1 _ hpatch⟩

end WorldState
end Owc
