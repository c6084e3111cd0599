import OpenWebCodex.Ascend
import OpenWebCodex.ThreadReducer
/-!
# ThreadList — the list of threads of a workspace over whole runs

No action lists a thread twice or lists a hidden one, and a hidden thread stays hidden (`Sound`).  A list that is read again
with its anchors keeps every thread that is active or processing and every ancestor of a listed one, since the walk up the
parents passes all of them.
-/
namespace Owc.Threads

open List
open Js (Text lit)
open Relation (TransGen)

def ThreadState.listed (s : ThreadState) (workspaceId : Text) : List Text := (s.threads workspaceId).map (·.id)

/-- The lists hold distinct ids and no hidden one; no thread has a parent without a name. -/
structure Sound (s : ThreadState) : Prop where
  nodup : ∀ workspaceId, (s.listed workspaceId).Nodup
  visible : ∀ workspaceId, ∀ id ∈ s.listed workspaceId, id ∉ s.hidden workspaceId
  parents : ∀ id parentId, s.threadParentById.get id = some parentId → parentId ≠ []

/-- The lists hold the same ids, and nothing is hidden or shown. -/
structure SameLists (s s' : ThreadState) : Prop where
  perm : ∀ workspaceId, (s'.listed workspaceId).Perm (s.listed workspaceId)
  hidden : s'.hiddenThreadIdsByWorkspace = s.hiddenThreadIdsByWorkspace
  parents : s'.threadParentById = s.threadParentById

theorem Sound.of_same (h : Sound s) (hs : SameLists s s') : Sound s' := by
  refine ⟨fun w => (hs.perm w).nodup_iff.2 (h.nodup w), fun w id hid => ?_, fun id p hp => ?_⟩
  · have hhidden : s'.hidden w = s.hidden w := by
      unfold ThreadState.hidden
      rw [hs.hidden]
    rw [hhidden]
    exact h.visible w id ((hs.perm w).mem_iff.1 hid)
  · rw [hs.parents] at hp
    exact h.parents id p hp

/-! ## Rewriting one list -/

theorem listed_setList (s : ThreadState) (w w' : Text) (list : List ThreadSummary) :
    (s.setList w list).listed w' = if w' = w then list.map (·.id) else s.listed w' := by
  unfold ThreadState.listed ThreadState.threads ThreadState.setList
  rw [Table.get_put]
  split <;> rfl

variable {s : ThreadState} {w : Text}

theorem sameLists_setList (h : (list.map (·.id)).Perm (s.listed w)) : SameLists s (s.setList w list) := by
  refine ⟨fun w' => ?_, rfl, rfl⟩
  rw [listed_setList]
  split
  · next hw => exact hw ▸ h
  · rfl

section

variable {f : ThreadSummary → ThreadSummary} (hf : ∀ thread, (f thread).id = thread.id)
include hf

theorem map_id_of_id_eq (list : List ThreadSummary) : (list.map f).map (·.id) = list.map (·.id) := by
  rw [map_map]
  exact map_congr_left fun thread _ => hf thread

theorem sameLists_mapThreads : SameLists s (mapThreads s w f) := by
  unfold mapThreads
  split
  · exact ⟨fun _ => .refl _, rfl, rfl⟩
  · apply sameLists_setList
    rw [map_id_of_id_eq hf]
    exact List.Perm.refl _

theorem map_bumpThread_perm (list : List ThreadSummary) (id : Text) (p : Prop) [Decidable p] :
    ((if p then bumpThread (list.map f) id else list.map f).map (·.id)).Perm (list.map (·.id)) := by
  rw [← map_id_of_id_eq hf list]
  split
  · exact (filter_append_perm _ _).map _
  · exact List.Perm.refl _

end

theorem sameLists_setThreadTimestamp (s : ThreadState) (w id : Text) (timestamp : Int) :
    SameLists s (setThreadTimestamp s w id timestamp) := by
  unfold setThreadTimestamp
  dsimp only
  split
  · exact ⟨fun _ => .refl _, rfl, rfl⟩
  · exact sameLists_setList (map_bumpThread_perm (fun thread => by split <;> rfl) _ _ _)

/-! ## Every action -/

theorem sameLists_setItems (explore : Explore) (s : ThreadState) (threadId : Text) (items : List Item) :
    SameLists s (setItems explore s threadId items) := ⟨fun _ => .refl _, rfl, rfl⟩

theorem SameLists.refl (s : ThreadState) : SameLists s s := ⟨fun _ => .refl _, rfl, rfl⟩

theorem SameLists.trans (h : SameLists s s') (h' : SameLists s' s'') : SameLists s s'' :=
  ⟨fun w => (h'.perm w).trans (h.perm w), h'.hidden.trans h.hidden, h'.parents.trans h.parents⟩

theorem sameLists_setMessage (explore : Explore) (s : ThreadState) (w threadId itemId : Text) (list : List Item) (b : Bool) :
    SameLists s (setMessage explore s w threadId itemId list b) := by
  refine (sameLists_setItems explore s threadId list).trans ?_
  change SameLists (setItems explore s threadId list) (maybeRenameThreadFromAgent _ _ _ _ _ _)
  unfold maybeRenameThreadFromAgent
  split
  · exact .refl _
  split
  · exact .refl _
  · exact sameLists_mapThreads fun thread => by split <;> rfl

theorem sameLists_nameFromUser (s : ThreadState) (w threadId text : Text) (had custom : Bool) :
    SameLists s (nameFromUser s w threadId text had custom) :=
  sameLists_setList (map_bumpThread_perm (fun thread => by split <;> rfl) _ _ _)

theorem sameLists_upsertThreadItem (explore : Explore) (s : ThreadState) (w threadId : Text) (item : Item) (b : Bool) :
    SameLists s (upsertThreadItem explore s w threadId item b) := by
  unfold upsertThreadItem
  dsimp only
  split
  · exact (sameLists_setItems explore s threadId _).trans (sameLists_nameFromUser _ _ _ _ _ _)
  · repeat' split
    all_goals first | exact SameLists.refl _ | exact sameLists_setItems explore s threadId _
  · exact sameLists_setItems explore s threadId _

theorem sameLists_setStatus (s : ThreadState) (id : Text) (status : ThreadActivityStatus) :
    SameLists s (s.setStatus id status) := by
  unfold ThreadState.setStatus
  split <;> exact ⟨fun _ => .refl _, rfl, rfl⟩

/-! ## Lists that change -/

theorem Sound.setList (h : Sound s) (list : List ThreadSummary)
    (hlisted : ∀ w', s'.listed w' = if w' = w then list.map (·.id) else s.listed w')
    (hhidden : ∀ w', w' ≠ w → s'.hidden w' = s.hidden w') (hparents : s'.threadParentById = s.threadParentById)
    (hnodup : (list.map (·.id)).Nodup) (hvisible : ∀ thread ∈ list, thread.id ∉ s'.hidden w) : Sound s' := by
  refine ⟨fun w' => ?_, fun w' id hid => ?_, fun id p hp => ?_⟩
  · rw [hlisted]
    split
    · exact hnodup
    · exact h.nodup w'
  · rw [hlisted] at hid
    split at hid
    · next hw =>
      obtain ⟨thread, ht, rfl⟩ := mem_map.1 hid
      rw [hw]
      exact hvisible thread ht
    · next hw =>
      rw [hhidden w' hw]
      exact h.visible w' id hid
  · rw [hparents] at hp
    exact h.parents id p hp

theorem sound_ensureThread (h : Sound s) (w id : Text) : Sound (ensureThread s w id) := by
  unfold ensureThread
  by_cases hh : (s.hidden w).contains id
  · rw [if_pos hh]
    exact h
  rw [if_neg hh]
  by_cases hl : (s.threads w).any (·.id == id)
  · rw [if_pos hl]
    exact h
  rw [if_neg hl]
  refine h.setList _ (fun w' => listed_setList s w w' _) (fun _ _ => rfl) rfl ?_ ?_
  · rw [map_cons, nodup_cons]
    refine ⟨fun hid => hl ?_, h.nodup w⟩
    obtain ⟨thread, ht, heq⟩ := mem_map.1 hid
    exact any_eq_true.2 ⟨thread, ht, by simpa using heq⟩
  · intro thread ht
    rcases mem_cons.1 ht with rfl | ht
    · exact fun hid => hh (contains_iff_mem.2 hid)
    · exact h.visible w thread.id (mem_map_of_mem ht)

theorem nodup_filter (h : Sound s) (w : Text) (p : ThreadSummary → Bool) : (((s.threads w).filter p).map (·.id)).Nodup :=
  List.Nodup.sublist (filter_sublist.map _) (h.nodup w)

theorem hidden_hideThread {id} (hh : ¬ (s.hidden w).contains id) (w' : Text) :
    (hideThread s w id).hidden w' = if w' = w then id :: s.hidden w else s.hidden w' := by
  unfold hideThread
  rw [if_neg hh]
  change ((s.hiddenThreadIdsByWorkspace.put w (id :: s.hidden w)).get w').getD [] = _
  rw [Table.get_put]
  split <;> rfl

theorem hideThread_of_hidden {id} (hh : (s.hidden w).contains id) : hideThread s w id = s := by
  unfold hideThread
  rw [if_pos hh]

theorem sound_hideThread (h : Sound s) (w id : Text) : Sound (hideThread s w id) := by
  by_cases hh : (s.hidden w).contains id
  · rw [hideThread_of_hidden hh]
    exact h
  have hhidden := hidden_hideThread hh
  refine h.setList (w := w) ((s.threads w).filter fun thread => thread.id != id) (fun w' => ?_)
    (fun w' hw => by rw [hhidden, if_neg hw]) ?_ (nodup_filter h w _) fun thread ht => ?_
  · unfold hideThread
    rw [if_neg hh]
    exact listed_setList s w w' _
  · unfold hideThread
    rw [if_neg hh]
    rfl
  · rw [hhidden, if_pos rfl]
    obtain ⟨ht, hne⟩ := mem_filter.1 ht
    intro hmem
    rcases mem_cons.1 hmem with heq | hmem
    · simp [heq] at hne
    · exact h.visible w thread.id (mem_map_of_mem ht) hmem

theorem sound_removeThread (h : Sound s) (w id : Text) : Sound (removeThread s w id) := by
  have hlist : Sound (s.setList w ((s.threads w).filter fun thread => thread.id != id)) := by
    refine h.setList _ (fun w' => listed_setList s w w' _) (fun _ _ => rfl) rfl (nodup_filter h w _) fun thread ht => ?_
    exact h.visible w thread.id (mem_map_of_mem (mem_filter.1 ht).1)
  refine ⟨hlist.nodup, hlist.visible, fun a b hab => ?_⟩
  exact h.parents a b (Table.get_of_get_erase hab)

theorem sound_setThreadParent (h : Sound s) (id p : Text) : Sound (setThreadParent s id p) := by
  unfold setThreadParent
  by_cases hp : (p.isEmpty || p == id)
  · rw [if_pos hp]
    exact h
  rw [if_neg hp]
  refine ⟨h.nodup, h.visible, fun a b hab => ?_⟩
  rcases Table.get_put_some hab with ⟨_, rfl⟩ | ⟨_, hab⟩
  · intro hnil
    simp [hnil] at hp
  · exact h.parents a b hab

/-! ## Anchors -/

def ThreadState.parent (s : ThreadState) (id : Text) : Option Text :=
  (s.threadParentById.get id).filter (fun p => !p.isEmpty)

theorem appendParents_eq (s : ThreadState) (w : Text) : ∀ n visited next r, appendParents s w n visited next r =
      (Ascend.ascend s.parent n visited (next.filter (fun p => !p.isEmpty))).foldl (appendExistingAnchor s w) r
  | 0, _, _, _ => rfl
  | _ + 1, _, none, _ => rfl
  | n + 1, visited, some p, r => by
    unfold appendParents
    by_cases hp : p = []
    · subst hp
      rfl
    have hne : p.isEmpty = false := by simpa using hp
    have hnext : (some p).filter (fun p => !p.isEmpty) = some p := by simp [hne]
    rw [hnext]
    unfold Ascend.ascend
    by_cases hv : p ∈ visited
    · rw [if_pos (by simp [hv]), if_pos hv]
      rfl
    · rw [if_neg (by simp [hne, hv]), if_neg hv, foldl_cons]
      exact appendParents_eq s w n (p :: visited) _ _

/-- What holds of a list while anchors are appended to it. -/
structure Reconciled.Sound (s : ThreadState) (w : Text) (r : Reconciled) : Prop where
  ids : r.includedIds = r.reconciled.map (·.id)
  nodup : r.includedIds.Nodup
  visible : ∀ id ∈ r.includedIds, id ∉ s.hidden w

theorem appendExistingAnchor_cases (s : ThreadState) (w : Text) (r : Reconciled) (id : Text) :
    (appendExistingAnchor s w r id = r ∧ (id ∈ r.includedIds ∨ id = [] ∨ id ∈ s.hidden w ∨ id ∉ s.listed w)) ∨
    ∃ summary, summary.id = id ∧ id ∉ r.includedIds ∧ id ∉ s.hidden w ∧
      appendExistingAnchor s w r id = ⟨r.reconciled ++ [summary], r.includedIds ++ [id]⟩ := by
  unfold appendExistingAnchor
  by_cases hskip : (id.isEmpty || (s.hidden w).contains id || r.includedIds.contains id)
  · rw [if_pos hskip]
    refine .inl ⟨rfl, ?_⟩
    simp only [Bool.or_eq_true, List.isEmpty_iff, contains_iff_mem] at hskip
    tauto
  rw [if_neg hskip]
  simp only [Bool.or_eq_true, List.isEmpty_iff, contains_iff_mem, not_or] at hskip
  cases he : existingById (s.threads w) id with
  | none =>
    refine .inl ⟨rfl, .inr (.inr (.inr fun hl => ?_))⟩
    obtain ⟨thread, ht, heq⟩ := mem_map.1 hl
    exact find?_eq_none.1 he thread (mem_reverse.2 ht) (by simpa using heq)
  | some summary =>
    have hid : summary.id = id := by simpa using find?_some he
    exact .inr ⟨freshenAnchorSummary s summary, hid, hskip.2, hskip.1.2, rfl⟩

theorem Reconciled.Sound.append (h : r.Sound s w) (id : Text) : (appendExistingAnchor s w r id).Sound s w := by
  rcases appendExistingAnchor_cases s w r id with ⟨heq, _⟩ | ⟨summary, hid, hnew, hhid, heq⟩
  · rwa [heq]
  rw [heq]
  refine ⟨?_, ?_, ?_⟩
  · rw [map_append, h.ids, map_singleton, hid]
  · exact List.nodup_append.2 ⟨h.nodup, by simp, fun a ha b hb hab => hnew (mem_singleton.1 hb ▸ hab ▸ ha)⟩
  · exact forall_mem_append.2 ⟨h.visible, by simpa using hhid⟩

section

variable (s : ThreadState) (w : Text) (r : Reconciled)

theorem subset_append (id : Text) : r.includedIds ⊆ (appendExistingAnchor s w r id).includedIds := by
  rcases appendExistingAnchor_cases s w r id with ⟨heq, _⟩ | ⟨_, _, _, _, heq⟩ <;> rw [heq]
  · exact fun _ h => h
  · exact subset_append_left _ _

theorem mem_append {id : Text} (hne : id ≠ []) (hhid : id ∉ s.hidden w) (hlisted : id ∈ s.listed w) :
    id ∈ (appendExistingAnchor s w r id).includedIds := by
  rcases appendExistingAnchor_cases s w r id with ⟨heq, hout⟩ | ⟨_, _, _, _, heq⟩ <;> rw [heq]
  · tauto
  · exact mem_append_right _ (mem_singleton.2 rfl)

end

theorem of_mem_append {id x} (h : x ∈ (appendExistingAnchor s w r id).includedIds) : x ∈ r.includedIds ∨ x = id := by
  rcases appendExistingAnchor_cases s w r id with ⟨heq, _⟩ | ⟨_, _, _, _, heq⟩ <;> rw [heq] at h
  · exact .inl h
  · exact (List.mem_append.1 h).imp (fun h => h) List.mem_singleton.1

/-- Steps that each append anchors keep the list sound and all that is in it. -/
def Grows (s : ThreadState) (w : Text) (r r' : Reconciled) : Prop :=
  (r.Sound s w → r'.Sound s w) ∧ r.includedIds ⊆ r'.includedIds

theorem Grows.refl (s : ThreadState) (w : Text) (r : Reconciled) : Grows s w r r := ⟨id, List.Subset.refl _⟩

theorem Grows.trans (h : Grows s w a b) (h' : Grows s w b c) :
    Grows s w a c := ⟨fun ha => h'.1 (h.1 ha), fun _ hx => h'.2 (h.2 hx)⟩

theorem grows_append (s : ThreadState) (w : Text) (r : Reconciled) (id : Text) :
    Grows s w r (appendExistingAnchor s w r id) := ⟨fun h => h.append id, subset_append s w r id⟩

theorem grows_foldl {β : Type} {step : Reconciled → β → Reconciled}
    (hstep : ∀ r b, Grows s w r (step r b)) : ∀ (l : List β) (r : Reconciled), Grows s w r (l.foldl step r)
  | [], r => Grows.refl s w r
  | b :: l, r => (hstep r b).trans (grows_foldl hstep l _)

theorem mem_foldl_of_step {β : Type} {step : Reconciled → β → Reconciled}
    (hstep : ∀ r b, Grows s w r (step r b)) {x b} (hx : ∀ r, x ∈ (step r b).includedIds) :
    ∀ {l : List β} (r : Reconciled), b ∈ l → x ∈ (l.foldl step r).includedIds
  | a :: l, r, hb => by
    rcases mem_cons.1 hb with rfl | hb
    · exact (grows_foldl hstep l _).2 (hx r)
    · exact mem_foldl_of_step hstep hx (step r a) hb

section

variable (s : ThreadState) (w : Text)

theorem grows_appendParents (n : Nat) (visited : List Text) (next : Option Text) (r : Reconciled) :
    Grows s w r (appendParents s w n visited next r) := by
  rw [appendParents_eq]
  exact grows_foldl (grows_append s w) _ _

def anchors (s : ThreadState) (w : Text) (visible : List ThreadSummary) : Reconciled :=
  (s.threads w).foldl (fun r thread => if s.isProcessing thread.id then appendExistingAnchor s w r thread.id else r)
    (match s.active w with
      | some activeThreadId => appendExistingAnchor s w ⟨visible, visible.map (·.id)⟩ activeThreadId
      | none => ⟨visible, visible.map (·.id)⟩)

theorem reconcile_eq (visible : List ThreadSummary) :
    reconcile s w visible = (anchors s w visible).includedIds.foldl (fun r threadId =>
      appendParents s w (s.threadParentById.length + 1) [threadId] (s.threadParentById.get threadId) r)
      (anchors s w visible) := rfl

theorem grows_processing (r : Reconciled) (thread : ThreadSummary) :
    Grows s w r (if s.isProcessing thread.id then appendExistingAnchor s w r thread.id else r) := by
  split
  · exact grows_append s w r thread.id
  · exact Grows.refl s w r

theorem grows_active (r : Reconciled) : Grows s w r (match s.active w with
      | some activeThreadId => appendExistingAnchor s w r activeThreadId
      | none => r) := by
  split
  · exact grows_append s w r _
  · exact Grows.refl s w r

section

variable (visible : List ThreadSummary)

theorem grows_anchors : Grows s w ⟨visible, visible.map (·.id)⟩ (anchors s w visible) :=
  (grows_active s w _).trans (grows_foldl (grows_processing s w) _ _)

theorem grows_reconcile : Grows s w (anchors s w visible) (reconcile s w visible) := by
  rw [reconcile_eq]
  exact grows_foldl (fun r _ => grows_appendParents s w _ _ _ r) _ _

/-- **An active or processing thread that was listed is listed again.** -/
theorem anchor_kept {id : Text} (hne : id ≠ []) (hhid : id ∉ s.hidden w) (hlisted : id ∈ s.listed w)
    (h : s.active w = some id ∨ s.isProcessing id) : id ∈ (reconcile s w visible).includedIds := by
  refine (grows_reconcile s w visible).2 ?_
  rcases h with hactive | hproc
  · refine (grows_foldl (grows_processing s w) _ _).2 ?_
    rw [hactive]
    exact mem_append s w _ hne hhid hlisted
  · obtain ⟨_, ht, rfl⟩ := mem_map.1 hlisted
    refine mem_foldl_of_step (grows_processing s w) (fun r => ?_) _ ht
    rw [if_pos hproc]
    exact mem_append s w r hne hhid hlisted

end

end

theorem seed_of_mem {x} : ∀ {seeds : List Text} {r : Reconciled}, x ∈ (seeds.foldl (fun r threadId =>
      appendParents s w (s.threadParentById.length + 1) [threadId] (s.threadParentById.get threadId) r) r).includedIds →
    x ∈ r.includedIds ∨ ∃ seed ∈ seeds, TransGen (Ascend.Parent s.parent) seed x
  | [], _, h => .inl h
  | seed :: seeds, r, h => by
    rw [foldl_cons] at h
    rcases seed_of_mem h with h | ⟨seed', hs, hp⟩
    · rw [appendParents_eq] at h
      have hpass : ∀ (l : List Text) (r : Reconciled), x ∈ (l.foldl (appendExistingAnchor s w) r).includedIds →
          x ∈ r.includedIds ∨ x ∈ l := by
        intro l
        induction l with
        | nil => exact fun r h => .inl h
        | cons a l ih =>
          intro r h
          rcases ih _ h with h | h
          · exact (of_mem_append h).imp id fun h => by rw [h]; exact mem_cons_self
          · exact .inr (mem_cons_of_mem _ h)
      rcases hpass _ _ h with h | h
      · exact .inl h
      · exact .inr ⟨seed, mem_cons_self, Ascend.ancestor_of_mem_ascend (f := s.parent) h⟩
    · exact .inr ⟨seed', mem_cons_of_mem _ hs, hp⟩

/-- **Every ancestor of a listed thread that was listed is listed again**, along a cycle or not. -/
theorem ancestor_kept (s : ThreadState) (w : Text) (visible : List ThreadSummary) {id child : Text} (hne : id ≠ [])
    (hhid : id ∉ s.hidden w) (hlisted : id ∈ s.listed w) (hchild : child ∈ (reconcile s w visible).includedIds)
    (h : TransGen (Ascend.Parent s.parent) child id) : id ∈ (reconcile s w visible).includedIds := by
  obtain ⟨seed, hseed, hpath⟩ : ∃ seed ∈ (anchors s w visible).includedIds, TransGen (Ascend.Parent s.parent) seed id := by
    rw [reconcile_eq] at hchild
    rcases seed_of_mem hchild with hc | ⟨seed, hs, hp⟩
    · exact ⟨child, hc, h⟩
    · exact ⟨seed, hs, hp.trans h⟩
  have hparents : ∀ a b, s.parent a = some b → b ∈ s.threadParentById.map Prod.snd := by
    intro a b hab
    obtain ⟨hab, _⟩ := Option.filter_eq_some_iff.1 hab
    exact mem_map.2 ⟨(a, b), Table.mem_of_get hab, rfl⟩
  rcases Ascend.mem_ascend_of_ancestor hparents hpath with rfl | hpass
  · exact (grows_reconcile s w visible).2 hseed
  rw [length_map] at hpass
  rw [reconcile_eq]
  refine mem_foldl_of_step (fun r _ => grows_appendParents s w _ _ _ r) (fun r => ?_) _ hseed
  rw [appendParents_eq]
  exact mem_foldl_of_step (grows_append s w) (fun r => mem_append s w r hne hhid hlisted) r hpass

/-! ## The reducer -/

theorem listed_setThreads (s : ThreadState) (w : Text) (threads : List ThreadSummary) (key : ThreadListSortKey) (w' : Text) :
    (setThreads s w threads key true).listed w' = if w' = w then (reconcile s w
      (threads.filter (fun thread => !(s.hidden w).contains thread.id))).reconciled.map (·.id) else s.listed w' := by
  exact listed_setList { s with threadSortKeyByWorkspace := s.threadSortKeyByWorkspace.put w key } w w' _

variable {threads : List ThreadSummary}

section

variable (s : ThreadState) (w : Text) (h : (threads.map (·.id)).Nodup)
include h

theorem visible_sound : Reconciled.Sound s w ⟨threads.filter (fun thread => !(s.hidden w).contains thread.id),
      (threads.filter (fun thread => !(s.hidden w).contains thread.id)).map (·.id)⟩ := by
  refine ⟨rfl, List.Nodup.sublist (filter_sublist.map _) h, fun id hid => ?_⟩
  obtain ⟨_, ht, rfl⟩ := mem_map.1 hid
  simpa using (mem_filter.1 ht).2

theorem reconcile_sound : (reconcile s w (threads.filter (fun thread => !(s.hidden w).contains thread.id))).Sound s w :=
  (grows_reconcile s w _).1 ((grows_anchors s w _).1 (visible_sound s w h))

end

theorem sound_setThreads (h : Sound s) (w : Text) (key : ThreadListSortKey)
    (preserve : Bool) (hdistinct : (threads.map (·.id)).Nodup) : Sound (setThreads s w threads key preserve) := by
  cases preserve with
  | true =>
    have hr := reconcile_sound s w hdistinct
    refine h.setList _ (listed_setThreads s w threads key) (fun _ _ => rfl) rfl (hr.ids ▸ hr.nodup) fun thread ht => ?_
    exact hr.visible thread.id (hr.ids ▸ mem_map_of_mem ht)
  | false =>
    have hv := visible_sound s w hdistinct
    refine h.setList (w := w) (threads.filter fun thread => !(s.hidden w).contains thread.id) (fun w' => ?_)
      (fun _ _ => rfl) rfl hv.nodup fun thread ht => hv.visible thread.id (mem_map_of_mem ht)
    exact listed_setList { s with threadSortKeyByWorkspace := s.threadSortKeyByWorkspace.put w key } w w' _

/-- The actions that add to a list, take from it, or set a parent. -/
def ThreadAction.rewrites : ThreadAction → Bool
  | ensureThread _ _ | hideThread _ _ | removeThread _ _ | setThreadParent _ _ | setThreads _ _ _ _ => true
  | _ => false

theorem sameLists_step (explore : Explore) (s : ThreadState) (h : a.rewrites = false) :
    SameLists s (threadReducer explore s a) := by
  cases a with
  | ensureThread | hideThread | removeThread | setThreadParent | setThreads => cases h
  | setActiveThreadId | setMaxItemsPerThread | setLastAgentMessage =>
    simp only [threadReducer, setActiveThreadId, setMaxItemsPerThread, setLastAgentMessage]
    repeat' split
    all_goals exact ⟨fun _ => .refl _, rfl, rfl⟩
  | markProcessing id isProcessing timestamp =>
    change SameLists s (markProcessing s id isProcessing timestamp)
    unfold markProcessing
    dsimp only
    split
    all_goals exact sameLists_setStatus _ _ _
  | markReviewing | markUnread => exact sameLists_setStatus _ _ _
  | setThreadName | mergeThreadSummary => exact sameLists_mapThreads fun thread => by split <;> rfl
  | setThreadTimestamp => exact sameLists_setThreadTimestamp _ _ _ _
  | appendAgentDelta | completeAgentMessage => exact sameLists_setMessage _ _ _ _ _ _ _
  | upsertItem => exact sameLists_upsertThreadItem _ _ _ _ _ _
  | addAssistantMessage | setThreadItems | appendReasoningSummary | appendReasoningSummaryBoundary
  | appendReasoningContent | appendPlanDelta => exact sameLists_setItems _ _ _ _
  | appendToolOutput threadId itemId delta =>
    change SameLists s (appendToolOutput explore s threadId itemId delta)
    unfold appendToolOutput
    split
    · exact sameLists_setItems _ _ _ _
    · exact SameLists.refl s
  | elsewhere => exact SameLists.refl s

def ThreadAction.Distinct : ThreadAction → Prop
  | setThreads _ threads _ _ => (threads.map (·.id)).Nodup
  | _ => True

theorem sound_step (explore : Explore) (h : Sound s) (ha : a.Distinct) : Sound (threadReducer explore s a) := by
  cases hr : a.rewrites with
  | false => exact h.of_same (sameLists_step explore s hr)
  | true =>
    cases a with
    | ensureThread w id => exact sound_ensureThread h w id
    | hideThread w id => exact sound_hideThread h w id
    | removeThread w id => exact sound_removeThread h w id
    | setThreadParent id p => exact sound_setThreadParent h id p
    | setThreads w threads key preserve => exact sound_setThreads h w key preserve ha
    | _ => cases hr

theorem hidden_step (explore : Explore) (s : ThreadState) (a : ThreadAction) (w : Text) :
    s.hidden w ⊆ (threadReducer explore s a).hidden w := by
  cases hr : a.rewrites with
  | false =>
    unfold ThreadState.hidden
    rw [(sameLists_step explore s hr).hidden]
    exact fun _ h => h
  | true =>
    cases a with
    | hideThread w' id =>
      change s.hidden w ⊆ (hideThread s w' id).hidden w
      by_cases hh : (s.hidden w').contains id
      · rw [hideThread_of_hidden hh]
        exact fun _ h => h
      rw [hidden_hideThread hh]
      split
      · next hw =>
        rw [hw]
        exact subset_cons_self _ _
      · exact fun _ h => h
    | ensureThread | removeThread | setThreadParent | setThreads =>
      simp only [threadReducer, ensureThread, removeThread, setThreadParent, setThreads]
      repeat' split
      all_goals exact fun _ h => h
    | _ => cases hr

theorem mem_hidden_hideThread (s : ThreadState) (w id : Text) : id ∈ (hideThread s w id).hidden w := by
  by_cases hh : (s.hidden w).contains id
  · rw [hideThread_of_hidden hh]
    exact contains_iff_mem.1 hh
  · rw [hidden_hideThread hh, if_pos rfl]
    exact mem_cons_self

/-! ## Runs -/

def reached (explore : Explore) (actions : List ThreadAction) : ThreadState := actions.foldl (threadReducer explore) initialState

theorem sound_foldl (explore : Explore) : ∀ (actions : List ThreadAction) {s : ThreadState}, Sound s →
    (∀ a ∈ actions, a.Distinct) → Sound (actions.foldl (threadReducer explore) s)
  | [], _, h, _ => h
  | a :: actions, _, h, ha =>
    sound_foldl explore actions (sound_step explore h (ha a mem_cons_self)) (fun b hb => ha b (mem_cons_of_mem _ hb))

theorem hidden_foldl (explore : Explore) (w : Text) : ∀ (actions : List ThreadAction) (s : ThreadState),
    s.hidden w ⊆ (actions.foldl (threadReducer explore) s).hidden w
  | [], _ => List.Subset.refl _
  | a :: actions, s => fun _ hx => hidden_foldl explore w actions _ (hidden_step explore s a w hx)

theorem sound_initialState : Sound initialState :=
  ⟨fun _ => nodup_nil, fun _ _ h => (not_mem_nil h).elim, fun _ _ h => (Option.some_ne_none _ h.symm).elim⟩

def ThreadState.ParentOf (s : ThreadState) (child parent : Text) : Prop := s.threadParentById.get child = some parent

theorem Sound.ne_nil_of_ancestor (h : Sound s) {id} (hp : TransGen s.ParentOf child id) : id ≠ [] := by
  rcases Relation.TransGen.tail'_iff.1 hp with ⟨b, _, hb⟩
  exact h.parents b id hb

/-- **The lists of threads over any run.**  They hold distinct ids and no hidden thread, a thread once hidden is not listed
again, and a list read again with its anchors keeps every listed thread that is active or processing, under an id that is
not empty, or an ancestor of a listed one. -/
theorem thread_lists_sound (explore : Explore) (actions : List ThreadAction) (hdistinct : ∀ a ∈ actions, a.Distinct) :
    (∀ w, ((reached explore actions).listed w).Nodup ∧
      ∀ id ∈ (reached explore actions).listed w, id ∉ (reached explore actions).hidden w) ∧
    (∀ pre post w id, actions = pre ++ .hideThread w id :: post → id ∉ (reached explore actions).listed w) ∧
    (∀ w threads key id, (threads.map (·.id)).Nodup →
      id ∈ (reached explore actions).listed w → id ∉ (reached explore actions).hidden w →
      (id ≠ [] ∧ ((reached explore actions).active w = some id ∨ (reached explore actions).isProcessing id = true) ∨
        ∃ child ∈ (threadReducer explore (reached explore actions) (.setThreads w threads key true)).listed w,
          TransGen (reached explore actions).ParentOf child id) →
      id ∈ (threadReducer explore (reached explore actions) (.setThreads w threads key true)).listed w) := by
  have hsound : Sound (reached explore actions) := sound_foldl explore actions sound_initialState hdistinct
  refine ⟨fun w => ⟨hsound.nodup w, hsound.visible w⟩, ?_, ?_⟩
  · rintro pre post w id rfl hlisted
    refine hsound.visible w id hlisted ?_
    unfold reached
    rw [foldl_append, foldl_cons]
    exact hidden_foldl explore w post _ (mem_hidden_hideThread _ w id)
  · intro w threads key id hthreads hlisted hhid hanchor
    generalize reached explore actions = s at hsound hlisted hhid hanchor
    have hids := (reconcile_sound s w hthreads).ids
    change _ ∨ ∃ child ∈ (setThreads s w threads key true).listed w, _ at hanchor
    change id ∈ (setThreads s w threads key true).listed w
    rw [listed_setThreads, if_pos rfl, ← hids] at hanchor ⊢
    rcases hanchor with ⟨hne, h⟩ | ⟨child, hchild, h⟩
    · exact anchor_kept s w _ hne hhid hlisted h
    · exact ancestor_kept s w _ (hsound.ne_nil_of_ancestor h) hhid hlisted hchild
        (TransGen.mono (fun _ _ hp => Option.filter_eq_some_iff.2 ⟨hp, by simpa using hsound.parents _ _ hp⟩) child id h)

def cyclicActions : List ThreadAction :=
  [.ensureThread (lit "w") (lit "a"), .ensureThread (lit "w") (lit "b"), .ensureThread (lit "w") (lit "c"),
    .setThreadParent (lit "a") (lit "b"), .setThreadParent (lit "b") (lit "a"), .hideThread (lit "w") (lit "c")]

def threadNamed (id : Text) : ThreadSummary := ⟨id, lit "Thread", 0, none, none, none, none⟩

theorem thread_lists_sound_cyclic : lit "c" ∉ (reached (fun _ _ => none) cyclicActions).listed (lit "w") ∧
    lit "b" ∈ (threadReducer (fun _ _ => none) (reached (fun _ _ => none) cyclicActions)
      (.setThreads (lit "w") [threadNamed (lit "a")] .updatedAt true)).listed (lit "w") := by
  have hdistinct : ∀ a ∈ cyclicActions, a.Distinct := by
    intro a ha
    simp only [cyclicActions, mem_cons, not_mem_nil, or_false] at ha
    rcases ha with rfl | rfl | rfl | rfl | rfl | rfl <;> trivial
  obtain ⟨_, hhidden, hkept⟩ := thread_lists_sound (fun _ _ => none) cyclicActions hdistinct
  refine ⟨hhidden (cyclicActions.take 5) [] (lit "w") (lit "c") rfl, ?_⟩
  refine hkept (lit "w") [threadNamed (lit "a")] .updatedAt (lit "b") (by decide) (by decide +kernel) (by decide +kernel) ?_
  exact .inr ⟨lit "a", by decide +kernel, .single (by unfold ThreadState.ParentOf; decide +kernel)⟩

/-- **A thread without a name is dropped although it is active.** -/
theorem empty_id_dropped : [] ∈ (reached (fun _ _ => none) [.ensureThread (lit "w") []]).listed (lit "w") ∧
    (reached (fun _ _ => none) [.ensureThread (lit "w") []]).hidden (lit "w") = [] ∧
    (reached (fun _ _ => none) [.ensureThread (lit "w") []]).active (lit "w") = some [] ∧
    (threadReducer (fun _ _ => none) (reached (fun _ _ => none) [.ensureThread (lit "w") []])
      (.setThreads (lit "w") [] .updatedAt true)).listed (lit "w") = [] := by
  decide +kernel

end Owc.Threads
