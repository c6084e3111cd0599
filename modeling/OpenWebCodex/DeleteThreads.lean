import OpenWebCodex.Text
/-!
# DeleteThreads — deleting threads that forks refer to

The history of a fork begins in the rollout of its base.  A request is refused while a fork outside it refers to one of its
threads; then the threads are deleted in the order of the request, up to the first deletion that fails.
-/
namespace Owc.ThreadStore

open List

abbrev ThreadId := Str

/-- A rollout whose metadata can be read; any other names no base. -/
structure Rollout where
  threadId : ThreadId
  historyBase : Option ThreadId

inductive ThreadStoreError
  | invalidRequest (message : Str)
  | threadNotFound (threadId : ThreadId)
  | failed

/-! ## The reference index -/

/-- The rollouts that the index takes: the first it comes to of each thread. -/
def scan (rollouts : List Rollout) : List Rollout :=
  rollouts.foldl (fun seen r => if seen.any (·.threadId == r.threadId) then seen else seen ++ [r]) []

def referenceCount (index : List Rollout) (threadId : ThreadId) : Nat :=
  index.countP fun r => r.historyBase == some threadId && r.threadId != threadId

def historyBase (index : List Rollout) (threadId : ThreadId) : Option ThreadId :=
  (index.find? (·.threadId == threadId)).bind (·.historyBase)

def internalReferenceCount (index : List Rollout) (deletionSet : List ThreadId) (threadId : ThreadId) : Nat :=
  deletionSet.countP fun child => historyBase index child == some threadId && child != threadId

def referencedThreadError (threadId : ThreadId) : ThreadStoreError :=
  .invalidRequest ("cannot delete thread ".toList ++ threadId ++ ": forked history still references it".toList)

/-! ## Deletion -/

/-- How the deletion of a thread goes; one that fails may have removed some of its files. -/
inductive Deletion
  | removes
  | fails (leaves : Rollout → Bool)

abbrev Request := List (ThreadId × Deletion)

abbrev Outcome := Except ThreadStoreError Unit × List Rollout

def deleteThreadAfterReferenceCheck (rollouts : List Rollout) (threadId : ThreadId) : Deletion → Outcome
  | .removes =>
    (if rollouts.any (·.threadId == threadId) then .ok () else .error (.threadNotFound threadId),
      rollouts.filter (·.threadId != threadId))
  | .fails leaves => (.error .failed, rollouts.filter fun r => r.threadId != threadId || leaves r)

def deleteThread (rollouts : List Rollout) (threadId : ThreadId) (deletion : Deletion) : Outcome :=
  if referenceCount (scan rollouts) threadId > 0 then (.error (referencedThreadError threadId), rollouts)
  else deleteThreadAfterReferenceCheck rollouts threadId deletion

def deleteEach : List Rollout → Request → Outcome
  | rollouts, [] => (.ok (), rollouts)
  | rollouts, (threadId, deletion) :: rest =>
    match deleteThreadAfterReferenceCheck rollouts threadId deletion with
    | (.ok (), left) | (.error (.threadNotFound _), left) => deleteEach left rest
    | (.error e, left) => (.error e, left)

/-- The first thread of a request that a fork outside it refers to. -/
def blocked (rollouts : List Rollout) (threadIds : List ThreadId) : Option ThreadId :=
  threadIds.find? fun threadId =>
    referenceCount (scan rollouts) threadId > internalReferenceCount (scan rollouts) threadIds.dedup threadId

def deleteThreads (rollouts : List Rollout) (request : Request) : Outcome :=
  match blocked rollouts (request.map (·.1)) with
  | some threadId => (.error (referencedThreadError threadId), rollouts)
  | none => deleteEach rollouts request

/-! ## What a deletion leaves -/

/-- A rollout is left whose base had a rollout and has none any more. -/
def Dangles (before after : List Rollout) : Prop :=
  ∃ r ∈ after, ∃ base, r.historyBase = some base ∧ base ∈ before.map (·.threadId) ∧ base ∉ after.map (·.threadId)

/-- **A fork comes before its base**: every rollout whose base is to be deleted is of a thread listed before it. -/
def ForksFirst (threadIds : List ThreadId) (rollouts : List Rollout) : Prop :=
  ∀ r ∈ rollouts, ∀ base, r.historyBase = some base → base ≠ r.threadId → base ∈ rollouts.map (·.threadId) →
    base ∈ threadIds → r.threadId ∈ threadIds.takeWhile (· ≠ base)

variable {rollouts : List Rollout} {threadId : ThreadId} {threadIds : List ThreadId}

@[simp]
theorem deleteEach_removes (rest : Request) :
    deleteEach rollouts ((threadId, .removes) :: rest) = deleteEach (rollouts.filter (·.threadId != threadId)) rest := by
  cases h : rollouts.any (·.threadId == threadId) <;> simp [deleteEach, deleteThreadAfterReferenceCheck, h]

@[simp]
theorem deleteEach_fails (leaves : Rollout → Bool) (rest : Request) :
    deleteEach rollouts ((threadId, .fails leaves) :: rest) =
      deleteThreadAfterReferenceCheck rollouts threadId (.fails leaves) := rfl

theorem deleteEach_subset : ∀ (request : Request) (rollouts : List Rollout), (deleteEach rollouts request).2 ⊆ rollouts
  | [], _ => Subset.refl _
  | (_, .removes) :: rest, rollouts => by
    rw [deleteEach_removes]
    exact fun r hr => filter_sublist.subset (deleteEach_subset rest _ hr)
  | (_, .fails _) :: _, _ => filter_sublist.subset

/-- Only rollouts of the deleted thread go, and no rollout of a fork that comes first has it as its base. -/
theorem not_dangles_step (h : ForksFirst (threadId :: threadIds) rollouts) (deletion : Deletion) :
    ¬Dangles rollouts (deleteThreadAfterReferenceCheck rollouts threadId deletion).2 := by
  rintro ⟨r, hr, base, hbase, hbefore, hafter⟩
  have hstays : ∀ r ∈ rollouts, r.threadId ≠ threadId →
      r ∈ (deleteThreadAfterReferenceCheck rollouts threadId deletion).2 := by
    cases deletion <;> simp_all [deleteThreadAfterReferenceCheck]
  have hsub : (deleteThreadAfterReferenceCheck rollouts threadId deletion).2 ⊆ rollouts := by
    cases deletion <;> exact filter_sublist.subset
  have heq : base = threadId := by
    obtain ⟨b, hb, rfl⟩ := mem_map.1 hbefore
    exact by_contra fun hne => hafter (mem_map_of_mem (hstays b hb hne))
  have hfirst := h r (hsub hr) base hbase (fun he => hafter (he ▸ mem_map_of_mem hr)) hbefore (by simp [heq])
  simp [heq] at hfirst

theorem ForksFirst.tail (h : ForksFirst (threadId :: threadIds) rollouts) :
    ForksFirst threadIds (rollouts.filter (·.threadId != threadId)) := by
  intro r hr base hbase hne hmem hids
  obtain ⟨b, hb, rfl⟩ := mem_map.1 hmem
  simp only [mem_filter, bne_iff_ne] at hr hb
  have hfirst := h r hr.1 _ hbase hne (mem_map_of_mem hb.1) (mem_cons_of_mem _ hids)
  simpa [takeWhile_cons, hb.2.symm, hr.2] using hfirst

theorem deleteEach_safe : ∀ (request : Request) (rollouts : List Rollout),
    ForksFirst (request.map (·.1)) rollouts → ¬Dangles rollouts (deleteEach rollouts request).2
  | [], _, _ => fun ⟨_, _, _, _, hbefore, hafter⟩ => hafter hbefore
  | (threadId, .removes) :: rest, rollouts, h => by
    rw [deleteEach_removes]
    rintro ⟨r, hr, base, hbase, hbefore, hafter⟩
    by_cases hmid : base ∈ (rollouts.filter (·.threadId != threadId)).map (·.threadId)
    · exact deleteEach_safe rest _ h.tail ⟨r, hr, base, hbase, hmid, hafter⟩
    · exact not_dangles_step h .removes ⟨r, deleteEach_subset _ _ hr, base, hbase, hbefore, hmid⟩
  | (_, .fails leaves) :: _, _, h => not_dangles_step h (.fails leaves)

variable {r : Rollout}

theorem exists_survives : ∀ (threadIds : List ThreadId) (rollouts : List Rollout), r ∈ rollouts →
    ∃ request, request.map (·.1) = threadIds ∧ r ∈ (deleteEach rollouts request).2
  | [], _, hr => ⟨[], rfl, hr⟩
  | threadId :: threadIds, rollouts, hr => by
    by_cases heq : r.threadId = threadId
    · exact ⟨(threadId, .fails fun _ => true) :: threadIds.map (·, .removes), by simp [Function.comp_def],
        by simpa [deleteThreadAfterReferenceCheck] using hr⟩
    · obtain ⟨request, hrequest, hleft⟩ := exists_survives threadIds (rollouts.filter (·.threadId != threadId))
        (by simp [hr, heq])
      exact ⟨(threadId, .removes) :: request, by simp [hrequest], by simpa using hleft⟩

theorem exists_loses_base (hne : base ≠ r.threadId) :
    ∀ (threadIds : List ThreadId) (rollouts : List Rollout), r ∈ rollouts → base ∈ threadIds →
      r.threadId ∉ threadIds.takeWhile (· ≠ base) → ∃ request, request.map (·.1) = threadIds ∧
        r ∈ (deleteEach rollouts request).2 ∧ base ∉ (deleteEach rollouts request).2.map (·.threadId)
  | [], _, _, hmem, _ => nomatch hmem
  | threadId :: threadIds, rollouts, hr, hmem, hbefore => by
    by_cases heq : threadId = base
    · subst heq
      obtain ⟨request, hrequest, hleft⟩ := exists_survives (r := r) threadIds (rollouts.filter (·.threadId != threadId))
        (by simp [hr, hne.symm])
      refine ⟨(threadId, .removes) :: request, by simp [hrequest], by simpa using hleft, fun hin => ?_⟩
      obtain ⟨b, hb, hbase⟩ := mem_map.1 hin
      rw [deleteEach_removes] at hb
      simpa [hbase] using deleteEach_subset _ _ hb
    · simp only [takeWhile_cons, heq, ne_eq, not_false_eq_true, decide_true, if_true, mem_cons, not_or] at hbefore
      obtain ⟨request, hrequest, hleft⟩ := exists_loses_base hne threadIds (rollouts.filter (·.threadId != threadId))
        (by simp [hr, hbefore.1]) ((mem_cons.1 hmem).resolve_left (Ne.symm heq)) hbefore.2
      exact ⟨(threadId, .removes) :: request, by simp [hrequest], by simpa using hleft⟩

/-- **No fork loses its base** to a request, whichever deletion fails, exactly if the request is refused or names every fork
before its base; a thread deleted alone is nobody's base, or refused, unless the index has missed a rollout of the fork. -/
theorem no_base_lost_iff (rollouts : List Rollout) :
    (∀ threadIds, (∀ request, request.map (·.1) = threadIds → ¬Dangles rollouts (deleteThreads rollouts request).2) ↔
      (blocked rollouts threadIds = none → ForksFirst threadIds rollouts)) ∧
    ∀ threadId, (∀ deletion, ¬Dangles rollouts (deleteThread rollouts threadId deletion).2) ↔
      (referenceCount (scan rollouts) threadId = 0 → ForksFirst [threadId] rollouts) := by
  have hsame : ¬Dangles rollouts rollouts := fun ⟨_, _, _, _, hbefore, hafter⟩ => hafter hbefore
  refine ⟨fun threadIds => ⟨fun h hblocked => ?_, ?_⟩, fun threadId => ⟨fun h hcount => ?_, fun h deletion => ?_⟩⟩
  · intro r hr base hbase hne hmem hids
    by_contra hbefore
    obtain ⟨request, rfl, hleft, hgone⟩ := exists_loses_base hne threadIds rollouts hr hids hbefore
    have hsafe := h request rfl
    rw [deleteThreads, hblocked] at hsafe
    exact hsafe ⟨r, hleft, base, hbase, hmem, hgone⟩
  · rintro h request rfl
    unfold deleteThreads
    split
    · exact hsame
    · next hblocked => exact deleteEach_safe request rollouts (h hblocked)
  · intro r hr base hbase hne hmem hids
    obtain rfl := mem_singleton.1 hids
    refine absurd ⟨r, ?_, base, hbase, hmem, ?_⟩ (h .removes)
    · simpa [deleteThread, hcount, deleteThreadAfterReferenceCheck] using ⟨hr, hne.symm⟩
    · simp [deleteThread, hcount, deleteThreadAfterReferenceCheck]
  · unfold deleteThread
    split
    · exact hsame
    · next hcount => exact not_dangles_step (h (by omega)) deletion

/-- **A base is deleted and the deletion of its fork fails**: the fork is left without the history it begins with. -/
theorem failed_fork_loses_base : deleteThreads [⟨['b'], none⟩, ⟨['f'], some ['b']⟩]
      [(['b'], .removes), (['f'], .fails fun _ => true)] = (.error .failed, [⟨['f'], some ['b']⟩]) ∧
    Dangles [⟨['b'], none⟩, ⟨['f'], some ['b']⟩] [⟨['f'], some ['b']⟩] :=
  ⟨rfl, ⟨['f'], some ['b']⟩, by simp, ['b'], rfl, by decide, by decide⟩

end Owc.ThreadStore
