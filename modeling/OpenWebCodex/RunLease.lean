import OpenWebCodex.RunGood
/-!
# RunLease — the lease columns, and what a lost lease can still write

In every state of every run the lease columns are set exactly while a run is provisioning or running, and a running run
has its thread and its workspace.  A worker whose token is no longer the stored one changes nothing with its heartbeat,
its ownership check or its running transition; the writes of `record_workspace` come after that check and carry no
guard, so they do (`lease_fenced_iff`).
-/
namespace Owc.Orchestrator

open Option

/-- The steps with which the worker of run `id` presents its lease. -/
def presentsLease (id : Uuid) : Action → Prop
  | .heartbeat j => j = id
  | .checkOwned j => j = id
  | .recordWorkspace j => j = id
  | .markRunning j => j = id
  | _ => False

/-- The worker of run `id` holds another token than the row. -/
def Stale (s : State) (id : Uuid) : Prop :=
  ∀ e row, s.execs.get id = some e → s.db.runs.get id = some row → row.leaseToken ≠ some e.lease.token

theorem Stale.not_heldBy {id e} (h : Stale s id) (he : s.execs.get id = some e)
    (hrow : s.db.runs.get id = some row) (owner : Str) : row.heldBy owner e.lease.token = false := by
  unfold Run.heldBy
  simp [h e row he hrow]

section fencing

variable {c : Prop} {s : State}

section

variable (h : Good c s) {id : Uuid}
include h

theorem Good.heartbeat_stale {e} (hstale : Stale s id) (he : s.execs.get id = some e) (now : Nat) :
    heartbeat e.self e.lease now s.db = .error .leaseLost := by
  have hno : s.db.runs.holds e.lease.runId (heartbeatGuard e.self e.lease) = false := by
    refine Bool.eq_false_iff.2 fun hh => ?_
    obtain ⟨_, hrow, hg⟩ := Table.holds_iff.1 hh
    rw [(h.exec id e he).1] at hrow
    simp [heartbeatGuard, hstale.not_heldBy he hrow] at hg
  simp [heartbeat, hno]

theorem Good.markRunning_stale {e} (hstale : Stale s id) (he : s.execs.get id = some e) (thread : Str) (now : Nat) :
    markRunning e.self e.lease thread now s.db = none := by
  refine eq_none_iff_forall_ne_some.2 fun _ hm => ?_
  obtain ⟨_, hrow, hp, _⟩ := markRunning_some hm
  rw [(h.exec id e he).1] at hrow
  simp [provisionedBy, hstale.not_heldBy he hrow] at hp

theorem Good.recordWorkspace_isOk {e} (he : s.execs.get id = some e) (hp : e.phase = .owned w) :
    ∃ db, recordWorkspace e.lease w s.db = .ok db ∧ (db.workspaces.get w).isSome := by
  obtain ⟨row, hrow, hworks, _⟩ := h.worked he (by rw [hp]; rfl)
  obtain ⟨hnone, _, _⟩ := h.unrecorded id e w he (by rw [hp]; rfl)
  have hid := (h.exec id e he).1
  have hapart : s.db.workspaces.anyRow (fun _ row => row.runId == e.lease.runId) = false := by
    refine Bool.eq_false_iff.2 fun hany => ?_
    obtain ⟨w', ws, hws, hrun⟩ := Table.anyRow_iff.1 hany
    obtain ⟨_, hrow', hw'⟩ := h.owner w' ws hws
    rw [show ws.runId = id from (beq_iff_eq.1 hrun).trans hid] at hrow'
    cases hrow.symm.trans hrow'
    rw [hworks.workspace, hp] at hw'
    cases hw'
  exact ⟨_, by simp [recordWorkspace, hnone, hapart]; rfl, by simp⟩

theorem Good.stale_keeps_iff (ha : presentsLease id a) (hstale : Stale s id)
    (hs : step s a = some t) : t.db = s.db ↔ a ≠ .recordWorkspace id := by
  cases a with
  | heartbeat j =>
    obtain rfl : j = id := ha
    refine iff_of_true ?_ nofun
    obtain ⟨e, he, hs⟩ := bind_eq_some_iff.1 hs
    have hlost := h.heartbeat_stale hstale he s.now
    unfold stepHeartbeat at hs
    split at hs <;> cases hs
    all_goals
      simp only [renewLease, hlost]
      rfl
  | checkOwned j =>
    obtain rfl : j = id := ha
    refine iff_of_true ?_ nofun
    obtain ⟨e, he, hs⟩ := bind_eq_some_iff.1 hs
    unfold stepCheckOwned at hs
    split at hs <;> cases hs
    rfl
  | markRunning j =>
    obtain rfl : j = id := ha
    refine iff_of_true ?_ nofun
    obtain ⟨e, he, hs⟩ := bind_eq_some_iff.1 hs
    unfold stepMarkRunning at hs
    split at hs
    · rename_i w thread hp
      rw [h.markRunning_stale hstale he] at hs
      cases hs
      rfl
    · cases hs
  | recordWorkspace j =>
    obtain rfl : j = id := ha
    refine iff_of_false (fun hdb => ?_) fun hne => hne rfl
    obtain ⟨e, he, hs⟩ := bind_eq_some_iff.1 hs
    unfold stepRecordWorkspace at hs
    split at hs
    · rename_i w hp
      obtain ⟨db, hok, hsome⟩ := h.recordWorkspace_isOk he hp
      obtain ⟨hnone, _, _⟩ := h.unrecorded j e w he (by rw [hp]; rfl)
      rw [hok] at hs
      cases hs
      change db = s.db at hdb
      rw [hdb, hnone] at hsome
      cases hsome
    · cases hs
  | _ => exact ha.elim

theorem Good.uncertainty_keeps_status (hs : step s (.recordDeliveryUncertainty id) = some t) (j : Uuid) :
    (t.db.runs.get j).map (·.status) = (s.db.runs.get j).map (·.status) := by
  obtain ⟨e, he, hs⟩ := bind_eq_some_iff.1 hs
  have hid := (h.exec id e he).1
  unfold stepUncertainty at hs
  split at hs
  · rename_i w thread hp
    obtain ⟨row, hrow, hworks, _⟩ := h.worked he (by rw [hp]; rfl)
    split at hs
    · rename_i db hok
      cases hs
      rw [recordDeliveryUncertainty_ok hok]
      change ((s.db.updateRun e.lease.runId (fun row => row.workspaceId == some w) (·.unsure thread)).runs.get j).map _ = _
      rw [get_updateRun, hid, map_map]
      by_cases hj : j = id
      · subst hj
        have hst : (row.unsure thread).status = row.status := by
          obtain hst | hst | ⟨_, _, hns⟩ := hworks.status
          · simp [Run.unsure, hst]
          · simp [Run.unsure, hst]
          · simp [hp, Phase.isUnsure] at hns
        simp only [hrow, map_some, Function.comp_apply, true_and, apply_ite Run.status, hst, ite_self]
      · simp [hj, Function.comp_def]
    · cases hs
      rfl
  · cases hs

end

end fencing

/-- **Leases, in every state of every run.**  Owner, token and expiry are set exactly while a run is provisioning or
running; a running run has a thread and a workspace; a worker that presents a token other than the stored one changes
nothing, unless the step is the unguarded write of `record_workspace`; and recording an uncertain delivery moves no run
to another status. -/
theorem lease_fenced_iff {s₀ s : State} (h₀ : Fresh s₀) {as : List Action} (h : Transition.run step s₀ as = some s) :
    (∀ id row, s.db.runs.get id = some row →
      row.LeaseOk ∧ (row.status = .running → row.codexThreadId.isSome ∧ row.workspaceId.isSome)) ∧
    (∀ id a t, presentsLease id a → Stale s id → step s a = some t → (t.db = s.db ↔ a ≠ .recordWorkspace id)) ∧
    ∀ id t, step s (.recordDeliveryUncertainty id) = some t →
      ∀ j, (t.db.runs.get j).map (·.status) = (s.db.runs.get j).map (·.status) := by
  have hg := run_good h₀ h
  refine ⟨fun id row hrow => ⟨(hg.row id row hrow).lease, (hg.row id row hrow).running⟩, ?_, ?_⟩
  · exact fun id a t ha hstale hs => hg.stale_keeps_iff ha hstale hs
  · exact fun id t hs => hg.uncertainty_keeps_status hs

def reapedBeforeRecord : List Action := ownedRun ++ [.tick 31, .reapExpired]

/-- The worker's token is not the stored one, and its next step gives the run a workspace. -/
theorem lost_lease_records : Fresh sampleState ∧ (Transition.run step sampleState reapedBeforeRecord).any (fun s =>
      s.db.runs.holds 0 (fun row => row.status == .recoveryPending && row.leaseToken.isNone && row.workspaceId.isNone) &&
      (step s (.recordWorkspace 0)).any (fun t => t.db.runs.holds 0 (fun row => row.workspaceId.isSome))) = true :=
  ⟨sampleState_fresh, by decide⟩

theorem lease_fenced_iff_reaped : ∃ s, Transition.run step sampleState reapedBeforeRecord = some s ∧ Stale s 0 ∧
    ∀ t, step s (.recordWorkspace 0) = some t → t.db ≠ s.db := by
  obtain ⟨s, hs⟩ := isSome_iff_exists.1 (show (Transition.run step sampleState reapedBeforeRecord).isSome by decide)
  have hnone : (Transition.run step sampleState reapedBeforeRecord).all
      (fun s => s.db.runs.holds 0 fun row => row.leaseToken.isNone) = true := by decide
  rw [hs] at hnone
  have hstale : Stale s 0 := by
    intro e row _ hrow htoken
    obtain ⟨_, hrow', hn⟩ := Table.holds_iff.1 hnone
    cases hrow.symm.trans hrow'
    rw [htoken] at hn
    cases hn
  refine ⟨s, hs, hstale, fun t ht hdb => ?_⟩
  exact ((lease_fenced_iff sampleState_fresh hs).2.1 0 (.recordWorkspace 0) t rfl hstale ht).1 hdb rfl

end Owc.Orchestrator
