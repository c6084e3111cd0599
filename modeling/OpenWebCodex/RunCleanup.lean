import OpenWebCodex.RunGood
/-!
# RunCleanup — a running run keeps its checkout

A run is stranded when it is running on a workspace that is retired, gone from disk or queued for deletion.  In a run of
orderly steps none is (`run_not_stranded`).  Both steps that `orderly` restricts can strand one: a lease that expires
while the thread is being started queues the workspace for deletion and the late worker makes the run recoverable, and a
failed interrupt makes a run recoverable that `retire_workspace` cancelled meanwhile.
-/
namespace Owc.Orchestrator

open Transition

/-- Retired, removed from disk, or with a cleanup job that is pending or running. -/
def workspaceLost (s : State) (w : Uuid) : Bool :=
  (s.db.workspaces.get w).any (fun workspace => workspace.state == .retired) || !s.disk.contains w ||
    (s.db.jobs.get w).any (fun job => job.state == .pending || job.state == .running)

def stranded (s : State) (id : Uuid) : Bool :=
  s.db.runs.holds id (fun row => isRunning row && row.workspaceId.any (workspaceLost s))

theorem Good.not_lost {c : Prop} (h : Good c s)
    (hws : s.db.workspaces.get w = some ws) (hj : ¬ (s.db.jobs.get w).isSome) : workspaceLost s w = false := by
  have hret : ws.state ≠ .retired := fun hst => hj (h.retired w ws hws hst)
  have hdisk : w ∈ s.disk := not_not.1 fun hd => hj (h.removed w (by rw [hws]; rfl) hd)
  simp [workspaceLost, Option.not_isSome_iff_eq_none.1 hj, hws, hret, hdisk]

theorem Good.not_stranded (h : Good True s) (id : Uuid) : stranded s id = false := by
  refine Bool.eq_false_iff.2 fun hst => ?_
  obtain ⟨row, hrow, hst⟩ := Table.holds_iff.1 hst
  obtain ⟨hrun, hlost⟩ := Bool.and_eq_true_iff.1 hst
  obtain ⟨w, hw, hlost⟩ := (Option.any_eq_true _ _).1 hlost
  obtain ⟨_, hws, _⟩ := h.recorded id row w hrow hw
  have hstatus : row.status = .running := by simpa [isRunning] using hrun
  have hj : ¬ (s.db.jobs.get w).isSome := fun hj => ((h.row id row hrow).doomed trivial w hw hj).running hstatus
  rw [h.not_lost hws hj] at hlost
  cases hlost

/-- **No run is stranded where every step is orderly**, over any interleaving of any number of workers and clients: no
delivery is recorded as uncertain, and no interrupt fails, on a run whose workspace is already queued for deletion. -/
theorem run_not_stranded {s₀ s : State} (h₀ : Fresh s₀) {as : List Action}
    (ho : Transition.Meets step (fun s a => orderly s a = true) s₀ as) (h : run step s₀ as = some s)
    (id : Uuid) : stranded s id = false :=
  (run_good_of_orderly h₀ ho h).not_stranded id

/-- **`recover_run` asks nothing of the cleanup jobs**: a run it accepts is stranded where its workspace is queued for
deletion. -/
theorem recover_strands
    (hr : recoverable self request s.db = .ok (some w)) (hj : s.db.jobs.get w = some job)
    (hq : job.state = .pending ∨ job.state = .running) (hcall : s.calls.get call = none) (token : Uuid) :
    ∃ t, run step s [.recoverRun self request call, .recoverCommit call token] = some t ∧ stranded t request.runId := by
  obtain ⟨row, hrow, hst, _, hw⟩ := recoverable_ok hr
  have hopen : step s (.recoverRun self request call) = some (s.addCall call (.recovering self request.runId w)) := by
    simp [step, opening, hcall, stepRecover, hr]
  obtain ⟨t, ht, hruns, hjobs⟩ : ∃ t,
      step (s.addCall call (.recovering self request.runId w)) (.recoverCommit call token) = some t ∧
      t.db.runs = (s.db.updateRun request.runId (fun row => row.status == .recoveryPending)
        (·.recover self.workerId token (s.now + self.leaseTtl))).runs ∧ t.db.jobs = s.db.jobs := by
    simp [step, stepCall, State.addCall, stepRecoverCommit, recoverRun, hrow, hst, commit]
    exact ⟨rfl, rfl⟩
  refine ⟨t, by simp [run, hopen, ht], Table.holds_iff.2 ⟨row.recover self.workerId token (s.now + self.leaseTtl), ?_, ?_⟩⟩
  · rw [hruns, get_updateRun, hrow]
    simp [hst]
  · have hlost : workspaceLost t w := by
      unfold workspaceLost
      rw [hjobs, hj]
      obtain hq | hq := hq <;> simp [hq]
    have hws : (row.recover self.workerId token (s.now + self.leaseTtl)).workspaceId = some w := hw
    rw [hws, Option.any_some, hlost, Bool.and_true]
    rfl

/-! ## Sample runs -/

def recoveredRun : List Action :=
  recordedRun ++ [.startThread 0 (some "thread".toList), .markRunning 0, .tick 31, .reapExpired,
    .recoverRun sampleSelf sampleRequest 1, .recoverCommit 1 8]

theorem run_not_stranded_recovered : ∃ s, run step sampleState recoveredRun = some s ∧
    s.db.runs.holds 0 isRunning = true ∧ stranded s 0 = false := by
  obtain ⟨s, hs⟩ := Option.isSome_iff_exists.1 (show (run step sampleState recoveredRun).isSome by decide +kernel)
  have hrunning : (run step sampleState recoveredRun).all (fun s => s.db.runs.holds 0 isRunning) = true := by decide +kernel
  rw [hs] at hrunning
  exact ⟨s, hs, hrunning, run_not_stranded sampleState_fresh (meets_of_checks (by decide +kernel)) hs 0⟩

def lateThread : List Action :=
  recordedRun ++ [.tick 31, .reapExpired, .startThread 0 (some "thread".toList), .markRunning 0,
    .recordDeliveryUncertainty 0, .failLease 0, .recoverRun sampleSelf sampleRequest 1, .recoverCommit 1 8]

def lateInterrupt : List Action :=
  recordedRun ++ [.startThread 0 (some "thread".toList), .markRunning 0,
    .persistFrame "thread".toList 0 (.turnStarted (some "turn".toList)), .cancelRun sampleRequest 1,
    .retireWorkspace sampleRequest true 2, .retireCommit 2, .interruptReturned 1 false,
    .recoverRun sampleSelf sampleRequest 3, .recoverCommit 3 8]

/-- **Both reopenings strand a run**: it runs on a workspace with a pending cleanup job. -/
theorem late_reopening_strands : Fresh sampleState ∧ (run step sampleState lateThread).any (stranded · 0) = true ∧
    (run step sampleState lateInterrupt).any (stranded · 0) = true :=
  ⟨sampleState_fresh, by decide +kernel⟩

/-- **A workspace has one run and is given up only with a cleanup job**, over any interleaving; what an attempt has provisioned
is not recorded yet, and no other attempt has it. -/
theorem workspaces_owned (h₀ : Fresh s₀) (h : run step s₀ as = some s) (w : Uuid) :
    (∀ id id' row row', s.db.runs.get id = some row → s.db.runs.get id' = some row' → row.workspaceId = some w →
      row'.workspaceId = some w → id = id') ∧
    (∀ id id' e e', s.execs.get id = some e → s.execs.get id' = some e' → e.phase.unrecorded = some w →
      s.db.workspaces.get w = none ∧ (e'.phase.unrecorded = some w → id = id')) ∧
    ∀ ws, s.db.workspaces.get w = some ws → ws.state = .retired ∨ w ∉ s.disk → (s.db.jobs.get w).isSome := by
  have hgood := run_good h₀ h
  refine ⟨?_, ?_, ?_⟩
  · intro id id' row row' hrow hrow' hw hw'
    obtain ⟨ws, hws, rfl⟩ := hgood.recorded id row w hrow hw
    obtain ⟨_, hws', rfl⟩ := hgood.recorded id' row' w hrow' hw'
    cases hws.symm.trans hws'
    rfl
  · exact fun id id' e e' he he' hw => ⟨(hgood.unrecorded id e w he hw).1, hgood.apart id id' e e' w he he' hw⟩
  · exact fun ws hws => Or.rec (hgood.retired w ws hws) (hgood.removed w (hws ▸ rfl))

theorem workspaces_owned_recorded : ∃ s, run step sampleState recordedRun = some s ∧
    ∀ ws, s.db.workspaces.get 0 = some ws → ws.state = .retired ∨ 0 ∉ s.disk → (s.db.jobs.get 0).isSome := by
  obtain ⟨s, hs⟩ := Option.isSome_iff_exists.1 (show (run step sampleState recordedRun).isSome by decide)
  exact ⟨s, hs, (workspaces_owned sampleState_fresh hs 0).2.2⟩

end Owc.Orchestrator
