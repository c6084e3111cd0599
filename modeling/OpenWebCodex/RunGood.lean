import OpenWebCodex.RunExec
/-!
# RunGood — every step keeps the invariant

`reap_expired`, the calls of clients, `run_cleanup_once` and the event projection; then all steps together (`step_good`)
and every run (`run_good`).
-/
namespace Owc.Orchestrator

open Option

section calls

variable {c : Prop} {s : State}

/-! ## `heartbeat_owned_runs` and `reap_expired` -/

theorem good_heartbeatOwned (h : Good c s) (self : RunOrchestrator) :
    Good c (s.setDb (heartbeatOwnedRuns self s.now s.db)) := by
  refine h.updateAll (fun _ => ⟨rfl, fun ht => ht⟩) fun id row hrow hg => ?_
  simp only [Bool.and_eq_true, beq_iff_eq] at hg
  obtain ⟨⟨ho, ht⟩, _⟩ := hg
  exact (h.row id row hrow).renew (by rw [ho]; rfl) ht _

theorem Good.reapWorkspaces (now : Nat) : ∀ (l : List (Uuid × Run)) {s : State}, Good c s →
    (∀ e ∈ l, s.db.runs.get e.1 = some e.2.reap) → Good c (s.setDb (l.foldl (reapWorkspace now) s.db))
  | [], _, h, _ => h
  | e :: l, s, h, hl => by
    have hrow := hl e List.mem_cons_self
    have hstep : Good c (s.setDb (reapWorkspace now s.db e)) ∧ (reapWorkspace now s.db e).runs = s.db.runs := by
      unfold reapWorkspace
      split
      · rename_i w hw ht
        refine ⟨h.queue hrow hw (fun _ => ⟨nofun, fun _ => ht, fun _ _ _ => nofun⟩) _ _ _, rfl⟩
      · exact ⟨h, rfl⟩
    have hrest : ∀ e' ∈ l, (s.setDb (reapWorkspace now s.db e)).db.runs.get e'.1 = some e'.2.reap := by
      intro e' he'
      change (reapWorkspace now s.db e).runs.get e'.1 = some e'.2.reap
      rw [hstep.2]
      exact hl e' (List.mem_cons_of_mem _ he')
    exact Good.reapWorkspaces now l hstep.1 hrest

theorem good_reap (h : Good c s) : Good c (s.setDb (reapExpired s.now s.db)) := by
  have hrows : Good c (s.setDb { s.db with runs := s.db.runs.updateAll (expired s.now) (·.reap) }) :=
    h.updateAll (fun _ => ⟨rfl, fun ht => ht⟩) fun id row hrow hx => (h.row id row hrow).reap hx
  refine hrows.reapWorkspaces s.now (s.db.runs.select (expired s.now)) fun e he => ?_
  obtain ⟨hrow, hx⟩ := Table.mem_select he
  change (s.db.runs.updateAll (expired s.now) (·.reap)).get e.1 = some e.2.reap
  rw [Table.get_updateAll, hrow]
  simp [hx]

/-! ## `cancel_run` -/

theorem requestedRun_ok (h : requestedRun request db = .ok row) : db.runs.get request.runId = some row := by
  unfold requestedRun at h
  split at h
  · cases h
  rename_i row' hrow
  split at h <;> cases h
  exact hrow

theorem cancelRun_ok (h : cancelRun request db = .ok (db', interrupt)) :
    ∃ row, db.runs.get request.runId = some row ∧ (interrupt → row.codexThreadId.isSome) ∧
      db' = ((db.updateRun request.runId (fun _ => true) (·.cancel)).setRunWorkspace row
        (fun workspace => workspace.state != .retired) .ready).setTask row.taskId .cancelled := by
  unfold cancelRun at h
  split at h
  · cases h
  rename_i row hreq
  split at h
  · cases h
  simp only [Except.ok.injEq, Prod.mk.injEq] at h
  refine ⟨row, requestedRun_ok hreq, fun hi => ?_, h.1.symm⟩
  rw [← h.2] at hi
  simp only [Bool.and_eq_true] at hi
  exact hi.1.1

theorem Good.cancelRow (h : Good c s) (id : Uuid) : Good c (s.setDb (s.db.updateRun id (fun _ => true) (·.cancel))) :=
  h.updateRun (fun _ => ⟨rfl, fun ht => ht⟩) fun row hrow _ => (h.row _ row hrow).cancel

theorem Good.cancelled (h : Good c s)
    (hc : cancelRun request s.db = .ok (db, interrupt)) : Good c (s.setDb db) ∧ (interrupt → HasThread db request.runId) := by
  obtain ⟨row, hrow, hthread, rfl⟩ := cancelRun_ok hc
  have hrun := h.cancelRow request.runId
  have hkeep : ((s.db.updateRun request.runId (fun _ => true) (·.cancel)).setRunWorkspace row
      (fun workspace => workspace.state != .retired) .ready).runs =
      (s.db.updateRun request.runId (fun _ => true) (·.cancel)).runs := by
    unfold Db.setRunWorkspace
    cases row.workspaceId <;> rfl
  refine ⟨(hrun.setRunWorkspace row _ .ready nofun).setTask _ _, fun hi => ?_⟩
  refine ⟨row.cancel, ?_, hthread hi⟩
  refine (congrArg (fun runs => Table.get runs request.runId) hkeep).trans ?_
  simp only [get_updateRun, hrow, map_some, and_self, if_true]

theorem good_cancel (h : Good c s) (request : CancelRunRequest) (call : Uuid) : Good c (stepCancel s request call) := by
  unfold stepCancel
  split
  · exact h
  · rename_i db hc
    exact (h.cancelled hc).1.addCall ((h.cancelled hc).2 rfl)
  · rename_i db hc
    exact (h.cancelled hc).1

theorem Fits.reopen (h : Fits c jobs row exec) (hs : row.status = .cancelled) (ht : row.codexThreadId.isSome)
    (hd : c → ∀ w, row.workspaceId = some w → ¬ (jobs.get w).isSome) : Fits c jobs row.reopen exec := by
  have hnone : row.codexThreadId ≠ none := fun hn => by rw [hn] at ht; cases ht
  refine Fits.settled ⟨nofun, nofun, nofun⟩ (h.lease.null (by rw [hs]; simp)) ?_ ?_ ?_
  · exact fun he => absurd (h.idle he).1 hnone
  · exact fun e he hw => absurd (h.works e he hw).thread hnone
  · exact fun hc w hw hj _ => absurd hj (hd hc w hw)

theorem interruptFailed_ok {id} (h : interruptFailed id db = .ok db') :
    db' = db.updateRun id (fun row => row.status == .cancelled) (·.reopen) := by
  unfold interruptFailed at h
  split at h <;> cases h
  rfl

variable {t : State} {call : Uuid} {k : Call}

theorem good_interruptReturned (h : Good c s)
    (hk : s.calls.get call = some k) (ho : c → orderly s (.interruptReturned call delivered))
    (hs : stepInterruptReturned s call delivered k = some t) : Good c t := by
  unfold stepInterruptReturned at hs
  split at hs
  · rename_i id
    cases hs
    obtain ⟨row, hrow, ht⟩ := h.call call _ hk
    cases delivered with
    | true => exact h.endCall call
    | false =>
      refine h.commit fun db hdb => ?_
      rw [interruptFailed_ok hdb]
      refine h.updateRun (fun _ => ⟨rfl, fun ht => ht⟩) fun row' hrow' hg => ?_
      cases hrow.symm.trans hrow'
      have hst : row.status = .cancelled := by simpa using hg
      refine (h.row id row hrow).reopen hst ht fun hc w hw hj => ?_
      have hq := deletionQueued_iff.2 ⟨w, hw, hj⟩
      have hh : s.db.runs.holds id (fun row => row.status == .cancelled && deletionQueued s.db row) :=
        Table.holds_iff.2 ⟨row, hrow, by simp [hst, hq]⟩
      have := ho hc
      simp [orderly, hk, hh] at this
  · cases hs

/-! ## `retire_workspace` and `recover_run` -/

theorem retirable_ok (h : retirable request expected db = .ok (row, w, ws)) :
    db.runs.get request.runId = some row ∧ row.workspaceId = some w := by
  unfold retirable at h
  split at h
  · cases h
  rename_i row' hreq
  split at h
  · cases h
  rename_i w' hw
  split at h
  · cases h
  split at h
  · cases h
  split at h <;> cases h
  exact ⟨requestedRun_ok hreq, hw⟩

/-- **A workspace is retired**: its run is cancelled in the same transaction. -/
theorem Good.retire (h : Good c s)
    (hr : retireWorkspace request w now s.db = .ok db) : Good c (s.setDb db) := by
  unfold retireWorkspace at hr
  split at hr
  · cases hr
  rename_i row w' ws hok
  obtain ⟨hrow, hw⟩ := retirable_ok hok
  split at hr
  · cases hr; exact h
  cases hr
  have hrun := h.cancelRow request.runId
  have hrow' : (s.db.updateRun request.runId (fun _ => true) (·.cancel)).runs.get request.runId = some row.cancel := by
    simp only [get_updateRun, hrow, map_some, and_self, if_true]
  exact (hrun.setTask row.taskId .archived).queue hrow' hw (fun _ => ⟨nofun, nofun, fun _ _ _ => nofun⟩) _ _ _

theorem good_retire (h : Good c s) (request : RetireWorkspaceRequest) (interrupted : Bool) (call : Uuid) :
    Good c (stepRetire s request interrupted call) := by
  unfold stepRetire
  split
  · exact h
  split
  · exact h
  · split
    · exact h
    · exact h.addCall trivial

theorem good_retireCommit (h : Good c s) (hs : stepRetireCommit s call k = some t) : Good c t := by
  unfold stepRetireCommit at hs
  split at hs <;> cases hs
  exact h.commit fun db hdb => h.retire hdb

variable {self : RunOrchestrator}

theorem recoverable_ok (h : recoverable self request db = .ok (some w)) :
    ∃ row, db.runs.get request.runId = some row ∧ row.status = .recoveryPending ∧ row.codexThreadId.isSome ∧
      row.workspaceId = some w := by
  unfold recoverable at h
  split at h
  · cases h
  rename_i row hreq
  split at h
  · cases h
  rename_i w' hw
  split at h
  · split at h
    · cases h
    rename_i hbad
    split at h
    · cases h
    split at h
    · rename_i hst
      cases h
      exact ⟨row, requestedRun_ok hreq, hst, isSome_iff_ne_none.2 fun ht => hbad (.inr (.inr (.inr ht))), hw⟩
    · cases h
  · cases h

/-- **A recovered run** was recoverable, so its worker has stopped and its workspace is not queued for deletion. -/
theorem Fits.recover (h : Fits c jobs row exec)
    (hs : row.status = .recoveryPending) (ht : row.codexThreadId.isSome) (hw : row.workspaceId.isSome) (owner : Str)
    (token : Uuid) (expiresAt : Nat) : Fits c jobs (row.recover owner token expiresAt) exec := by
  have hnone : row.codexThreadId ≠ none := fun hn => by rw [hn] at ht; cases ht
  cases he : exec with
  | none => exact absurd (h.idle he).1 hnone
  | some e =>
    refine Fits.runs rfl ⟨rfl, rfl, rfl⟩ ht hw ?_ ?_
    · cases hwork : e.phase.isWorking with
      | false => rfl
      | true => exact absurd (h.works e he hwork).thread hnone
    · exact fun hc w hw' hj => hnone ((h.doomed hc w hw' hj).recovery hs)

theorem recoverRun_ok {id} (h : recoverRun self id w token now db = .ok db') :
    ∃ row, db.runs.get id = some row ∧ db' = ((db.updateRun id (fun row => row.status == .recoveryPending)
      (·.recover self.workerId token (now + self.leaseTtl))).setWorkspace w
        (fun workspace => workspace.state != .retired) .busy).setTask row.taskId .running := by
  unfold recoverRun at h
  split at h
  · cases h
  rename_i row hrow
  split at h <;> cases h
  exact ⟨row, hrow, rfl⟩

section

variable (h : Good c s)
include h

theorem good_recover (self : RunOrchestrator) (request : RecoverRunRequest) (call : Uuid) :
    Good c (stepRecover s self request call) := by
  unfold stepRecover
  split
  · rename_i w hok
    obtain ⟨row, hrow, _, ht, hw⟩ := recoverable_ok hok
    exact h.addCall ⟨⟨row, hrow, ht⟩, row, hrow, hw⟩
  · exact h

theorem good_recoverCommit (hk : s.calls.get call = some k)
    (hs : stepRecoverCommit s call token k = some t) : Good c t := by
  unfold stepRecoverCommit at hs
  split at hs
  · rename_i self id w
    cases hs
    obtain ⟨⟨row, hrow, ht⟩, row', hrow', hw⟩ := h.call call _ hk
    cases hrow.symm.trans hrow'
    refine h.commit (fun db hdb => ?_)
    obtain ⟨_, _, rfl⟩ := recoverRun_ok hdb
    have hrun : Good c (s.setDb (s.db.updateRun id (fun row => row.status == .recoveryPending)
        (·.recover self.workerId token (s.now + self.leaseTtl)))) := by
      refine h.updateRun (fun _ => ⟨rfl, fun ht => ht⟩) fun row' hrow' hg => ?_
      cases hrow.symm.trans hrow'
      exact (h.row id row hrow).recover (by simpa using hg) ht (by rw [hw]; rfl) _ _ _
    exact (hrun.setWorkspace w (fun workspace => workspace.state != .retired) .busy nofun).setTask _ _
  · cases hs

/-! ## `run_cleanup_once` -/

theorem good_claimCleanup (hs : stepClaimCleanup s self w token call = some t) : Good c t := by
  obtain ⟨db, hdb, rfl⟩ := map_eq_some_iff.1 hs
  unfold claimCleanup at hdb
  split at hdb
  · cases hdb
  rename_i job hjob
  have hsome : (s.db.jobs.get w).isSome := by rw [hjob]; rfl
  split at hdb <;> cases hdb
  refine (h.putJob _ (h.job w hsome) fun hc id row hrow hw => ?_).addCall ?_
  · exact (h.row id row hrow).doomed hc w hw hsome
  · exact Table.isSome_get_put _ hsome

theorem good_removeWorkspace (hk : s.calls.get call = some k)
    (hs : stepRemoveWorkspace s call outcome k = some t) : Good c t := by
  unfold stepRemoveWorkspace at hs
  split at hs
  · rename_i w token
    cases hs
    have hjob : (s.db.jobs.get w).isSome := h.call call _ hk
    refine (h.removal (.inl hjob) outcome).addCall ?_
    rw [removal_db]
    split <;> exact hjob
  · cases hs

theorem good_finishCleanup (hk : s.calls.get call = some k) (hs : stepFinishCleanup s call k = some t) : Good c t := by
  unfold stepFinishCleanup at hs
  split at hs
  · rename_i w token
    cases hs
    refine h.commit fun db hdb => ?_
    cases hdb
    have hjob : (s.db.jobs.get w).isSome := h.call call _ hk
    have hretired : Good c (s.setDb (s.db.setWorkspace w (fun _ => true) .retired)) := h.setWorkspace w _ _ fun _ => hjob
    exact hretired.updateJob
  · cases hs
    refine h.commit fun db hdb => ?_
    cases hdb
    exact h.updateJob
  · cases hs

/-! ## The event projection and the turn handlers -/

theorem Good.setActive (id : Uuid) (p : Run → Bool) (turnId : Option Str) :
    Good c (s.setDb (s.db.updateRun id p (fun row => { row with activeTurnId := turnId }))) :=
  h.updateRun (fun _ => ⟨rfl, fun ht => ht⟩) fun row hrow _ => (h.row id row hrow).turn turnId

theorem Good.updateTask (id : Uuid) (p : Task → Bool) (f : Task → Task) :
    Good c (s.setDb { s.db with tasks := s.db.tasks.updateWhere id p f }) :=
  { h with call := h.calls_later (later_of_runs rfl fun _ hj => hj) }

theorem Good.endRun (id : Uuid) (hst : status = .completed ∨ status = .failed) (taskStatus : TaskStatus) :
    Good c (s.setDb (endRun id status taskStatus s.db)) := by
  unfold Orchestrator.endRun
  split
  · exact h
  rename_i row hrow
  split
  · have hrun : Good c (s.setDb (s.db.updateRun id isRunning (·.finish status))) := by
      refine h.updateRun (fun _ => ⟨rfl, fun ht => ht⟩) fun row' hrow' hg => ?_
      exact (h.row id row' hrow').finish (by simpa [isRunning] using hg) hst
    exact (hrun.setRunWorkspace row (fun _ => true) .ready nofun).updateTask _ _ _
  · exact h

theorem good_persist (id : Uuid) (event : RuntimeEvent) : Good c (s.setDb (persistEvent id event s.db)) := by
  cases event with
  | turnStarted turnId => exact h.setActive id _ turnId
  | turnCompleted turnId =>
    cases turnId with
    | none => exact h
    | some => exact h.setActive id _ none
  | threadArchived | threadUnarchived =>
    unfold persistEvent
    dsimp only
    split
    · exact h
    · exact h.updateTask _ _ _
  | threadCompleted => exact h.endRun id (.inl rfl) _
  | threadFailed => exact h.endRun id (.inr rfl) _

theorem good_turnReturned (hs : stepTurnReturned s call turnId k = some t) : Good c t := by
  unfold stepTurnReturned at hs
  split at hs
  · split at hs <;> cases hs
    · exact h.addCall trivial
    · exact h.endCall call
  · cases hs

theorem good_setActiveTurn (hs : stepSetActiveTurn s call k = some t) : Good c t := by
  unfold stepSetActiveTurn at hs
  split at hs <;> cases hs
  refine h.commit fun db hdb => ?_
  cases hdb
  exact h.setActive _ _ _

theorem good_clearActiveTurn (hs : stepClearActiveTurn s call k = some t) : Good c t := by
  unfold stepClearActiveTurn at hs
  split at hs <;> cases hs
  refine h.commit fun db hdb => ?_
  cases hdb
  exact h.setActive _ _ _

end

/-! ## Every step, every run -/

theorem of_bind {α : Type} {o} {f : α → Option State} {P : Prop} (hs : o.bind f = some t)
    (h : ∀ a, o = some a → f a = some t → P) : P := by
  obtain ⟨a, ha, hs⟩ := bind_eq_some_iff.1 hs
  exact h a ha hs

theorem opening_some (h : opening s call t = some u) : u = t := by
  unfold opening at h
  split at h <;> cases h
  rfl

theorem claimNext_some {id} (h : claimNext self db now id token = some (db', lease)) :
    ∃ row, db.runs.get id = some row ∧ row.status = .pending ∧ lease.runId = id ∧ lease.token = token ∧
      db' = db.updateRun id (fun _ => true) (·.claim self.workerId token (now + self.leaseTtl)) := by
  unfold claimNext at h
  split at h
  · cases h
  rename_i row hrow
  split at h
  · cases h
  rename_i project hp
  cases h
  refine ⟨row, hrow, ?_, rfl, rfl, rfl⟩
  obtain ⟨task, _, hp⟩ := bind_eq_some_iff.1 hp
  obtain ⟨project', _, hp⟩ := bind_eq_some_iff.1 hp
  obtain ⟨profile, _, hp⟩ := bind_eq_some_iff.1 hp
  split at hp
  · rename_i hg
    simp only [Bool.and_eq_true, beq_iff_eq] at hg
    exact hg.1.1.1.1.1
  · cases hp

/-- **Every orderly step keeps the invariant**, and every step keeps what it says without its clause on cleanup jobs. -/
theorem step_good (h : Good c s) (a : Action) (ho : c → orderly s a) (hs : step s a = some t) : Good c t := by
  cases a with
  | tick => cases hs; exact h.tick _
  | enqueueRun =>
    simp only [step] at hs
    split at hs
    · cases hs; exact h
    · rw [opening_some hs]; exact h.addCall trivial
  | insertRun => exact of_bind hs fun _ _ => good_insert h
  | claimNext self =>
    obtain ⟨⟨_, _⟩, hc, rfl⟩ := map_eq_some_iff.1 hs
    obtain ⟨_, hrow, hp, hid, rfl, rfl⟩ := claimNext_some hc
    exact h.claim hrow hp self hid _
  | heartbeat => exact of_bind hs fun _ he => good_heartbeat h he
  | provision => exact of_bind hs fun _ he => good_provision h he
  | checkOwned => exact of_bind hs fun _ he => good_checkOwned h he
  | recordWorkspace => exact of_bind hs fun _ he => good_recordWorkspace h he
  | discard => exact of_bind hs fun _ he => good_discard h he
  | startThread => exact of_bind hs fun _ he => good_startThread h he
  | queueCleanup => exact of_bind hs fun _ he => good_queueCleanup h he
  | markRunning => exact of_bind hs fun _ he => good_markRunning h he
  | recordDeliveryUncertainty => exact of_bind hs fun _ he => good_uncertainty h he ho
  | failLease => exact of_bind hs fun _ he => good_failLease h he
  | heartbeatOwnedRuns self => cases hs; exact good_heartbeatOwned h self
  | reapExpired => cases hs; exact good_reap h
  | cancelRun request call => rw [opening_some hs]; exact good_cancel h request call
  | interruptReturned => exact of_bind hs fun _ hk => good_interruptReturned h hk ho
  | retireWorkspace request interrupted call => rw [opening_some hs]; exact good_retire h request interrupted call
  | retireCommit => exact of_bind hs fun _ _ => good_retireCommit h
  | recoverRun self request call => rw [opening_some hs]; exact good_recover h self request call
  | recoverCommit => exact of_bind hs fun _ hk => good_recoverCommit h hk
  | claimCleanup =>
    obtain ⟨u, hu, hs⟩ := bind_eq_some_iff.1 hs
    rw [opening_some hs]
    exact good_claimCleanup h hu
  | removeWorkspace => exact of_bind hs fun _ hk => good_removeWorkspace h hk
  | finishCleanup => exact of_bind hs fun _ hk => good_finishCleanup h hk
  | persistFrame thread id event =>
    simp only [step] at hs
    split at hs <;> cases hs
    exact good_persist h id event
  | sendMessage | startReview | interruptRun =>
    simp only [step] at hs
    split at hs
    · rw [opening_some hs]; exact h.addCall trivial
    · cases hs; exact h
  | turnReturned => exact of_bind hs fun _ _ => good_turnReturned h
  | setActiveTurn => exact of_bind hs fun _ _ => good_setActiveTurn h
  | clearActiveTurn => exact of_bind hs fun _ _ => good_clearActiveTurn h

theorem run_good (h₀ : Fresh s₀) (h : Transition.run step s₀ as = some s) : Good False s :=
  Transition.run_invariant_of_step (fun _ a _ hg hs => step_good hg a False.elim hs) h₀.good h

theorem run_good_of_orderly (h₀ : Fresh s₀)
    (ho : Transition.Meets step (fun s a => orderly s a) s₀ as) (h : Transition.run step s₀ as = some s) : Good True s :=
  Transition.run_invariant (fun _ a _ hg hc hs => step_good hg a (fun _ => hc) hs) h₀.good ho h

end calls

end Owc.Orchestrator
