import OpenWebCodex.RunGood
/-!
# RunTurn — the active turn of a run

`active_turn_id` is written by the event projection, in the order of the runtime's stream, and by the handlers of
`send_message` and `start_review` once the runtime has named the turn.  Of all steps only these two can make a turn
active (`step_activeTurn`), so a completed turn becomes active again exactly where a handler's `UPDATE` for it comes
after its completion was projected (`completed_turn_inactive_iff`).
-/
namespace Owc.Orchestrator

open Transition
open Option

def Db.activeTurn (db : Db) (id : Uuid) : Option Str := (db.runs.get id).bind (·.activeTurnId)

def KeepsTurns (db db' : Db) : Prop := ∀ id turn, db'.activeTurn id = some turn → db.activeTurn id = some turn

variable {db db' : Db}

theorem KeepsTurns.of_runs (h : db'.runs = db.runs) : KeepsTurns db db' := by
  intro id turn ht
  unfold Db.activeTurn at ht ⊢
  rwa [h] at ht

theorem KeepsTurns.refl : KeepsTurns db db := fun _ _ ht => ht

theorem KeepsTurns.trans (h₁ : KeepsTurns db₁ db₂) (h₂ : KeepsTurns db₂ db₃) : KeepsTurns db₁ db₃ :=
  fun id turn ht => h₁ id turn (h₂ id turn ht)

/-- A rewriting of runs that leaves the active turn of each or clears it. -/
def QuietTurn (f : Run → Run) : Prop := ∀ row, (f row).activeTurnId = row.activeTurnId ∨ (f row).activeTurnId = none

theorem keepsTurns_mapRuns {db runs} {p : Uuid → Run → Prop} [∀ j, DecidablePred (p j)]
    {f : Run → Run} (hget : ∀ j, runs.get j = (db.runs.get j).map (fun row => if p j row then f row else row))
    (hf : QuietTurn f) : KeepsTurns db { db with runs := runs } := by
  intro id turn ht
  unfold Db.activeTurn at ht ⊢
  rw [hget, bind_map] at ht
  obtain ⟨row, hrow, ht⟩ := bind_eq_some_iff.1 ht
  refine bind_eq_some_iff.2 ⟨row, hrow, ?_⟩
  by_cases hp : p id row
  · rcases hf row with hq | hq <;> simp_all
  · simpa [hp] using ht

theorem keepsTurns_updateRun (db : Db) (id : Uuid) (p : Run → Bool) {f : Run → Run} (hf : QuietTurn f) :
    KeepsTurns db (db.updateRun id p f) :=
  keepsTurns_mapRuns (p := fun j row => j = id ∧ p row) (get_updateRun db id p f) hf

theorem keepsTurns_updateAll (db : Db) (p : Run → Bool) {f : Run → Run} (hf : QuietTurn f) :
    KeepsTurns db { db with runs := db.runs.updateAll p f } :=
  keepsTurns_mapRuns (p := fun _ row => p row) (fun j => Table.get_updateAll p f j db.runs) hf

theorem setRunWorkspace_runs (db : Db) (row : Run) (p : Workspace → Bool) (state : WorkspaceState) :
    (db.setRunWorkspace row p state).runs = db.runs := by
  unfold Db.setRunWorkspace
  cases row.workspaceId <;> rfl

/-! ## The transactions -/

theorem insertRun_keepsTurns {run id existing now}
    (h : insertRun db run id now = .ok (db', existing)) : KeepsTurns db db' := by
  unfold insertRun at h
  split at h
  · split at h <;> cases h
    exact .refl
  split at h
  · cases h
  cases h
  intro j turn ht
  change ((db.runs.put id (run.row now)).get j).bind _ = _ at ht
  rw [Table.get_put] at ht
  by_cases hj : j = id
  · rw [if_pos hj] at ht
    cases ht
  · rwa [if_neg hj] at ht

theorem cancelRun_keepsTurns (h : cancelRun request db = .ok (db', interrupt)) : KeepsTurns db db' := by
  obtain ⟨row, _, _, rfl⟩ := cancelRun_ok h
  exact (keepsTurns_updateRun db _ _ fun _ => .inr rfl).trans (.of_runs (setRunWorkspace_runs _ row _ _))

theorem retireWorkspace_keepsTurns (h : retireWorkspace request w now db = .ok db') : KeepsTurns db db' := by
  unfold retireWorkspace at h
  split at h
  · cases h
  split at h <;> cases h
  · exact .refl
  · exact (keepsTurns_updateRun db request.runId (fun _ => true) (f := (·.cancel)) fun _ => .inr rfl).trans (.of_runs rfl)

theorem reapWorkspaces_runs (now : Nat) : ∀ (l : List (Uuid × Run)) (db : Db), (l.foldl (reapWorkspace now) db).runs = db.runs
  | [], _ => rfl
  | e :: l, db => by
    rw [List.foldl_cons, reapWorkspaces_runs now l]
    unfold reapWorkspace
    split <;> rfl

theorem reapExpired_keepsTurns (now : Nat) (db : Db) : KeepsTurns db (reapExpired now db) :=
  (keepsTurns_updateAll db (expired now) (f := (·.reap)) fun _ => .inl rfl).trans (.of_runs (reapWorkspaces_runs now _ _))

theorem endRun_keepsTurns (id : Uuid) (status : RunStatus) (taskStatus : TaskStatus) (db : Db) :
    KeepsTurns db (endRun id status taskStatus db) := by
  unfold endRun
  split
  · exact .refl
  rename_i row _
  split
  · exact (keepsTurns_updateRun db id isRunning (f := (·.finish status)) fun _ => .inr rfl).trans
      (.of_runs (setRunWorkspace_runs _ row _ _))
  · exact .refl

theorem persistEvent_keepsTurns {id} (h : ∀ turnId, event ≠ .turnStarted turnId) (db : Db) :
    KeepsTurns db (persistEvent id event db) := by
  unfold persistEvent
  split
  · exact absurd rfl (h _)
  · exact .refl
  · exact keepsTurns_updateRun db _ _ fun _ => .inr rfl
  · split
    · exact .refl
    · exact .of_runs rfl
  · split
    · exact .refl
    · exact .of_runs rfl
  · exact endRun_keepsTurns _ _ _ db
  · exact endRun_keepsTurns _ _ _ db

theorem commit_keepsTurns
    (h : ∀ db, result = .ok db → KeepsTurns s.db db) : KeepsTurns s.db (commit s call result).db := by
  cases result with
  | error => exact .refl
  | ok db => exact h db rfl

/-! ## The steps -/

section steps

variable {s t : State} {id : Uuid} {e : Exec}

theorem renewLease_keepsTurns (s : State) (id : Uuid) (e : Exec) (next : Phase) :
    KeepsTurns s.db (renewLease s id e next).db := by
  unfold renewLease
  cases hb : heartbeat e.self e.lease s.now s.db with
  | error => exact .refl
  | ok =>
    rw [heartbeat_ok hb]
    exact keepsTurns_updateRun s.db _ _ (f := (·.renew _)) fun _ => .inl rfl

theorem stepHeartbeat_keepsTurns (hs : stepHeartbeat s id e = some t) : KeepsTurns s.db t.db := by
  unfold stepHeartbeat at hs
  split at hs <;> cases hs
  · exact renewLease_keepsTurns s id e _
  · exact renewLease_keepsTurns s id e _

theorem stepProvision_db (hs : stepProvision s id e outcome = some t) : t.db = s.db := by
  unfold stepProvision at hs
  split at hs
  · split at hs
    · cases outcome with
      | ready | failed => cases hs; rfl
      | branchFailed =>
        simp only at hs
        split at hs <;> cases hs
        rfl
    · cases hs; rfl
  · cases hs

theorem stepRecordWorkspace_keepsTurns (hs : stepRecordWorkspace s id e = some t) : KeepsTurns s.db t.db := by
  unfold stepRecordWorkspace at hs
  split at hs
  · rename_i w _
    split at hs
    · rename_i db hr
      cases hs
      obtain ⟨_, _, rfl⟩ := recordWorkspace_ok hr
      exact (keepsTurns_updateRun s.db e.lease.runId (fun _ => true) (f := (·.record w)) fun _ => .inl rfl).trans
        (.of_runs rfl)
    · cases hs; exact .refl
  · cases hs

theorem stepStartThread_db (hs : stepStartThread s id e thread = some t) : t.db = s.db := by
  unfold stepStartThread at hs
  split at hs
  · split at hs
    · cases thread with
      | _ => cases hs; rfl
    · cases hs; rfl
  · cases hs

theorem stepMarkRunning_keepsTurns (hs : stepMarkRunning s id e = some t) : KeepsTurns s.db t.db := by
  unfold stepMarkRunning at hs
  split at hs
  · split at hs
    · rename_i db hm
      cases hs
      obtain ⟨row, _, _, rfl⟩ := markRunning_some hm
      exact (keepsTurns_updateRun s.db _ _ (f := (·.start _ _)) fun _ => .inl rfl).trans
        (.of_runs (setRunWorkspace_runs _ row _ _))
    · cases hs; exact .refl
  · cases hs

theorem stepUncertainty_keepsTurns (hs : stepUncertainty s id e = some t) : KeepsTurns s.db t.db := by
  unfold stepUncertainty at hs
  split at hs
  · rename_i w thread _
    split at hs
    · rename_i db hr
      cases hs
      rw [recordDeliveryUncertainty_ok hr]
      exact (keepsTurns_updateRun s.db e.lease.runId (fun row => row.workspaceId == some w) (f := (·.unsure thread))
        (fun _ => .inl rfl)).trans (.of_runs rfl)
    · cases hs; exact .refl
  · cases hs

theorem stepCancel_keepsTurns (s : State) (request : CancelRunRequest) (call : Uuid) :
    KeepsTurns s.db (stepCancel s request call).db := by
  unfold stepCancel
  split
  · exact .refl
  · rename_i hc; exact cancelRun_keepsTurns hc
  · rename_i hc; exact cancelRun_keepsTurns hc

theorem recoverRun_keepsTurns (h : recoverRun self id w token now db = .ok db') : KeepsTurns db db' := by
  obtain ⟨row, _, rfl⟩ := recoverRun_ok h
  exact (keepsTurns_updateRun db id (fun row => row.status == .recoveryPending) (f := (·.recover self.workerId token _))
    (fun _ => .inr rfl)).trans (.of_runs rfl)

end steps

def startsTurn (id : Uuid) (turn : Str) : Action → Bool
  | .persistFrame _ j (.turnStarted turnId) => j == id && turnId == some turn
  | _ => false

def projectsTurn (id : Uuid) (turn : Str) (s : State) : Action → Bool
  | .setActiveTurn call =>
    match s.calls.get call with
    | some (.turnNamed organizationId runId turnId) => runId == id && turnId == turn &&
        s.db.runs.holds id (fun row => row.organizationId == organizationId && isRunning row)
    | _ => false
  | _ => false

theorem activeTurn_updateRun {db : Db} {id j : Uuid} {p : Run → Bool} {turnId : Option Str} {turn : Str}
    (h : (db.updateRun id p (fun row => { row with activeTurnId := turnId })).activeTurn j = some turn) :
    db.activeTurn j = some turn ∨ (j = id ∧ turnId = some turn ∧ db.runs.holds id p) := by
  unfold Db.activeTurn at h ⊢
  rw [get_updateRun, bind_map] at h
  obtain ⟨row, hrow, h⟩ := bind_eq_some_iff.1 h
  rw [Function.comp_apply] at h
  split at h
  · next hp => exact .inr ⟨hp.1, h, Table.holds_iff.2 ⟨row, hp.1 ▸ hrow, hp.2⟩⟩
  · exact .inl (bind_eq_some_iff.2 ⟨row, hrow, h⟩)

theorem step_keepsTurns {s t : State} {a : Action} (hs : step s a = some t) (hset : ∀ call, a ≠ .setActiveTurn call)
    (hstart : ∀ thread j turnId, a ≠ .persistFrame thread j (.turnStarted turnId)) : KeepsTurns s.db t.db := by
  cases a with
  | tick => cases hs; exact .refl
  | enqueueRun | sendMessage | startReview | interruptRun =>
    simp only [step] at hs
    split at hs
    all_goals first
      | cases hs; exact .refl
      | rw [opening_some hs]; exact .refl
  | insertRun call j =>
    obtain ⟨k, _, hs⟩ := bind_eq_some_iff.1 hs
    unfold stepInsert at hs
    split at hs
    · split at hs
      · cases hs
      cases hs
      refine commit_keepsTurns fun db hdb => ?_
      cases hi : insertRun s.db _ j s.now with
      | error => rw [hi] at hdb; cases hdb
      | ok => rw [hi] at hdb; cases hdb; exact insertRun_keepsTurns hi
    · cases hs
  | claimNext self j =>
    obtain ⟨⟨db, lease⟩, hc, rfl⟩ := map_eq_some_iff.1 hs
    obtain ⟨row, _, _, _, _, rfl⟩ := claimNext_some hc
    exact keepsTurns_updateRun s.db j _ (f := (·.claim _ _ _)) fun _ => .inl rfl
  | heartbeat => exact of_bind hs fun _ _ hs => stepHeartbeat_keepsTurns hs
  | provision => exact of_bind hs fun _ _ hs => .of_runs (congrArg Db.runs (stepProvision_db hs))
  | checkOwned | queueCleanup | finishCleanup | turnReturned =>
    obtain ⟨_, _, hs⟩ := bind_eq_some_iff.1 hs
    simp only [stepCheckOwned, stepQueueCleanup, stepFinishCleanup, stepTurnReturned] at hs
    repeat' split at hs
    all_goals cases hs <;> exact .refl
  | recordWorkspace => exact of_bind hs fun _ _ hs => stepRecordWorkspace_keepsTurns hs
  | discard j outcome =>
    obtain ⟨e, _, hs⟩ := bind_eq_some_iff.1 hs
    unfold stepDiscard at hs
    split at hs <;> cases hs
    exact .of_runs (congrArg Db.runs (removal_db s _ outcome))
  | startThread => exact of_bind hs fun _ _ hs => .of_runs (congrArg Db.runs (stepStartThread_db hs))
  | markRunning => exact of_bind hs fun _ _ hs => stepMarkRunning_keepsTurns hs
  | recordDeliveryUncertainty => exact of_bind hs fun _ _ hs => stepUncertainty_keepsTurns hs
  | failLease =>
    obtain ⟨e, _, hs⟩ := bind_eq_some_iff.1 hs
    unfold stepFailLease at hs
    split at hs <;> cases hs
    exact keepsTurns_updateRun s.db _ _ (f := (·.fail _)) fun _ => .inl rfl
  | heartbeatOwnedRuns =>
    cases hs
    exact keepsTurns_updateAll s.db _ (f := (·.renew _)) fun _ => .inl rfl
  | reapExpired => cases hs; exact reapExpired_keepsTurns s.now s.db
  | cancelRun request call =>
    rw [opening_some hs]
    exact stepCancel_keepsTurns s request call
  | interruptReturned call delivered =>
    obtain ⟨k, _, hs⟩ := bind_eq_some_iff.1 hs
    unfold stepInterruptReturned at hs
    split at hs <;> cases hs
    cases delivered with
    | true => exact .refl
    | false =>
      refine commit_keepsTurns fun db hdb => ?_
      rw [interruptFailed_ok hdb]
      exact keepsTurns_updateRun s.db _ _ (f := (·.reopen)) fun _ => .inl rfl
  | retireWorkspace | recoverRun =>
    rw [opening_some hs]
    simp only [stepRetire, stepRecover]
    repeat' split
    all_goals exact .refl
  | retireCommit =>
    obtain ⟨k, _, hs⟩ := bind_eq_some_iff.1 hs
    unfold stepRetireCommit at hs
    split at hs <;> cases hs
    exact commit_keepsTurns fun db hdb => retireWorkspace_keepsTurns hdb
  | recoverCommit =>
    obtain ⟨k, _, hs⟩ := bind_eq_some_iff.1 hs
    unfold stepRecoverCommit at hs
    split at hs <;> cases hs
    exact commit_keepsTurns fun db hdb => recoverRun_keepsTurns hdb
  | claimCleanup =>
    obtain ⟨u, hu, hs⟩ := bind_eq_some_iff.1 hs
    rw [opening_some hs]
    obtain ⟨db, hdb, rfl⟩ := map_eq_some_iff.1 hu
    unfold claimCleanup at hdb
    split at hdb
    · cases hdb
    · split at hdb <;> cases hdb
      exact .refl
  | removeWorkspace call outcome =>
    obtain ⟨k, _, hs⟩ := bind_eq_some_iff.1 hs
    unfold stepRemoveWorkspace at hs
    split at hs <;> cases hs
    exact .of_runs (congrArg Db.runs (removal_db s _ outcome))
  | persistFrame thread j event =>
    simp only [step] at hs
    split at hs <;> cases hs
    exact persistEvent_keepsTurns (fun turnId h => hstart thread j turnId (h ▸ rfl)) s.db
  | setActiveTurn call => exact absurd rfl (hset call)
  | clearActiveTurn =>
    obtain ⟨k, _, hs⟩ := bind_eq_some_iff.1 hs
    unfold stepClearActiveTurn at hs
    split at hs <;> cases hs
    exact keepsTurns_updateRun s.db _ _ fun _ => .inr rfl

/-- **Only two steps make a turn active**: the projection of its start, and a handler's `UPDATE`. -/
theorem step_activeTurn {s t : State} {a : Action} (hs : step s a = some t) {id : Uuid} {turn : Str}
    (ht : t.db.activeTurn id = some turn) :
    s.db.activeTurn id = some turn ∨ startsTurn id turn a ∨ projectsTurn id turn s a := by
  by_cases hset : ∃ call, a = .setActiveTurn call
  · obtain ⟨call, rfl⟩ := hset
    obtain ⟨k, hk, hs⟩ := bind_eq_some_iff.1 hs
    unfold stepSetActiveTurn at hs
    split at hs
    · cases hs
      obtain hold | ⟨rfl, hturn, hh⟩ := activeTurn_updateRun ht
      · exact .inl hold
      · cases hturn
        exact .inr (.inr (by simp only [projectsTurn, hk, hh, beq_self_eq_true, Bool.and_self]))
    · cases hs
  by_cases hstart : ∃ thread j turnId, a = .persistFrame thread j (.turnStarted turnId)
  · obtain ⟨thread, j, turnId, rfl⟩ := hstart
    simp only [step] at hs
    split at hs <;> cases hs
    obtain hold | ⟨hj, hturn, _⟩ := activeTurn_updateRun ht
    · exact .inl hold
    · exact .inr (.inl (by simp [startsTurn, hj, hturn]))
  · exact .inl (step_keepsTurns hs (not_exists.1 hset) (by simpa using hstart) id turn ht)

theorem step_projectsTurn {id} (h : projectsTurn id turn s a) :
    ∃ t, step s a = some t ∧ t.db.activeTurn id = some turn := by
  unfold projectsTurn at h
  split at h
  · rename_i call
    split at h
    · rename_i organizationId runId turnId hcall
      simp only [Bool.and_eq_true, beq_iff_eq] at h
      obtain ⟨⟨rfl, rfl⟩, hh⟩ := h
      obtain ⟨_, hrow, hp⟩ := Table.holds_iff.1 hh
      refine ⟨_, by rw [step, stepCall, hcall, bind_some, stepSetActiveTurn], ?_⟩
      change (setActiveTurn organizationId runId turnId s.db).activeTurn runId = _
      unfold setActiveTurn Db.activeTurn
      rw [get_updateRun, hrow, map_some, if_pos ⟨rfl, hp⟩]
      rfl
    · cases h
  · cases h

theorem completion_clears {id}
    (hs : step s (.persistFrame thread id (.turnCompleted (some turn))) = some t) : t.db.activeTurn id ≠ some turn := by
  intro ht
  simp only [step] at hs
  split at hs <;> cases hs
  change (Db.updateRun s.db id _ _).activeTurn id = _ at ht
  unfold Db.activeTurn at ht
  rw [get_updateRun] at ht
  obtain ⟨row, hrow, ht⟩ := bind_eq_some_iff.1 ht
  obtain ⟨old, _, rfl⟩ := map_eq_some_iff.1 hrow
  split at ht
  · cases ht
  · rename_i hold
    exact hold ⟨rfl, beq_iff_eq.2 ht⟩

/-- **When a completed turn stays inactive.**  The runtime's stream is taken to be in order, so no start of the turn is
projected after its completion.  From the state in which the completion of `turn` was projected, over any interleaving
of every other step, the run's active turn is never `turn` again exactly where no handler's `UPDATE` for it comes
late. -/
theorem completed_turn_inactive_iff {s t : State} {thread : Str} {id : Uuid} {turn : Str}
    (hs : step s (.persistFrame thread id (.turnCompleted (some turn))) = some t) {as : List Action}
    (hstream : Transition.Meets step (fun _ a => startsTurn id turn a = false) t as) :
    Transition.Always step (fun s => s.db.activeTurn id ≠ some turn) t as ↔
      Transition.Meets step (fun s a => ¬ projectsTurn id turn s a = true) t as := by
  refine always_iff_meets ?_ ?_ (completion_clears hs) hstream
  · intro s a t hold hstart hproj ha ht
    obtain h | h | h := step_activeTurn ha ht
    · exact hold h
    · rw [hstart] at h; cases h
    · exact hproj h
  · intro s a _ hproj
    obtain ⟨t, ht, hact⟩ := step_projectsTurn hproj
    exact ⟨t, ht, fun hne => hne hact⟩

/-! ## Sample runs -/

def messagedRun : List Action :=
  recordedRun ++ [.startThread 0 (some "thread".toList), .markRunning 0, .sendMessage 0 1 0 1,
    .turnReturned 1 "turn".toList, .persistFrame "thread".toList 0 (.turnStarted (some "turn".toList))]

def turnCompletion : Action := .persistFrame "thread".toList 0 (.turnCompleted (some "turn".toList))

/-- The handler's `UPDATE` comes before the completion; afterwards a second message is sent and its turn started. -/
theorem completed_turn_inactive_iff_early : ∃ s t,
    run step sampleState (messagedRun ++ [.setActiveTurn 1]) = some s ∧ step s turnCompletion = some t ∧
    Transition.Always step (fun s => s.db.activeTurn 0 ≠ some "turn".toList) t
      [.sendMessage 0 1 0 2, .turnReturned 2 "next".toList, .setActiveTurn 2] := by
  obtain ⟨s, hs⟩ := isSome_iff_exists.1
    (show (run step sampleState (messagedRun ++ [.setActiveTurn 1])).isSome by decide)
  have hall : (run step sampleState (messagedRun ++ [.setActiveTurn 1])).all (fun s =>
      (step s turnCompletion).any fun t =>
        checks step (fun s a => !startsTurn 0 "turn".toList a && !projectsTurn 0 "turn".toList s a) t
          [.sendMessage 0 1 0 2, .turnReturned 2 "next".toList, .setActiveTurn 2]) = true := by decide
  rw [hs, all_some] at hall
  cases ht : step s turnCompletion with
  | none => rw [ht] at hall; cases hall
  | some t =>
    rw [ht, any_some] at hall
    have hmeets := meets_of_checks hall
    refine ⟨s, t, hs, ht, (completed_turn_inactive_iff ht ?_).2 ?_⟩
    · exact hmeets.mono fun s a h => by simpa using (Bool.and_eq_true_iff.1 h).1
    · exact hmeets.mono fun s a h => by simpa using (Bool.and_eq_true_iff.1 h).2

/-- **A short turn overtakes its handler**: it is started and completed before the handler's `UPDATE`, which then makes
the finished turn the active one, and a review is refused. -/
theorem late_update_revives_turn : Fresh sampleState ∧
    (run step sampleState (messagedRun ++ [turnCompletion, .setActiveTurn 1])).any (fun s =>
      s.db.activeTurn 0 == some "turn".toList && (threadContext sampleRequest s.db).any (·.activeTurnId.isSome)) = true :=
  ⟨sampleState_fresh, by decide⟩

end Owc.Orchestrator
