import OpenWebCodex.RunRow
/-!
# RunExec — a worker's steps keep the invariant

`enqueue_run`, `claim_next` and every step of `execute_lease`, each a few writes one after another.
-/
namespace Owc.Orchestrator

open Table Option

/-! ## The steps of `enqueue_run` and `claim_next` -/

section steps

variable {c : Prop} {s : State}

variable {id : Uuid}

theorem Good.exec_none (h : Good c s) (hid : s.db.runs.get id = none) : s.execs.get id = none := by
  by_contra hne
  obtain ⟨e, he⟩ := ne_none_iff_exists'.1 hne
  simpa [hid] using (h.exec id e he).2

theorem NewRun.fits (run : NewRun) (now : Nat) (jobs : Table Uuid Job) : Fits c jobs (run.row now) none where
  lease := Run.LeaseOk.of_null (by rintro (h | h) <;> cases h) rfl rfl rfl
  running := nofun
  provisioning := nofun
  idle _ := ⟨rfl, rfl, .inl rfl⟩
  begun := nofun
  works := nofun
  doomed _ _ := nofun

theorem Good.putRun (h : Good c s) (hid : s.db.runs.get id = none) (run : NewRun) (now : Nat) :
    Good c (s.setDb { s.db with runs := s.db.runs.put id (run.row now) }) := by
  have hne : ∀ j row, s.db.runs.get j = some row → j ≠ id := by
    rintro j row hrow rfl
    rw [hid] at hrow
    cases hrow
  have hkeep : ∀ j row, s.db.runs.get j = some row → (s.db.runs.put id (run.row now)).get j = some row :=
    fun j row hrow => (get_put_of_ne (hne j row hrow) _ _).trans hrow
  have hback : ∀ j row, (s.db.runs.put id (run.row now)).get j = some row →
      (j = id ∧ row = run.row now) ∨ (j ≠ id ∧ s.db.runs.get j = some row) := fun _ _ => get_put_some
  have hl : Later s.db { s.db with runs := s.db.runs.put id (run.row now) } :=
    ⟨fun j row hrow => ⟨row, hkeep j row hrow, fun ht => ht, fun _ hw => hw⟩, fun _ hj => hj⟩
  refine { h with row := ?_, exec := ?_, recorded := ?_, owner := ?_, call := h.calls_later hl }
  · intro j row hrow
    obtain ⟨rfl, rfl⟩ | ⟨_, hrow⟩ := hback j row hrow
    · change Fits c s.db.jobs (run.row now) (s.execs.get j)
      rw [h.exec_none hid]
      exact run.fits now s.db.jobs
    · exact h.row j row hrow
  · intro j e he
    exact ⟨(h.exec j e he).1, isSome_get_put _ (h.exec j e he).2⟩
  · intro j row w hrow hw
    obtain ⟨_, rfl⟩ | ⟨_, hrow⟩ := hback j row hrow
    · cases hw
    · exact h.recorded j row w hrow hw
  · intro w ws hws
    obtain ⟨row, hrow, hw⟩ := h.owner w ws hws
    exact ⟨row, hkeep _ row hrow, hw⟩

theorem Good.commit (h : Good c s) {call result}
    (hr : ∀ db, result = .ok db → Good c (s.setDb db)) : Good c (commit s call result) := by
  cases result with
  | error => exact h.endCall call
  | ok db => exact (hr db rfl).endCall call

variable {t : State}

theorem good_insert (h : Good c s) {id} (hs : stepInsert s call id k = some t) : Good c t := by
  unfold stepInsert at hs
  split at hs
  · rename_i run
    cases hid : s.db.runs.get id with
    | some => simp [hid] at hs
    | none =>
      simp only [hid, isSome_none, Bool.false_eq_true, if_false, some.injEq] at hs
      subst hs
      refine h.commit fun db hdb => ?_
      unfold insertRun at hdb
      split at hdb
      · split at hdb <;> cases hdb
        exact h
      · split at hdb <;> cases hdb
        exact h.putRun hid run s.now
  · cases hs

variable {row : Run} {jobs : Table Uuid Job}

theorem Fits.claim (h : Fits c jobs row none) (self : RunOrchestrator) (lease : RunLease) (expiresAt : Nat) :
    Fits c jobs (row.claim self.workerId lease.token expiresAt) (some ⟨self, lease, .claimed⟩) := by
  obtain ⟨ht, hw, _⟩ := h.idle rfl
  constructor
  · exact Run.LeaseOk.of_set (.inl rfl) ⟨rfl, rfl, rfl⟩
  · nofun
  · exact fun _ => ht
  · nofun
  · exact fun _ _ => nofun
  · rintro e he _
    cases he
    exact ⟨ht, hw, .inr (.inr ⟨rfl, by simp [Run.heldBy, Run.claim, Run.setLease], rfl⟩)⟩
  · intro _ w hw'
    change row.workspaceId = some w at hw'
    rw [hw] at hw'
    cases hw'

variable {lease : RunLease}

theorem Good.claim (h : Good c s) (hrow : s.db.runs.get id = some row)
    (hp : row.status = .pending) (self : RunOrchestrator) (hid : lease.runId = id) (expiresAt : Nat) :
    Good c { s.setDb (s.db.updateRun id (fun _ => true) (·.claim self.workerId lease.token expiresAt)) with
      execs := s.execs.put id ⟨self, lease, .claimed⟩ } := by
  have hfits := h.row id row hrow
  have hexec : s.execs.get id = none := by
    cases he : s.execs.get id with
    | none => rfl
    | some e => rw [he] at hfits; exact absurd hp (hfits.begun e rfl)
  rw [hexec] at hfits
  have hclaim : Keeps (·.claim self.workerId lease.token expiresAt) := fun _ => ⟨rfl, fun ht => ht⟩
  refine h.putExec (get_updateRun s.db id (fun _ => true) _) (fun j => hclaim.ite fun _ => j = id ∧ true) hid
    (by rw [hrow]; rfl) (fun j old hold => ?_) nofun
  by_cases hj : j = id
  · subst hj
    rw [hrow] at hold
    cases hold
    simpa using hfits.claim self lease expiresAt
  · simpa [hj] using h.row j old hold

/-! ## The steps of `execute_lease` -/

variable {e : Exec}

theorem Onward.stop (h : phase.isWorking = false) : Onward e phase row := by
  refine ⟨fun hw => ?_, fun hu => ?_⟩
  · rw [h] at hw
    cases hw
  · cases phase <;> cases hu
    cases h

section

variable (h : Good c s) (he : s.execs.get id = some e) {phase : Phase}
include h he

theorem Good.stopExec (hw : phase.isWorking = false) (hu : phase.unrecorded = none) : Good c (s.setExec id e phase) :=
  h.setExec he (fun _ _ => .stop hw) fun w hw' => by rw [hu] at hw'; cases hw'

/-- The worker stops with a last write to its run. -/
theorem Good.stopWrite {f : Run → Run} (hw : phase.isWorking = false) (hu : phase.unrecorded = none) (hf : Keeps f)
    (hok : ∀ row, s.db.runs.get id = some row → p row → Fits c s.db.jobs (f row) (some { e with phase })) :
    Good c ((s.setExec id e phase).setDb (s.db.updateRun e.lease.runId p f)) := by
  rw [(h.exec id e he).1]
  refine (h.stopExec he hw hu).updateRun hf fun row hrow hp => ?_
  change Fits c s.db.jobs (f row) ((s.execs.put id { e with phase }).get id)
  rw [get_put_self]
  exact hok row hrow hp

theorem Good.advanceExec (hold : e.phase.isWorking) (hws : phase.workspace = e.phase.workspace)
    (hns : phase.isUnsure = false) (hu : ∀ w, phase.unrecorded = some w → e.phase.unrecorded = some w) :
    Good c (s.setExec id e phase) := by
  refine h.setExec he (fun row _ => ⟨fun _ => ⟨hold, hws⟩, fun hn => ?_⟩) (h.keeps_unrecorded he hu fun _ _ => hold)
  rw [hns] at hn
  cases hn

end

variable {self : RunOrchestrator}

theorem heartbeat_ok (h : heartbeat self lease now db = .ok db') :
    db' = db.updateRun lease.runId (heartbeatGuard self lease) (·.renew (now + self.leaseTtl)) := by
  unfold heartbeat at h
  split at h <;> cases h
  rfl

theorem Run.heldBy_isSome (h : row.heldBy owner token) : row.leaseOwner.isSome ∧ row.leaseToken.isSome := by
  unfold Run.heldBy at h
  simp only [Bool.and_eq_true, beq_iff_eq] at h
  rw [h.1, h.2]
  exact ⟨rfl, rfl⟩

section

variable (h : Good c s)
include h

/-- Either heartbeat of `execute_lease`, once it is known that the worker may move on. -/
theorem Good.renewed (he : s.execs.get id = some e) (hnext : Good c (s.setExec id e next)) :
    Good c (renewLease s id e next) := by
  unfold renewLease
  cases hb : heartbeat e.self e.lease s.now s.db with
  | error => exact h.stopExec he rfl rfl
  | ok =>
    rw [heartbeat_ok hb]
    refine hnext.updateRun (fun _ => ⟨rfl, fun ht => ht⟩) fun row hrow hg => ?_
    obtain ⟨ho, ht⟩ := Run.heldBy_isSome (Bool.and_eq_true_iff.1 hg).1
    exact (hnext.row _ row hrow).renew ho ht _

theorem good_heartbeat (he : s.execs.get id = some e) (hs : stepHeartbeat s id e = some t) : Good c t := by
  unfold stepHeartbeat at hs
  split at hs
  · rename_i hp
    cases hs
    exact h.renewed he (h.advanceExec he (hp ▸ rfl) (hp ▸ rfl) rfl nofun)
  · rename_i w hp
    cases hs
    exact h.renewed he (h.advanceExec he (hp ▸ rfl) (hp ▸ rfl) rfl fun w' hw => by rw [hp]; exact hw)
  · cases hs

theorem Good.mint : s.db.workspaces.get s.nextWorkspace = none ∧
    ∀ id e, s.execs.get id = some e → e.phase.unrecorded ≠ some s.nextWorkspace := by
  constructor
  · cases hw : s.db.workspaces.get s.nextWorkspace with
    | none => rfl
    | some => exact absurd (h.minted s.nextWorkspace (by rw [hw]; rfl)) (Nat.lt_irrefl _)
  · intro id e he hu
    exact Nat.lt_irrefl _ (h.unrecorded id e _ he hu).2.1

theorem Good.minted_ : Good c { s with nextWorkspace := s.nextWorkspace + 1 } := by
  refine { h with minted := ?_, unrecorded := ?_ }
  · exact fun w hw => Nat.lt_succ_of_lt (h.minted w hw)
  · intro id e w he hw
    obtain ⟨hn, hlt, hd⟩ := h.unrecorded id e w he hw
    exact ⟨hn, Nat.lt_succ_of_lt hlt, hd⟩

theorem Good.placed (w : Uuid) : Good c { s with disk := w :: s.disk } := by
  refine { h with unrecorded := ?_, removed := ?_ }
  · intro id e w' he hw
    obtain ⟨hn, hlt, hd⟩ := h.unrecorded id e w' he hw
    exact ⟨hn, hlt, fun hwork => List.mem_cons_of_mem _ (hd hwork)⟩
  · exact fun w' hw hd => h.removed w' hw fun hmem => hd (List.mem_cons_of_mem _ hmem)

section

variable (he : s.execs.get id = some e)
include he

theorem Good.provision (hp : e.phase = .leased) (hu : phase.unrecorded = some s.nextWorkspace)
    (hws : phase.workspace = none) (hns : phase.isUnsure = false) :
    Good c (State.setExec { s with nextWorkspace := s.nextWorkspace + 1, disk := s.nextWorkspace :: s.disk } id e phase) := by
  refine (h.minted_.placed s.nextWorkspace).setExec he (fun row _ => ⟨fun _ => ?_, fun hn => ?_⟩) fun w hw => ?_
  · rw [hp, hws]
    exact ⟨rfl, rfl⟩
  · rw [hns] at hn
    cases hn
  · rw [hu, some.injEq] at hw
    subst hw
    refine ⟨h.mint.1, Nat.lt_succ_self _, fun _ => List.mem_cons_self, ?_⟩
    intro j e' hj hj'
    exact absurd hj' (h.mint.2 j e' hj)

theorem good_provision (hs : stepProvision s id e outcome = some t) : Good c t := by
  unfold stepProvision at hs
  split at hs
  · rename_i hp
    split at hs
    · cases outcome with
      | ready => cases hs; exact h.provision he hp rfl rfl rfl
      | failed => cases hs; exact h.minted_.stopExec he rfl rfl
      | branchFailed =>
        simp only at hs
        split at hs <;> cases hs
        exact h.provision he hp rfl rfl rfl
    · cases hs
      exact h.stopExec he rfl rfl
  · cases hs

theorem good_checkOwned (hs : stepCheckOwned s id e = some t) : Good c t := by
  unfold stepCheckOwned at hs
  split at hs
  · rename_i w hp
    cases hs
    have hu : ∀ w', (Phase.owned w).unrecorded = some w' → e.phase.unrecorded = some w' := fun w' hw => by
      rw [hp]; exact hw
    split
    · exact h.advanceExec he (hp ▸ rfl) (hp ▸ rfl) rfl hu
    · exact h.setExec he (fun _ _ => .stop rfl) (h.keeps_unrecorded he hu nofun)
  · cases hs

end

end

theorem recordWorkspace_ok (h : recordWorkspace lease w db = .ok db') :
    db.workspaces.get w = none ∧ (∀ w' ws, db.workspaces.get w' = some ws → ws.runId ≠ lease.runId) ∧ db' = { db with
        workspaces := db.workspaces.put w ⟨lease.organizationId, lease.runId, .ready⟩
        runs := db.runs.updateWhere lease.runId (fun _ => true) (·.record w) } := by
  unfold recordWorkspace at h
  split at h
  · cases h
  rename_i hc
  simp only [Bool.or_eq_true, not_or, Bool.not_eq_true] at hc
  cases h
  refine ⟨not_isSome_iff_eq_none.1 (by rw [hc.1]; nofun), fun w' ws hws hid => ?_, rfl⟩
  have hany : db.workspaces.anyRow (fun _ row => row.runId == lease.runId) :=
    anyRow_iff.2 ⟨w', ws, hws, by simp [hid]⟩
  rw [hc.2] at hany
  cases hany

theorem Fits.record (h : Fits c jobs row (some e)) (hp : e.phase = .owned w) (hj : ¬ (jobs.get w).isSome) :
    Fits c jobs (row.record w) (some { e with phase := .recorded w }) := by
  have hworks := h.works e rfl (hp ▸ rfl)
  refine { h with running := ?_, idle := nofun, begun := fun _ _ => h.begun e rfl, works := ?_, doomed := ?_ }
  · exact fun hs => absurd hs hworks.not_running
  · rintro e' he' _
    cases he'
    refine ⟨hworks.thread, rfl, ?_⟩
    obtain hs | hs | ⟨hs, hheld, _⟩ := hworks.status
    · exact .inl hs
    · exact .inr (.inl hs)
    · exact .inr (.inr ⟨hs, hheld, rfl⟩)
  · intro _ w' hw' hj'
    cases hw'
    exact absurd hj' hj

/-- **A workspace is recorded**: its id was the worker's alone, so no job and no other run knows it. -/
theorem Good.record (h : Good c s) {id} (he : s.execs.get id = some e) (hp : e.phase = .owned w)
 (hr : recordWorkspace e.lease w s.db = .ok db) : Good c ((s.setDb db).setExec id e (.recorded w)) := by
  obtain ⟨hnone, hapart, rfl⟩ := recordWorkspace_ok hr
  obtain ⟨hid, hsome⟩ := h.exec id e he
  obtain ⟨_, hlt, hdisk⟩ := h.unrecorded id e w he (hp ▸ rfl)
  rw [hid] at hapart ⊢
  have hjob : ¬ (s.db.jobs.get w).isSome := fun hj => by simpa [hnone] using h.job w hj
  have hget : ∀ j, (s.db.updateRun id (fun _ => true) (·.record w)).runs.get j =
      (s.db.runs.get j).map (fun row => if j = id ∧ true = true then row.record w else row) :=
    get_updateRun s.db id (fun _ => true) _
  have hback : ∀ j row, (s.db.updateRun id (fun _ => true) (·.record w)).runs.get j =
      some row → ∃ old, s.db.runs.get j = some old ∧ ((j ≠ id ∧ row = old) ∨ (j = id ∧ row = old.record w)) := by
    intro j row hrow
    obtain ⟨old, hold, rfl⟩ := map_eq_some_iff.1 ((hget j).symm.trans hrow)
    by_cases hj : j = id <;> exact ⟨old, hold, by simp [hj]⟩
  have hexec : ∀ j e', (s.execs.put id { e with phase := .recorded w }).get j = some e' →
      (j = id ∧ e' = { e with phase := .recorded w }) ∨ (j ≠ id ∧ s.execs.get j = some e') := fun _ _ => get_put_some
  have hworks : ∀ old, s.db.runs.get id = some old → old.workspaceId = none := by
    intro old hold
    have hfits := h.row id old hold
    rw [he] at hfits
    exact (hfits.works e rfl (hp ▸ rfl)).workspace.trans (hp ▸ rfl)
  constructor
  · intro j row hrow
    change Fits c s.db.jobs row ((s.execs.put id { e with phase := .recorded w }).get j)
    rw [get_put]
    obtain ⟨old, hold, ⟨hj, rfl⟩ | ⟨rfl, rfl⟩⟩ := hback j row hrow
    · rw [if_neg hj]
      exact h.row j row hold
    rw [if_pos rfl]
    have hfits := h.row j old hold
    rw [he] at hfits
    exact hfits.record hp hjob
  · intro j e' he'
    refine ⟨?_, ?_⟩
    · obtain ⟨rfl, rfl⟩ | ⟨_, he'⟩ := hexec j e' he'
      · exact hid
      · exact (h.exec j e' he').1
    · refine (isSome_get_updateWhere _ _ _ _ _).trans ?_
      obtain ⟨rfl, rfl⟩ | ⟨_, he'⟩ := hexec j e' he'
      · exact hsome
      · exact (h.exec j e' he').2
  · intro j row w' hrow hw'
    obtain ⟨old, hold, ⟨_, rfl⟩ | ⟨rfl, rfl⟩⟩ := hback j row hrow
    · obtain ⟨ws, hws, hrun⟩ := h.recorded j row w' hold hw'
      have hne : w' ≠ w := by
        rintro rfl
        rw [hnone] at hws
        cases hws
      exact ⟨ws, (get_put_of_ne hne _ _).trans hws, hrun⟩
    · cases hw'
      exact ⟨_, get_put_self _ _ _, rfl⟩
  · intro w' ws hws
    obtain ⟨rfl, rfl⟩ | ⟨_, hws⟩ := get_put_some hws
    · obtain ⟨old, hold⟩ := isSome_iff_exists.1 hsome
      refine ⟨old.record w', (hget id).trans ?_, rfl⟩
      simp [hold]
    · obtain ⟨old, hold, hw'⟩ := h.owner w' ws hws
      refine ⟨old, (hget ws.runId).trans ?_, hw'⟩
      simp [hold, hapart w' ws hws]
  · intro w' hws
    by_cases hw' : w' = w
    · rw [hw']
      exact hlt
    · exact h.minted w' (isSome_get_of_put hw' hws)
  · intro j e' w' he' hu
    obtain ⟨_, rfl⟩ | ⟨hj, hold⟩ := hexec j e' he'
    · cases hu
    obtain ⟨hn, hlt', hd⟩ := h.unrecorded j e' w' hold hu
    have hne : w' ≠ w := by
      rintro rfl
      exact hj (h.apart j id e' e w' hold he hu (hp ▸ rfl))
    exact ⟨(get_put_of_ne hne _ _).trans hn, hlt', hd⟩
  · intro j j' e₁ e₂ w' hj hj' hw₁ hw₂
    obtain ⟨_, rfl⟩ | ⟨_, hj⟩ := hexec j e₁ hj
    · cases hw₁
    · obtain ⟨_, rfl⟩ | ⟨_, hj'⟩ := hexec j' e₂ hj'
      · cases hw₂
      · exact h.apart j j' e₁ e₂ w' hj hj' hw₁ hw₂
  · exact fun w' hj => isSome_get_put _ (h.job w' hj)
  · intro w' ws hws hst
    obtain ⟨_, rfl⟩ | ⟨_, hws⟩ := get_put_some hws
    · cases hst
    · exact h.retired w' ws hws hst
  · intro w' hws hd
    by_cases hw' : w' = w
    · rw [hw'] at hd
      exact absurd (hdisk (hp ▸ rfl)) hd
    · exact h.removed w' (isSome_get_of_put hw' hws) hd
  · refine h.calls_later ⟨fun j old hold => ?_, fun _ hj => hj⟩
    refine ⟨_, (hget j).trans (by rw [hold]; rfl), ?_, ?_⟩
    · by_cases hj : j = id <;> simp [hj, Run.record]
    · intro w' hw'
      by_cases hj : j = id
      · rw [hj] at hold
        rw [hworks old hold] at hw'
        cases hw'
      · simpa [hj] using hw'

section

variable (h : Good c s) (he : s.execs.get id = some e)
include h he

theorem good_recordWorkspace (hs : stepRecordWorkspace s id e = some t) : Good c t := by
  unfold stepRecordWorkspace at hs
  split at hs
  · rename_i w hp
    split at hs
    · rename_i db hr
      cases hs
      exact h.record he hp hr
    · cases hs
      refine h.setExec he (fun _ _ => .stop rfl) (h.keeps_unrecorded he (fun w' hw => ?_) nofun)
      rw [hp]
      exact hw
  · cases hs

theorem good_discard (hs : stepDiscard s id e outcome = some t) : Good c t := by
  unfold stepDiscard at hs
  split at hs
  · rename_i w error hp
    cases hs
    obtain ⟨hn, _, _⟩ := h.unrecorded id e w he (hp ▸ rfl)
    have hgone : Good c (s.removal w outcome) := by
      refine h.removal (.inr ⟨hn, fun j e' he' hu => ?_⟩) outcome
      have hj := h.apart j id e' e w he' he hu (hp ▸ rfl)
      rw [hj, he, some.injEq] at he'
      rw [← he', hp]
      rfl
    refine hgone.stopExec ?_ rfl rfl
    match outcome with
    | .removed | .failed true | .failed false => exact he
  · cases hs

theorem good_startThread (hs : stepStartThread s id e thread = some t) : Good c t := by
  unfold stepStartThread at hs
  split at hs
  · rename_i w hp
    split at hs
    · cases thread with
      | _ => cases hs; exact h.advanceExec he (hp ▸ rfl) (hp ▸ rfl) rfl nofun
    · cases hs
      exact h.stopExec he rfl rfl
  · cases hs

theorem Good.worked (hw : e.phase.isWorking) :
    ∃ row, s.db.runs.get id = some row ∧ Works e row ∧ Fits c s.db.jobs row (some e) := by
  obtain ⟨row, hrow⟩ := isSome_iff_exists.1 (h.exec id e he).2
  have hfits := h.row id row hrow
  rw [he] at hfits
  exact ⟨row, hrow, hfits.works e rfl hw, hfits⟩

theorem good_queueCleanup (hs : stepQueueCleanup s id e = some t) : Good c t := by
  unfold stepQueueCleanup at hs
  split at hs
  · rename_i w hp
    cases hs
    obtain ⟨_, hrow, hworks, _⟩ := h.worked he (hp ▸ rfl)
    have hstop : Good c (s.setExec id e (.failing .adapter)) := h.stopExec he rfl rfl
    refine hstop.queue hrow (hworks.workspace.trans (hp ▸ rfl)) (fun _ => ?_) _ _ _
    refine ⟨hworks.not_running, fun _ => hworks.thread, fun e' he' hw => ?_⟩
    change (s.execs.put id { e with phase := .failing .adapter }).get id = some e' at he'
    rw [get_put_self, some.injEq] at he'
    rw [← he'] at hw
    cases hw
  · cases hs

end

theorem markRunning_some (h : markRunning self lease thread now db = some db') :
    ∃ row, db.runs.get lease.runId = some row ∧ provisionedBy self lease row ∧
      db' = ((db.updateRun lease.runId (provisionedBy self lease) (·.start thread (now + self.leaseTtl))).setRunWorkspace
        row (fun _ => true) .busy).setTask row.taskId .running := by
  unfold markRunning at h
  split at h
  · cases h
  rename_i row hrow
  split at h
  · rename_i hp
    cases h
    exact ⟨row, hrow, hp, rfl⟩
  · cases h

theorem markRunning_none
    (h : markRunning self lease thread now db = none) (hrow : db.runs.get lease.runId = some row) :
    provisionedBy self lease row = false := by
  by_contra hp
  simp [markRunning, hrow, hp] at h

/-- The row the running transition leaves: its lease was live, so its workspace was not queued for deletion. -/
theorem Fits.start
    (h : Fits c jobs row (some e)) (hp : e.phase = .started w thread) (hheld : provisionedBy e.self e.lease row)
    (expiresAt : Nat) : Fits c jobs (row.start thread expiresAt) (some { e with phase := .finished }) := by
  have hwork : e.phase.isWorking := by rw [hp]; rfl
  have hws : row.workspaceId = some w := (h.works e rfl hwork).workspace.trans (hp ▸ rfl)
  unfold provisionedBy at hheld
  simp only [Bool.and_eq_true, beq_iff_eq] at hheld
  obtain ⟨ho, ht⟩ := Run.heldBy_isSome hheld.1
  refine Fits.runs rfl ⟨ho, ht, rfl⟩ rfl ?_ rfl ?_
  · change row.workspaceId.isSome
    rw [hws]
    rfl
  · intro hc w' hw' hj
    exact (h.doomed hc w' hw' hj).working e rfl hwork hheld.2

theorem good_markRunning (h : Good c s) (he : s.execs.get id = some e) (hs : stepMarkRunning s id e = some t) : Good c t := by
  unfold stepMarkRunning at hs
  split at hs
  · rename_i w thread hp
    obtain ⟨row, hrow, hworks, hfits⟩ := h.worked he (hp ▸ rfl)
    split at hs
    · rename_i db hm
      cases hs
      obtain ⟨row₀, _, _, rfl⟩ := markRunning_some hm
      have hrun : Good c ((s.setExec id e .finished).setDb (s.db.updateRun e.lease.runId (provisionedBy e.self e.lease)
          (·.start thread (s.now + e.self.leaseTtl)))) := by
        refine h.stopWrite he rfl rfl (fun _ => ⟨rfl, fun _ => rfl⟩) fun row' hrow' hg => ?_
        cases hrow.symm.trans hrow'
        exact hfits.start hp hg _
      exact (hrun.setRunWorkspace row₀ (fun _ => true) .busy nofun).setTask _ .running
    · rename_i hm
      cases hs
      refine h.setExec he (fun row' hrow' => ⟨fun _ => by rw [hp]; exact ⟨rfl, rfl⟩, fun _ hst => ?_⟩) nofun
      cases hrow.symm.trans hrow'
      have hno := markRunning_none hm (by rw [(h.exec id e he).1]; exact hrow)
      obtain hs' | hs' | ⟨_, hheld, _⟩ := hworks.status
      · simp [hs'] at hst
      · simp [hs'] at hst
      · simp [provisionedBy, hheld, hst] at hno
  · cases hs

theorem recordDeliveryUncertainty_ok (h : recordDeliveryUncertainty lease w thread db = .ok db') :
    db' = (db.updateRun lease.runId (fun row => row.workspaceId == some w) (·.unsure thread)).setWorkspace w
      (fun _ => true) .ready := by
  unfold recordDeliveryUncertainty at h
  split at h <;> cases h
  rfl

theorem Fits.unsure (he : e.phase.isWorking = false) (thread : Str)
    (hd : c → row.status ≠ .cancelled → ∀ w, row.workspaceId = some w → ¬ (jobs.get w).isSome) :
    Fits c jobs (row.unsure thread) (some e) := by
  have hst : (row.unsure thread).status = if row.status = .cancelled then .cancelled else .recoveryPending := rfl
  refine Fits.settled ?_ ⟨rfl, rfl, rfl⟩ nofun ?_ ?_
  · rw [hst]
    split <;> exact ⟨nofun, nofun, nofun⟩
  · intro e' he' hw
    cases he'
    rw [he] at hw
    cases hw
  · intro hc w hw hj hr
    rw [hst] at hr
    split at hr
    · cases hr
    · rename_i hne
      exact absurd hj (hd hc hne w hw)

theorem not_queued_of_orderly (ho : orderly s (.recordDeliveryUncertainty id))
    (he : s.execs.get id = some e) (hp : e.phase.isUnsure) (hrow : s.db.runs.get id = some row)
    (hst : row.status ≠ .cancelled) (w : Uuid) (hw : row.workspaceId = some w) : ¬ (s.db.jobs.get w).isSome := by
  intro hj
  have hq := deletionQueued_iff.2 ⟨w, hw, hj⟩
  have hh : s.db.runs.holds id (fun row => row.status != .cancelled && deletionQueued s.db row) :=
    holds_iff.2 ⟨row, hrow, by simp [hst, hq]⟩
  simp [orderly, he, hp, hh] at ho

theorem good_uncertainty (h : Good c s) (he : s.execs.get id = some e)
    (ho : c → orderly s (.recordDeliveryUncertainty id)) (hs : stepUncertainty s id e = some t) : Good c t := by
  unfold stepUncertainty at hs
  split at hs
  · rename_i w thread hp
    split at hs
    · rename_i db hr
      cases hs
      rw [recordDeliveryUncertainty_ok hr]
      have hrun : Good c ((s.setExec id e (.failing .leaseLost)).setDb
          (s.db.updateRun e.lease.runId (fun row => row.workspaceId == some w) (·.unsure thread))) := by
        refine h.stopWrite he rfl rfl (fun row => ⟨rfl, fun ht => ?_⟩) fun row hrow _ => ?_
        · change (row.codexThreadId <|> some thread).isSome
          cases row.codexThreadId <;> rfl
        · refine Fits.unsure rfl thread fun hc hst w' hw' => ?_
          exact not_queued_of_orderly (ho hc) he (hp ▸ rfl) hrow hst w' hw'
      exact hrun.setWorkspace w (fun _ => true) .ready nofun
    · cases hs
      exact h.stopExec he rfl rfl
  · cases hs

theorem good_failLease (h : Good c s) (he : s.execs.get id = some e) (hs : stepFailLease s id e = some t) : Good c t := by
  unfold stepFailLease at hs
  split at hs <;> cases hs
  exact h.stopWrite he rfl rfl (fun _ => ⟨rfl, fun ht => ht⟩) fun _ _ _ => Fits.fail rfl _

end steps

end Owc.Orchestrator
