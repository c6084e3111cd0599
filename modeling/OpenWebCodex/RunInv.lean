import OpenWebCodex.RunStep
/-!
# RunInv — what every state of the orchestrator satisfies

`Good` ties the three tables, the disk, the workers and the open calls together, row by row: `Fits` says what a worker's
phase means for the run it claimed.  Its clause on cleanup jobs is asked for only under `c`, so that one development
serves the facts that hold in every run (`c := False`) and those that need every step to be orderly (`c := True`).
-/
namespace Owc.Orchestrator

open Option Table

/-! ## Phases -/

def Phase.unrecorded : Phase → Option Uuid
  | .provisioned w | .renewed w | .owned w | .discarding w _ => some w
  | .claimed | .leased | .recorded _ | .startFailed _ | .started _ _ | .unsure _ _ | .failing _ | .finished => none

def Phase.workspace : Phase → Option Uuid
  | .recorded w | .startFailed w | .started w _ | .unsure w _ => some w
  | .claimed | .leased | .provisioned _ | .renewed _ | .owned _ | .discarding _ _ | .failing _ | .finished => none

/-- Whether the worker may still write the run on behalf of its lease, `fail_lease` apart. -/
def Phase.isWorking : Phase → Bool
  | .discarding _ _ | .failing _ | .finished => false
  | .claimed | .leased | .provisioned _ | .renewed _ | .owned _ | .recorded _ | .startFailed _ | .started _ _
  | .unsure _ _ => true

def Phase.isUnsure : Phase → Bool
  | .unsure _ _ => true
  | _ => false

/-! ## The invariant -/

/-- Owner, token and expiry are set in the statuses that carry a lease, and null in every other. -/
def Run.LeaseOk (row : Run) : Prop :=
  if row.status = .provisioning ∨ row.status = .running then
    row.leaseOwner.isSome ∧ row.leaseToken.isSome ∧ row.leaseExpiresAt.isSome
  else row.leaseOwner = none ∧ row.leaseToken = none ∧ row.leaseExpiresAt = none

/-- What the run of a worker that is still at work looks like. -/
structure Works (e : Exec) (row : Run) : Prop where
  thread : row.codexThreadId = none
  workspace : row.workspaceId = e.phase.workspace
  status : row.status = .recoveryPending ∨ row.status = .cancelled ∨
    (row.status = .provisioning ∧ row.heldBy e.self.workerId e.lease.token = true ∧ e.phase.isUnsure = false)

theorem Works.not_running {e} (h : Works e row) : row.status ≠ .running := by
  intro hs
  obtain hst | hst | ⟨hst, _⟩ := h.status <;> rw [hst] at hs <;> cases hs

/-- A run whose workspace is queued for deletion is neither running nor recoverable, and no worker will make it so. -/
structure Doomed (row : Run) (exec : Option Exec) : Prop where
  running : row.status ≠ .running
  recovery : row.status = .recoveryPending → row.codexThreadId = none
  working : ∀ e, exec = some e → e.phase.isWorking = true → row.status ≠ .provisioning

/-- **A run row, its worker and the cleanup jobs fit together.** -/
structure Fits (c : Prop) (jobs : Table Uuid Job) (row : Run) (exec : Option Exec) : Prop where
  lease : row.LeaseOk
  running : row.status = .running → row.codexThreadId.isSome ∧ row.workspaceId.isSome
  provisioning : row.status = .provisioning → row.codexThreadId = none
  idle : exec = none →
    row.codexThreadId = none ∧ row.workspaceId = none ∧ (row.status = .pending ∨ row.status = .cancelled)
  begun : ∀ e, exec = some e → row.status ≠ .pending
  works : ∀ e, exec = some e → e.phase.isWorking = true → Works e row
  doomed : c → ∀ w, row.workspaceId = some w → (jobs.get w).isSome → Doomed row exec

def HasThread (db : Db) (id : Uuid) : Prop := ∃ row, db.runs.get id = some row ∧ row.codexThreadId.isSome

def CallOk (db : Db) : Call → Prop
  | .interrupting id => HasThread db id
  | .recovering _ id w => HasThread db id ∧ ∃ row, db.runs.get id = some row ∧ row.workspaceId = some w
  | .cleaning w _ | .cleaned w _ | .uncleaned w _ => (db.jobs.get w).isSome
  | _ => True

structure Good (c : Prop) (s : State) : Prop where
  row : ∀ id row, s.db.runs.get id = some row → Fits c s.db.jobs row (s.execs.get id)
  exec : ∀ id e, s.execs.get id = some e → e.lease.runId = id ∧ (s.db.runs.get id).isSome
  recorded : ∀ id row w, s.db.runs.get id = some row → row.workspaceId = some w →
    ∃ ws, s.db.workspaces.get w = some ws ∧ ws.runId = id
  owner : ∀ w ws, s.db.workspaces.get w = some ws →
    ∃ row, s.db.runs.get ws.runId = some row ∧ row.workspaceId = some w
  minted : ∀ w, (s.db.workspaces.get w).isSome → w < s.nextWorkspace
  unrecorded : ∀ id e w, s.execs.get id = some e → e.phase.unrecorded = some w →
    s.db.workspaces.get w = none ∧ w < s.nextWorkspace ∧ (e.phase.isWorking = true → w ∈ s.disk)
  apart : ∀ id id' e e' w, s.execs.get id = some e → s.execs.get id' = some e' → e.phase.unrecorded = some w →
    e'.phase.unrecorded = some w → id = id'
  job : ∀ w, (s.db.jobs.get w).isSome → (s.db.workspaces.get w).isSome
  retired : ∀ w ws, s.db.workspaces.get w = some ws → ws.state = .retired → (s.db.jobs.get w).isSome
  removed : ∀ w, (s.db.workspaces.get w).isSome → w ∉ s.disk → (s.db.jobs.get w).isSome
  call : ∀ k call, s.calls.get k = some call → CallOk s.db call

def deletionQueued (db : Db) (row : Run) : Bool := row.workspaceId.any (fun w => (db.jobs.get w).isSome)

/-- **The two steps that reopen a run without looking at its workspace** do not meet one that is queued for deletion:
`record_delivery_uncertainty` on a run that is not cancelled, and the failed interrupt of a cancelled run. -/
def orderly (s : State) : Action → Bool
  | .recordDeliveryUncertainty id => (s.execs.get id).all (fun e => !(e.phase.isUnsure &&
      s.db.runs.holds id (fun row => row.status != .cancelled && deletionQueued s.db row)))
  | .interruptReturned call false =>
    match s.calls.get call with
    | some (.interrupting id) => !s.db.runs.holds id (fun row => row.status == .cancelled && deletionQueued s.db row)
    | _ => true
  | _ => true

theorem deletionQueued_iff : deletionQueued db row ↔ ∃ w, row.workspaceId = some w ∧ (db.jobs.get w).isSome := by
  simp only [deletionQueued, Option.any_eq_true]

theorem Fresh.good {c : Prop} (h : Fresh s) : Good c s := by
  have hr : ∀ id, s.db.runs.get id = none := fun id => by rw [h.runs]; rfl
  have hw : ∀ w, s.db.workspaces.get w = none := fun w => by rw [h.workspaces]; rfl
  have hj : ∀ w, s.db.jobs.get w = none := fun w => by rw [h.jobs]; rfl
  have he : ∀ id, s.execs.get id = none := fun id => by rw [h.execs]; rfl
  have hc : ∀ k, s.calls.get k = none := fun k => by rw [h.calls]; rfl
  constructor <;> simp [hr, hw, hj, he, hc]

theorem removal_db (s : State) (w : Uuid) : ∀ outcome, (s.removal w outcome).db = s.db
  | .removed | .failed true | .failed false => rfl

/-! ## What open calls rely on is never taken away -/

structure Later (db db' : Db) : Prop where
  runs : ∀ id row, db.runs.get id = some row → ∃ row', db'.runs.get id = some row' ∧
    (row.codexThreadId.isSome → row'.codexThreadId.isSome) ∧ (∀ w, row.workspaceId = some w → row'.workspaceId = some w)
  jobs : ∀ w, (db.jobs.get w).isSome → (db'.jobs.get w).isSome

theorem HasThread.later {id} (h : HasThread db id) (hl : Later db db') : HasThread db' id := by
  obtain ⟨row, hrow, ht⟩ := h
  obtain ⟨row', hrow', ht', _⟩ := hl.runs id row hrow
  exact ⟨row', hrow', ht' ht⟩

theorem CallOk.later {call} (hl : Later db db') (h : CallOk db call) : CallOk db' call := by
  cases call with
  | interrupting => exact HasThread.later h hl
  | recovering =>
    obtain ⟨h, row, hrow, hw⟩ := h
    obtain ⟨row', hrow', _, hw'⟩ := hl.runs _ row hrow
    exact ⟨h.later hl, row', hrow', hw' _ hw⟩
  | cleaning | cleaned | uncleaned => exact hl.jobs _ h
  | _ => trivial

/-- A rewriting of the runs that keeps the workspace of each and any thread it has. -/
def Keeps (g : Run → Run) : Prop :=
  ∀ row, (g row).workspaceId = row.workspaceId ∧ (row.codexThreadId.isSome → (g row).codexThreadId.isSome)

variable {f : Run → Run}

theorem Keeps.ite (hf : Keeps f) (p : Run → Prop) [DecidablePred p] : Keeps (fun row => if p row then f row else row) := by
  intro row
  by_cases hp : p row
  · simpa only [if_pos hp] using hf row
  · simp [hp]

theorem later_of_runs (hr : db'.runs = db.runs) (hj : ∀ w, (db.jobs.get w).isSome → (db'.jobs.get w).isSome) :
    Later db db' :=
  ⟨fun _ row hrow => ⟨row, hr ▸ hrow, fun ht => ht, fun _ hw => hw⟩, hj⟩

theorem later_mapRuns {g : Uuid → Run → Run}
    (hget : ∀ j, runs.get j = (db.runs.get j).map (g j)) (hg : ∀ j, Keeps (g j)) : Later db { db with runs := runs } := by
  refine ⟨fun j row hrow => ⟨g j row, ?_, (hg j row).2, fun w hw => (hg j row).1.trans hw⟩, fun w h => h⟩
  rw [hget, hrow]
  rfl

theorem get_updateRun (db : Db) (id : Uuid) (p : Run → Bool) (f : Run → Run) (j : Uuid) :
    (db.updateRun id p f).runs.get j = (db.runs.get j).map (fun row => if j = id ∧ p row = true then f row else row) :=
  get_updateWhere ..

/-! ## One lemma for each kind of write -/

section writes

variable {c : Prop} {s : State}

section

variable (h : Good c s)
include h

theorem Good.tick (n : Nat) : Good c { s with now := n } := { h with }

/-- The calls' clause, and the existence of rows, after a write that takes nothing away. -/
theorem Good.calls_later (hl : Later s.db db) (k : Uuid) (call : Call) (hk : s.calls.get k = some call) : CallOk db call :=
  (h.call k call hk).later hl

/-- **The runs rewritten row by row**, each to a row that fits its worker, and the workers by others of runs that exist. -/
theorem Good.mapRuns {g : Uuid → Run → Run} (hget : ∀ j, runs.get j = (s.db.runs.get j).map (g j))
    (hg : ∀ j, Keeps (g j))
    (hok : ∀ j row, s.db.runs.get j = some row → Fits c s.db.jobs (g j row) (execs.get j))
    (hexec : ∀ j e, execs.get j = some e → e.lease.runId = j ∧ (s.db.runs.get j).isSome)
    (hunrecorded : ∀ j e w, execs.get j = some e → e.phase.unrecorded = some w →
      s.db.workspaces.get w = none ∧ w < s.nextWorkspace ∧ (e.phase.isWorking → w ∈ s.disk))
    (hapart : ∀ j j' e e' w, execs.get j = some e → execs.get j' = some e' → e.phase.unrecorded = some w →
      e'.phase.unrecorded = some w → j = j') : Good c { s with db := { s.db with runs := runs }, execs := execs } := by
  have hl : Later s.db { s.db with runs := runs } := later_mapRuns hget hg
  have hback : ∀ j row, runs.get j = some row → ∃ old, s.db.runs.get j = some old ∧ g j old = row := by
    intro j row hrow
    rw [hget] at hrow
    exact map_eq_some_iff.1 hrow
  refine { h with row := ?_, exec := ?_, recorded := ?_, owner := ?_, unrecorded := hunrecorded, apart := hapart,
                  call := h.calls_later hl }
  · intro j row hrow
    obtain ⟨old, hold, rfl⟩ := hback j row hrow
    exact hok j old hold
  · intro j e he
    refine ⟨(hexec j e he).1, ?_⟩
    rw [hget, isSome_map]
    exact (hexec j e he).2
  · intro j row w hrow hw
    obtain ⟨old, hold, rfl⟩ := hback j row hrow
    exact h.recorded j old w hold ((hg j old).1.symm.trans hw)
  · intro w ws hws
    obtain ⟨old, hold, hw⟩ := h.owner w ws hws
    obtain ⟨row, hrow, _, hkeep⟩ := hl.runs _ old hold
    exact ⟨row, hrow, hkeep w hw⟩

theorem Good.updateWhere {runs} {p : Uuid → Run → Prop} [∀ j, DecidablePred (p j)]
    (hget : ∀ j, runs.get j = (s.db.runs.get j).map fun row => if p j row then f row else row) (hf : Keeps f)
    (hok : ∀ j row, s.db.runs.get j = some row → p j row → Fits c s.db.jobs (f row) (s.execs.get j)) :
    Good c (s.setDb { s.db with runs := runs }) := by
  refine h.mapRuns hget (fun j => hf.ite _) (fun j row hrow => ?_) h.exec h.unrecorded h.apart
  split
  · next hp =>
    exact hok j row hrow hp
  · exact h.row j row hrow

theorem Good.updateRun {id} {p : Run → Bool} (hf : Keeps f)
    (hok : ∀ row, s.db.runs.get id = some row → p row → Fits c s.db.jobs (f row) (s.execs.get id)) :
    Good c (s.setDb (s.db.updateRun id p f)) := by
  refine h.updateWhere (get_updateRun s.db id p f) hf fun j row hrow hp => ?_
  rw [hp.1] at hrow ⊢
  exact hok row hrow hp.2

theorem Good.updateAll {p : Run → Bool} (hf : Keeps f)
    (hok : ∀ id row, s.db.runs.get id = some row → p row → Fits c s.db.jobs (f row) (s.execs.get id)) :
    Good c (s.setDb { s.db with runs := s.db.runs.updateAll p f }) :=
  h.updateWhere (p := fun _ row => p row) (fun j => get_updateAll p f j _) hf hok

theorem Good.setTask (id : Uuid) (status : TaskStatus) : Good c (s.setDb (s.db.setTask id status)) :=
  { h with call := h.calls_later (later_of_runs rfl fun _ hj => hj) }

theorem Good.setWorkspace (id : Uuid) (p : Workspace → Bool) (state : WorkspaceState)
    (hr : state = .retired → (s.db.jobs.get id).isSome) : Good c (s.setDb (s.db.setWorkspace id p state)) := by
  have hget : ∀ w, (s.db.setWorkspace id p state).workspaces.get w = (s.db.workspaces.get w).map
      fun ws => if w = id ∧ p ws then { ws with state } else ws := get_updateWhere _ _ _ _
  have hsome : ∀ w, ((s.db.setWorkspace id p state).workspaces.get w).isSome = (s.db.workspaces.get w).isSome :=
    fun w => isSome_get_updateWhere _ _ _ _ _
  have hl : Later s.db (s.db.setWorkspace id p state) := later_of_runs rfl fun _ hj => hj
  refine { h with recorded := ?_, owner := ?_, minted := ?_, unrecorded := ?_, job := ?_, retired := ?_, removed := ?_,
                  call := h.calls_later hl }
  · intro j row w hrow hw
    obtain ⟨ws, hws, hid⟩ := h.recorded j row w hrow hw
    refine ⟨_, (hget w).trans (congrArg _ hws), ?_⟩
    dsimp only
    split <;> exact hid
  · intro w ws hws
    obtain ⟨old, ho, rfl⟩ := map_eq_some_iff.1 ((hget w).symm.trans hws)
    split <;> exact h.owner w old ho
  · intro w hws
    exact h.minted w ((hsome w).symm.trans hws)
  · intro j e w he hw
    obtain ⟨hn, hlt, hd⟩ := h.unrecorded j e w he hw
    exact ⟨(hget w).trans (congrArg _ hn), hlt, hd⟩
  · intro w hj
    exact (hsome w).trans (h.job w hj)
  · intro w ws hws hst
    obtain ⟨old, ho, rfl⟩ := map_eq_some_iff.1 ((hget w).symm.trans hws)
    split at hst
    · next hw =>
      rw [hw.1]
      exact hr hst
    · exact h.retired w old ho hst
  · intro w hws hd
    exact h.removed w ((hsome w).symm.trans hws) hd

theorem Good.setRunWorkspace (row : Run) (p : Workspace → Bool) (state : WorkspaceState) (hr : state ≠ .retired) :
    Good c (s.setDb (s.db.setRunWorkspace row p state)) := by
  unfold Db.setRunWorkspace
  cases row.workspaceId with
  | none => exact h
  | some w => exact h.setWorkspace w p state fun hs => absurd hs hr

/-- Writing a cleanup job: its workspace is recorded and, where it matters, its run is doomed already. -/
theorem Good.putJob (job : Job) (hw : (s.db.workspaces.get w).isSome)
    (hd : c → ∀ id row, s.db.runs.get id = some row → row.workspaceId = some w → Doomed row (s.execs.get id)) :
    Good c (s.setDb { s.db with jobs := s.db.jobs.put w job }) := by
  have hl : Later s.db { s.db with jobs := s.db.jobs.put w job } :=
    later_of_runs rfl fun _ hj => isSome_get_put job hj
  refine { h with row := ?_, job := ?_, retired := ?_, removed := ?_, call := h.calls_later hl }
  · intro id row hrow
    refine { h.row id row hrow with doomed := ?_ }
    intro hc w' hw' hj
    by_cases he : w' = w
    · rw [he] at hw'
      exact hd hc id row hrow hw'
    · exact (h.row id row hrow).doomed hc w' hw' (isSome_get_of_put he hj)
  · intro w' hj
    by_cases he : w' = w
    · rw [he]
      exact hw
    · exact h.job w' (isSome_get_of_put he hj)
  · intro w' ws hws hst
    exact isSome_get_put job (h.retired w' ws hws hst)
  · intro w' hws hdisk
    exact isSome_get_put job (h.removed w' hws hdisk)

theorem Good.updateJob {p : Job → Bool} {f : Job → Job} :
    Good c (s.setDb { s.db with jobs := s.db.jobs.updateWhere w p f }) := by
  have hsome : ∀ w', ((s.db.jobs.updateWhere w p f).get w').isSome = (s.db.jobs.get w').isSome :=
    fun w' => isSome_get_updateWhere _ _ _ _ _
  have hl : Later s.db { s.db with jobs := s.db.jobs.updateWhere w p f } :=
    later_of_runs rfl fun w' hj => (hsome w').trans hj
  refine { h with row := ?_, job := ?_, retired := ?_, removed := ?_, call := h.calls_later hl }
  · intro id row hrow
    exact { h.row id row hrow with
      doomed := fun hc w' hw' hj => (h.row id row hrow).doomed hc w' hw' ((hsome w').symm.trans hj) }
  · exact fun w' hj => h.job w' ((hsome w').symm.trans hj)
  · exact fun w' ws hws hst => (hsome w').trans (h.retired w' ws hws hst)
  · exact fun w' hws hd => (hsome w').trans (h.removed w' hws hd)

theorem Good.endCall (k : Uuid) : Good c (s.endCall k) :=
  { h with call := fun j call hj => h.call j call (get_of_get_erase hj) }

theorem Good.addCall {k call} (hcall : CallOk s.db call) : Good c (s.addCall k call) := by
  refine { h with call := ?_ }
  intro j call' hj
  obtain ⟨_, rfl⟩ | ⟨_, hj⟩ := get_put_some hj
  · exact hcall
  · exact h.call j call' hj

section

variable (hw : (s.db.jobs.get w).isSome ∨ (s.db.workspaces.get w = none ∧
  ∀ id e, s.execs.get id = some e → e.phase.unrecorded = some w → e.phase.isWorking = false))
include hw

/-- A checkout may go once a cleanup job is there for it, or while no row and no worker at work knows it. -/
theorem Good.remove : Good c (s.remove w) := by
  have hmem : ∀ w', w' ∉ (s.remove w).disk → w' ∉ s.disk ∨ w' = w := by
    intro w' hn
    by_cases he : w' = w
    · exact .inr he
    · exact .inl fun hd => hn (List.mem_filter.2 ⟨hd, by simpa using he⟩)
  refine { h with unrecorded := ?_, removed := ?_ }
  · intro id e w' he hu
    obtain ⟨hn, hlt, hd⟩ := h.unrecorded id e w' he hu
    refine ⟨hn, hlt, fun hwork => List.mem_filter.2 ⟨hd hwork, ?_⟩⟩
    have hne : w' ≠ w := by
      rintro rfl
      obtain hj | ⟨_, hno⟩ := hw
      · simpa [hn] using h.job w' hj
      · simp [hno id e he hu] at hwork
    simpa using hne
  · intro w' hws hd
    obtain hd | rfl := hmem w' hd
    · exact h.removed w' hws hd
    exact hw.resolve_right fun hn => Option.ne_none_iff_isSome.2 hws hn.1

theorem Good.removal (outcome : Removal) : Good c (s.removal w outcome) := by
  match outcome with
  | .removed | .failed true => exact h.remove hw
  | .failed false => exact h

end

theorem Good.queue {id w row} (hrow : s.db.runs.get id = some row) (hw : row.workspaceId = some w)
    (hd : c → Doomed row (s.execs.get id)) (now : Nat) (code : Option Str) (again : Job → Job) :
    Good c (s.setDb ((s.db.setWorkspace w (fun _ => true) .cleanupPending).upsertJob w now code again)) := by
  obtain ⟨_, hws, hid⟩ := h.recorded id row w hrow hw
  have hpending : Good c (s.setDb (s.db.setWorkspace w (fun _ => true) .cleanupPending)) := h.setWorkspace w _ _ nofun
  refine hpending.putJob _ ?_ ?_
  · exact (isSome_get_updateWhere _ _ _ _ _).trans (by rw [hws]; rfl)
  · intro hc j row' hrow' hw'
    obtain ⟨_, hws', rfl⟩ := h.recorded j row' w hrow' hw'
    cases hws.symm.trans hws'
    subst hid
    cases hrow.symm.trans hrow'
    exact hd hc

end

/-! ## Moving a worker on -/

/-- A phase a worker may move to without writing the run. -/
structure Onward (e : Exec) (phase : Phase) (row : Run) : Prop where
  working : phase.isWorking = true → e.phase.isWorking = true ∧ phase.workspace = e.phase.workspace
  unsure : phase.isUnsure = true → row.status ≠ .provisioning

theorem Fits.onward {e} (h : Fits c jobs row (some e))
    (ho : Onward e phase row) : Fits c jobs row (some { e with phase := phase }) := by
  refine { h with idle := nofun, begun := fun _ _ => h.begun e rfl, works := ?_, doomed := ?_ }
  · rintro e' he' hwork
    cases he'
    obtain ⟨hold, hws⟩ := ho.working hwork
    have hworks := h.works e rfl hold
    refine ⟨hworks.thread, hworks.workspace.trans hws.symm, ?_⟩
    obtain hs | hs | ⟨hs, hheld, _⟩ := hworks.status
    · exact .inl hs
    · exact .inr (.inl hs)
    refine .inr (.inr ⟨hs, hheld, ?_⟩)
    cases hu : phase.isUnsure with
    | false => rfl
    | true => exact absurd hs (ho.unsure hu)
  · intro hc w hw hj
    have hd := h.doomed hc w hw hj
    refine ⟨hd.running, hd.recovery, ?_⟩
    rintro e' he' hwork
    cases he'
    exact hd.working e rfl (ho.working hwork).1

/-- A checkout that no row names is the worker's alone. -/
def Alone (s : State) (id : Uuid) (phase : Phase) : Prop :=
  ∀ w, phase.unrecorded = some w → s.db.workspaces.get w = none ∧ w < s.nextWorkspace ∧
    (phase.isWorking = true → w ∈ s.disk) ∧ ∀ j e, s.execs.get j = some e → e.phase.unrecorded = some w → j = id

/-- **A worker is written, and the runs row by row**, where the worker fits its run and has a checkout to itself. -/
theorem Good.putExec (h : Good c s) {g : Uuid → Run → Run}
    (hget : ∀ j, runs.get j = (s.db.runs.get j).map (g j)) (hg : ∀ j, Keeps (g j)) {id e}
    (hid : e.lease.runId = id) (hsome : (s.db.runs.get id).isSome)
    (hok : ∀ j row, s.db.runs.get j = some row → Fits c s.db.jobs (g j row) (if j = id then some e else s.execs.get j))
    (hu : Alone s id e.phase) : Good c { s with db := { s.db with runs := runs }, execs := s.execs.put id e } := by
  have hexec : ∀ j e', (s.execs.put id e).get j = some e' → (j = id ∧ e' = e) ∨ (j ≠ id ∧ s.execs.get j = some e') :=
    fun _ _ => get_put_some
  refine h.mapRuns hget hg (fun j row hrow => ?_) (fun j e' he' => ?_) ?_ ?_
  · rw [get_put]
    exact hok j row hrow
  · obtain ⟨rfl, rfl⟩ | ⟨_, he'⟩ := hexec j e' he'
    · exact ⟨hid, hsome⟩
    · exact h.exec j e' he'
  · intro j e' w hj hw
    obtain ⟨rfl, rfl⟩ | ⟨_, hj⟩ := hexec j e' hj
    · obtain ⟨hn, hlt, hd, _⟩ := hu w hw
      exact ⟨hn, hlt, hd⟩
    · exact h.unrecorded j e' w hj hw
  · intro j j' e₁ e₂ w hj hj' hw hw'
    obtain ⟨rfl, rfl⟩ | ⟨_, hold⟩ := hexec j e₁ hj
    · obtain ⟨rfl, rfl⟩ | ⟨_, hj'⟩ := hexec j' e₂ hj'
      · rfl
      · exact ((hu w hw).2.2.2 j' e₂ hj' hw').symm
    · obtain ⟨rfl, rfl⟩ | ⟨_, hj'⟩ := hexec j' e₂ hj'
      · exact (hu w hw').2.2.2 j e₁ hold hw
      · exact h.apart j j' e₁ e₂ w hold hj' hw hw'

section

variable (h : Good c s) {id : Uuid} {e : Exec} (he : s.execs.get id = some e) {phase : Phase}
include h he

theorem Good.setExec (ho : ∀ row, s.db.runs.get id = some row → Onward e phase row) (hu : Alone s id phase) :
    Good c (s.setExec id e phase) := by
  obtain ⟨hid, hsome⟩ := h.exec id e he
  have hget : ∀ j, s.db.runs.get j = (s.db.runs.get j).map fun row => row := fun _ => map_id'.symm
  refine h.putExec (g := fun _ row => row) hget (fun _ _ => ⟨rfl, fun ht => ht⟩) hid hsome (fun j row hrow => ?_) hu
  have hfits := h.row j row hrow
  split
  · next hj =>
    subst hj
    rw [he] at hfits
    exact hfits.onward (ho row hrow)
  · exact hfits

theorem Good.keeps_unrecorded (hu : ∀ w, phase.unrecorded = some w → e.phase.unrecorded = some w)
    (hwork : phase.unrecorded.isSome → phase.isWorking → e.phase.isWorking) : Alone s id phase := by
  intro w hw
  obtain ⟨hn, hlt, hd⟩ := h.unrecorded id e w he (hu w hw)
  refine ⟨hn, hlt, fun hp => hd (hwork (by rw [hw]; rfl) hp), ?_⟩
  intro j e' hj hw'
  exact h.apart j id e' e w hj he hw' (hu w hw)

end

end writes

end Owc.Orchestrator
