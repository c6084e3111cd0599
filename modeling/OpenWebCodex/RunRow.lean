import OpenWebCodex.RunInv
/-!
# RunRow — what each transaction makes of a run row

A row that fits its worker still does after each of the orchestrator's updates.  `Fits.settled` and `Fits.runs` are what
is left to show for a row without a lease and for a running one.
-/
namespace Owc.Orchestrator

section rows

variable {c : Prop} {jobs : Table Uuid Job} {row : Run} {exec : Option Exec}

theorem Run.LeaseOk.of_null (hs : ¬ (row.status = .provisioning ∨ row.status = .running))
    (ho : row.leaseOwner = none) (ht : row.leaseToken = none) (hx : row.leaseExpiresAt = none) : row.LeaseOk := by
  unfold Run.LeaseOk
  rw [if_neg hs]
  exact ⟨ho, ht, hx⟩

theorem Run.LeaseOk.of_set (hs : row.status = .provisioning ∨ row.status = .running)
    (hl : row.leaseOwner.isSome ∧ row.leaseToken.isSome ∧ row.leaseExpiresAt.isSome) : row.LeaseOk := by
  unfold Run.LeaseOk
  rw [if_pos hs]
  exact hl

theorem Run.LeaseOk.null (h : row.LeaseOk) (hs : ¬ (row.status = .provisioning ∨ row.status = .running)) :
    row.leaseOwner = none ∧ row.leaseToken = none ∧ row.leaseExpiresAt = none := by
  unfold Run.LeaseOk at h
  rwa [if_neg hs] at h

theorem Run.LeaseOk.leased (h : row.LeaseOk) (hs : row.leaseToken.isSome ∨ row.leaseExpiresAt.isSome) :
    row.status = .provisioning ∨ row.status = .running := by
  by_cases hst : row.status = .provisioning ∨ row.status = .running
  · exact hst
  · obtain ⟨_, ht, hx⟩ := h.null hst
    rw [ht, hx] at hs
    simp at hs

/-- **A row without a lease**: what is left to show once a run is neither pending, provisioning nor running. -/
theorem Fits.settled (hs : row.status ≠ .pending ∧ row.status ≠ .provisioning ∧ row.status ≠ .running)
    (hl : row.leaseOwner = none ∧ row.leaseToken = none ∧ row.leaseExpiresAt = none)
    (hidle : exec = none → row.codexThreadId = none ∧ row.workspaceId = none ∧ row.status = .cancelled)
    (hworks : ∀ e, exec = some e → e.phase.isWorking → Works e row)
    (hd : c → ∀ w, row.workspaceId = some w → (jobs.get w).isSome → row.status = .recoveryPending →
      row.codexThreadId = none) : Fits c jobs row exec where
  lease := Run.LeaseOk.of_null (by rintro (h | h); exacts [hs.2.1 h, hs.2.2 h]) hl.1 hl.2.1 hl.2.2
  running h := absurd h hs.2.2
  provisioning h := absurd h hs.2.1
  idle h := ⟨(hidle h).1, (hidle h).2.1, .inr (hidle h).2.2⟩
  begun _ _ := hs.1
  works := hworks
  doomed hc w hw hj := ⟨hs.2.2, hd hc w hw hj, fun _ _ _ => hs.2.1⟩

theorem Fits.runs {e} (hs : row.status = .running)
    (hl : row.leaseOwner.isSome ∧ row.leaseToken.isSome ∧ row.leaseExpiresAt.isSome)
    (ht : row.codexThreadId.isSome) (hw : row.workspaceId.isSome) (he : e.phase.isWorking = false)
    (hd : c → ∀ w, row.workspaceId = some w → ¬ (jobs.get w).isSome) : Fits c jobs row (some e) where
  lease := Run.LeaseOk.of_set (.inr hs) hl
  running _ := ⟨ht, hw⟩
  provisioning h := by rw [hs] at h; cases h
  idle := nofun
  begun _ _ := by rw [hs]; nofun
  works e' he' hwork := by cases he'; rw [he] at hwork; cases hwork
  doomed hc w hw hj := absurd hj (hd hc w hw)

theorem Fits.cancel (h : Fits c jobs row exec) : Fits c jobs row.cancel exec := by
  refine Fits.settled ⟨nofun, nofun, nofun⟩ ⟨rfl, rfl, rfl⟩ ?_ ?_ fun _ _ _ _ => nofun
  · intro he
    exact ⟨(h.idle he).1, (h.idle he).2.1, rfl⟩
  · intro e he hw
    exact ⟨(h.works e he hw).thread, (h.works e he hw).workspace, .inr (.inl rfl)⟩

/-- What no clause reads may change. -/
theorem Fits.turn (h : Fits c jobs row exec) (turnId : Option Str) : Fits c jobs { row with activeTurnId := turnId } exec :=
  { h with
    works := fun e he hw => { h.works e he hw with }
    doomed := fun hc w hw hj => { h.doomed hc w hw hj with } }

theorem Fits.renew (h : Fits c jobs row exec) (ho : row.leaseOwner.isSome) (ht : row.leaseToken.isSome)
    (expiresAt : Nat) : Fits c jobs (row.renew expiresAt) exec := by
  have hs := h.lease.leased (.inl ht)
  exact { h with
    lease := Run.LeaseOk.of_set hs ⟨ho, ht, rfl⟩
    works := fun e he hw => { h.works e he hw with }
    doomed := fun hc w hw hj => { h.doomed hc w hw hj with } }

theorem Fits.fail {e} (he : e.phase.isWorking = false) (code : Str) : Fits c jobs (row.fail code) (some e) := by
  refine Fits.settled ⟨nofun, nofun, nofun⟩ ⟨rfl, rfl, rfl⟩ nofun ?_ fun _ _ _ _ => nofun
  intro e' he' hw
  cases he'
  rw [he] at hw
  cases hw

theorem Fits.finish (h : Fits c jobs row exec) (hs : row.status = .running)
    (hst : status = .completed ∨ status = .failed) : Fits c jobs (row.finish status) exec := by
  refine Fits.settled ?_ ⟨rfl, rfl, rfl⟩ ?_ ?_ ?_
  · obtain rfl | rfl := hst <;> exact ⟨nofun, nofun, nofun⟩
  · intro he
    obtain ⟨_, _, hp | hp⟩ := h.idle he <;> rw [hs] at hp <;> cases hp
  · exact fun e he hw => absurd hs (h.works e he hw).not_running
  · intro _ _ _ _ hr
    obtain rfl | rfl := hst <;> cases hr

/-- **An expired lease**: a run with a thread was running, so its workspace was not queued for deletion. -/
theorem Fits.reap (h : Fits c jobs row exec) (hx : expired now row) : Fits c jobs row.reap exec := by
  unfold expired at hx
  have hsome : row.leaseExpiresAt.isSome := by
    cases hl : row.leaseExpiresAt with
    | none => rw [hl] at hx; simp at hx
    | some => rfl
  have hst := h.lease.leased (.inr hsome)
  refine Fits.settled ⟨nofun, nofun, nofun⟩ ⟨rfl, rfl, rfl⟩ ?_ ?_ ?_
  · intro he
    obtain ⟨_, _, hp | hp⟩ := h.idle he <;> rw [hp] at hst <;> simp at hst
  · intro e he hw
    exact ⟨(h.works e he hw).thread, (h.works e he hw).workspace, .inl rfl⟩
  · intro hc w hw hj _
    obtain hst | hst := hst
    · exact h.provisioning hst
    · exact absurd hst (h.doomed hc w hw hj).running

end rows

end Owc.Orchestrator
