import OpenWebCodex.ApprovalInv
/-!
# ApprovalGood — every step keeps the invariant

Each transaction is unpacked once, into the row it found and what it wrote; each step then keeps `Good` and follows
every row, and so does every run (`run_good`, `run_later`).
-/
namespace Owc.Approvals

open Option Table

/-! ## The rows that the transactions write -/

theorem get_updateApproval (db : Db) (id : Uuid) (p : Approval → Bool) (f : Approval → Approval) (j : Uuid) :
    (db.updateApproval id p f).approvals.get j =
      (db.approvals.get j).map (fun row => if j = id ∧ p row = true then f row else row) :=
  get_updateWhere ..

variable {row : Approval} {decision : StoredDecision}

theorem dispatchable_iff : row.dispatchable decision ↔
    row.state = .pending ∨ row.state = .deliveryUnknown ∧ row.decision = some decision := by
  simp [Approval.dispatchable]

theorem isActive_of_dispatchable (h : row.dispatchable decision) : row.state.isActive := by
  rcases dispatchable_iff.1 h with hs | ⟨hs, _⟩ <;> rw [hs] <;> rfl

theorem follows_dispatch (hok : row.Ok) (hd : row.dispatchable decision) (userId : Uuid) (now : Nat) :
    Follows row (row.dispatch decision userId now) ∧ (row.dispatch decision userId now).Ok := by
  refine ⟨⟨rfl, fun hne => ?_, .inr ⟨isActive_of_dispatchable hd, ?_⟩⟩, ⟨nofun, fun _ => rfl⟩⟩
  · rcases dispatchable_iff.1 hd with hp | ⟨_, hdec⟩
    · exact absurd (hok.pending hp) hne
    · exact hdec.symm
  · change row.version < row.version + 1
    omega

theorem ne_of_inactive {state : ApprovalState} (h : state.isActive = false) : state ≠ .pending ∧ state ≠ .dispatching := by
  constructor <;> rintro rfl <;> cases h

theorem follows_settle (hact : row.state.isActive) (hs : state ≠ .pending ∧ state ≠ .dispatching) :
    Follows row (row.settle state) ∧ (row.settle state).Ok := by
  refine ⟨⟨rfl, fun _ => rfl, .inr ⟨hact, ?_⟩⟩, ⟨fun h => absurd h hs.1, fun h => absurd h hs.2⟩⟩
  change row.version < row.version + 1
  omega

theorem follows_resolve (hact : row.state.isActive) (hs : state.isActive = false) (now : Nat) :
    Follows row (row.resolve state now) ∧ (row.resolve state now).Ok := by
  obtain ⟨hp, hd⟩ := ne_of_inactive hs
  refine ⟨⟨rfl, fun _ => rfl, .inr ⟨hact, ?_⟩⟩, ⟨fun h => absurd h hp, fun h => absurd h hd⟩⟩
  change row.version < row.version + 1
  omega

variable {submission : Submission}

theorem not_pending_of_terminal
    (h : submit requestType payload submission = .ok (response, terminalState, decision)) :
    terminalState.isActive = false := by
  cases submission with
  | decision d =>
    simp only [submit, approvalResponse] at h
    cases hr : decisionResponse requestType payload d with
    | error => rw [hr] at h; cases h
    | ok =>
      rw [hr] at h
      cases d <;> cases h <;> rfl
  | answers =>
    simp only [submit] at h
    split at h <;> cases h
    rfl

variable {actor : ApprovalActor} {dispatch : ApprovalDispatch}

theorem awaits_iff : row.awaits actor dispatch ↔ row.organizationId = actor.organizationId ∧ row.Outstanding dispatch := by
  simp [Approval.awaits, Approval.Outstanding, and_assoc]

/-! ## The transactions, unpacked -/

structure Begun (db : Db) (actor : ApprovalActor) (submission : Submission) (now : Nat) (db' : Db)
    (dispatch : ApprovalDispatch) (row : Approval) : Prop where
  found : db.approvals.get dispatch.approvalId = some row
  organization : row.organizationId = actor.organizationId
  dispatchable : row.dispatchable dispatch.decision = true
  submitted : submit row.requestType row.requestPayload submission =
    .ok (dispatch.response, dispatch.terminalState, dispatch.decision)
  version : dispatch.dispatchVersion = row.version + 1
  written : db' = db.updateApproval dispatch.approvalId (fun _ => true) (·.dispatch dispatch.decision actor.userId now)

variable {self : ApprovalService}

theorem actorRow_some {id} (h : actorRow self actor id db = some row) :
    db.approvals.get id = some row ∧ row.organizationId = actor.organizationId := by
  obtain ⟨hrow, hp⟩ := filter_eq_some_iff.1 h
  simp only [Bool.and_eq_true, beq_iff_eq] at hp
  exact ⟨hrow, hp.1.1⟩

theorem beginDecision_ok {id}
    (h : beginDecision self actor id runtimeInstanceId request now db = .ok (db', dispatch)) :
    ∃ row, Begun db actor (.decision request.decision) now db' dispatch row := by
  unfold beginDecision at h
  split at h
  · cases h
  rename_i row hrow
  obtain ⟨hrow, horg⟩ := actorRow_some hrow
  split at h
  · cases h
  split at h
  · cases h
  rename_i response terminalState decision hresponse
  by_cases hd : row.dispatchable decision
  · simp only [hd, Bool.not_true, Bool.false_eq_true, if_false] at h
    cases h
    exact ⟨row, hrow, horg, hd, hresponse, rfl, rfl⟩
  · simp [hd] at h

theorem beginUserInputResponse_ok {id}
    (h : beginUserInputResponse self actor id runtimeInstanceId request now db = .ok (db', dispatch)) :
    ∃ row, Begun db actor (.answers request.answers) now db' dispatch row := by
  unfold beginUserInputResponse at h
  split at h
  · cases h
  rename_i row hrow
  obtain ⟨hrow, horg⟩ := actorRow_some hrow
  split at h
  · cases h
  rename_i hguard
  split at h
  · cases h
  rename_i htype
  split at h
  · cases h
  have hd : row.dispatchable .answered := by
    by_cases hd : row.dispatchable .answered
    · exact hd
    · exact absurd (.inr (.inr (by simpa using hd))) hguard
  have ht : row.requestType = .userInputRequest := by simpa using htype
  cases h
  exact ⟨row, hrow, horg, hd, by rw [submit, if_pos ht], rfl, rfl⟩

theorem resolvedRow_some {id} (h : resolvedRow self i threadId r db = some (id, row)) :
    db.approvals.get id = some row ∧ row.isRequest self.runtimeKey i r ∧ row.threadId = some threadId := by
  obtain ⟨hrow, hp⟩ := mem_select (List.mem_of_head? h)
  simp only [Bool.and_eq_true, beq_iff_eq] at hp
  exact ⟨hrow, hp.1, hp.2⟩

theorem resolvedTerminalState_some {state state' decision}
    (h : resolvedTerminalState state decision = some state') : state.isActive ∧ state'.isActive = false := by
  unfold resolvedTerminalState at h
  split at h
  · cases h
  rename_i hact
  refine ⟨by simpa using hact, ?_⟩
  rcases decision with _ | decision
  · cases h; rfl
  · cases decision <;> cases h <;> rfl

theorem resolveRuntimeRequest_ok {i threadId requestId now db db' resolved}
    (h : resolveRuntimeRequest self i threadId requestId now db = .ok (db', resolved)) :
    db' = db ∨ ∃ id row state, db.approvals.get id = some row ∧ row.state.isActive ∧ state.isActive = false ∧
      db' = db.updateApproval id (fun _ => true) (·.resolve state now) := by
  unfold resolveRuntimeRequest at h
  split at h
  · cases h
  split at h
  · cases h
  split at h
  · cases h
    exact .inl rfl
  rename_i id row hrow
  obtain ⟨hrow, -, -⟩ := resolvedRow_some hrow
  split at h
  · cases h
  simp only at h
  split at h
  · cases h
  split at h
  · rename_i state hstate
    cases h
    obtain ⟨hact, hstate⟩ := resolvedTerminalState_some hstate
    exact .inr ⟨id, row, state, hrow, hact, hstate, rfl⟩
  · cases h
    exact .inl rfl

/-! ## The steps -/

section steps

variable {s t : State}

theorem later_refl (db : Db) : Later db db := fun _ row hrow => ⟨row, hrow, .refl row⟩

theorem Good.update (h : Good s) {id} {p : Approval → Bool} {f : Approval → Approval}
    (hdb : db.approvals = (s.db.updateApproval id p f).approvals)
    (hrow : ∀ row, s.approval id = some row → p row → Follows row (f row) ∧ (f row).Ok)
    (hcur : ∀ c hd row, s.calls.get c = some (.handling hd) → hd.dispatch.approvalId = id → s.approval id = some row →
      p row → row.Outstanding hd.dispatch → (f row).state.isActive = false) :
    Good (s.setDb db) ∧ Later s.db db := by
  refine h.mapRows (fun j => (congrArg (·.get j) hdb).trans (get_updateApproval s.db id p f j)) (fun j row hj => ?_)
    fun c hd row hc hr ho => ?_
  · split
    · next hp =>
      exact hrow row (by rw [← hp.1]; exact hj) hp.2
    · exact ⟨.refl row, h.row j row hj⟩
  · split
    · next hp =>
      exact .inr (hcur c hd row hc hp.1 (by rw [← hp.1]; exact hr) hp.2 ho)
    · exact .inl ho

theorem Good.free (h : Good s) {id} (hrow : s.approval id = some row) (hd : row.dispatchable decision)
    (hc : s.calls.get c = some (.handling hd')) : hd'.dispatch.approvalId ≠ id := by
  intro hid
  subst hid
  have ho := (h.outstanding hc hrow (isActive_of_dispatchable hd)).1
  rcases dispatchable_iff.1 hd with hs | ⟨hs, _⟩ <;> cases ho.symm.trans hs

variable {call : Uuid}

theorem Good.begun (h : Good s) (hb : Begun s.db actor submission s.now db dispatch row) :
    Good ((s.setDb db).addCall call (.handling ⟨actor, submission, dispatch, .waiting⟩)) ∧ Later s.db db := by
  have hdb : db.approvals = (s.db.updateApproval dispatch.approvalId (fun _ => true)
      (·.dispatch dispatch.decision actor.userId s.now)).approvals := by rw [hb.written]
  obtain ⟨hgood, hlater⟩ := h.update hdb (fun row' hrow' _ => by
      have he : row' = row := some.inj (hrow'.symm.trans hb.found)
      rw [he]
      exact follows_dispatch (h.row _ row hb.found) hb.dispatchable _ _)
    (fun c hd _ hc hid _ _ _ => absurd hid (h.free hb.found hb.dispatchable hc))
  refine ⟨?_, hlater⟩
  have hrow : (s.setDb db).approval dispatch.approvalId = some (row.dispatch dispatch.decision actor.userId s.now) := by
    change db.approvals.get dispatch.approvalId = _
    rw [hdb, get_updateApproval, hb.found]
    simp
  refine hgood.addHandler hrow ⟨hb.submitted, rfl, hb.organization, .inl ⟨rfl, ?_⟩⟩ ?_
  · exact hb.version.symm
  · exact fun c h' hc => h.free hb.found hb.dispatchable hc

theorem Good.stepBegin (h : Good s)
    (hr : ∀ db dispatch, result = .ok (db, dispatch) → ∃ row, Begun s.db actor submission s.now db dispatch row) :
    Good (stepBegin s call actor submission result) ∧ Later s.db (stepBegin s call actor submission result).db := by
  cases result with
  | error => exact ⟨h.addCall call (by simp), later_refl s.db⟩
  | ok r =>
    obtain ⟨db, dispatch⟩ := r
    obtain ⟨_, hb⟩ := hr db dispatch rfl
    exact h.begun hb

section

variable (h : Good s) {hd : Handler} (hc : s.calls.get call = some (.handling hd))
include h hc

/-- The last transaction of a handler: it ends its call, and its row moves only if it awaits the handler. -/
theorem Good.settled (state : ApprovalState) (hs : state ≠ .pending ∧ state ≠ .dispatching)
    (hdb : db.approvals = (s.db.updateApproval hd.dispatch.approvalId (·.awaits hd.actor hd.dispatch) (·.settle state)).approvals) :
    Good ((s.setDb db).addCall call (.replied reply)) ∧ Later s.db db := by
  have hended : Good (s.addCall call (.replied reply)) := h.addCall call (by simp)
  have hact : ∀ row : Approval, row.awaits hd.actor hd.dispatch → row.state.isActive := by
    intro row hw
    rw [(awaits_iff.1 hw).2.1]
    rfl
  have hupdate := hended.update hdb (fun row _ hw => follows_settle (hact row hw) hs) fun c h' row hk hid hr hw _ => by
    -- the only handler of an active row is the one that has just ended
    rcases get_put_some hk with ⟨_, hcc⟩ | ⟨hne, hold⟩
    · cases hcc
    · exact absurd (h.alone call c hd h' row hc hold hid hr (hact row hw)) hne
  exact hupdate

theorem Good.stepComplete (hs : stepComplete s call hd = some t) : Good t ∧ Later s.db t.db := by
  obtain ⟨row, _, hb⟩ := h.handler call hd hc
  have hterm := ne_of_inactive (not_pending_of_terminal hb.submitted)
  unfold Approvals.stepComplete at hs
  split at hs
  · split at hs
    · rename_i db hdb
      cases hs
      unfold completeDecision at hdb
      split at hdb
      · cases hdb
        exact h.settled hc _ hterm rfl
      split at hdb <;> cases hdb
      have haudit : Good (s.setDb (s.db.audit hd.actor hd.dispatch "success")) :=
        ⟨h.row, h.unique, h.handler, h.alone, h.sent⟩
      exact ⟨haudit.addCall call (by simp), later_refl s.db⟩
    · cases hs
      exact ⟨h.addCall call (by simp), later_refl s.db⟩
  · cases hs

theorem Good.stepUnknown (hs : stepUnknown s call hd = some t) : Good t ∧ Later s.db t.db := by
  unfold Approvals.stepUnknown at hs
  split at hs <;> cases hs
  exact h.settled hc .deliveryUnknown (by decide) rfl

end

section

variable (h : Good s) (self : ApprovalService) (i : Uuid)
include h

theorem Good.stepResolve (threadId : Str) (requestId : Json) (call : Uuid) :
    Good (stepResolve s self i threadId requestId call) ∧ Later s.db (stepResolve s self i threadId requestId call).db := by
  unfold Approvals.stepResolve
  split
  · rename_i db resolved hr
    rcases resolveRuntimeRequest_ok hr with rfl | ⟨id, row, state, hrow, hact, hstate, rfl⟩
    · exact ⟨h.addCall call (by simp), later_refl s.db⟩
    have hupdate := h.update (p := fun _ => true) (f := (·.resolve state s.now)) rfl (fun row' hrow' _ => by
        have he : row' = row := some.inj (hrow'.symm.trans hrow)
        rw [he]
        exact follows_resolve hact hstate s.now)
      (fun _ _ _ _ _ _ _ _ => hstate)
    exact ⟨hupdate.1.addCall call (by simp), hupdate.2⟩
  · exact ⟨h.addCall call (by simp), later_refl s.db⟩

theorem Good.stepCancelStale : Good (s.setDb (cancelStaleRuntimeRequests self i s.now s.db)) ∧
      Later s.db (cancelStaleRuntimeRequests self i s.now s.db) := by
  have hget := fun j => get_updateAll (fun row : Approval => row.profile == self.runtimeKey && row.state.isActive &&
    row.runtimeInstanceId != some i) (·.resolve .cancelled s.now) j s.db.approvals
  refine h.mapRows hget (fun j row hj => ?_) fun c hd row _ _ ho => ?_
  · split
    · rename_i hp
      simp only [Bool.and_eq_true] at hp
      exact follows_resolve hp.1.2 rfl s.now
    · exact ⟨.refl row, h.row j row hj⟩
  · split
    · exact .inr rfl
    · exact .inl ho

theorem Good.stepCapture (message : Json) {id} (hid : s.approval id = none) :
    Good (stepCapture s self i message id) ∧ Later s.db (stepCapture s self i message id).db := by
  have hsame : Good s ∧ Later s.db s.db := ⟨h, later_refl s.db⟩
  unfold Approvals.stepCapture
  split
  · rename_i db _ hcap
    unfold captureMessage at hcap
    split at hcap
    · cases hcap
    · cases hcap; exact hsame
    rename_i captured _
    split at hcap
    · cases hcap; exact hsame
    rename_i hnone
    split at hcap
    · cases hcap
    rename_i profile _
    split at hcap <;> cases hcap
    constructor
    · refine h.insert (captured.row self profile i) hid rfl ⟨rfl, rfl⟩ ?_
      intro j row profile' i' r hrow hnew
      simp only [Approval.isRequest, Captured.row, Bool.and_eq_true, beq_iff_eq, some.injEq] at hnew
      obtain ⟨⟨rfl, rfl⟩, rfl⟩ := hnew
      by_contra hreq
      rw [Bool.not_eq_false] at hreq
      have hmem := mem_select_of_get hrow hreq
      rw [List.head?_eq_none_iff.1 hnone] at hmem
      cases hmem
    · intro j row hrow
      refine ⟨row, ?_, .refl row⟩
      have hj : j ≠ id := by
        rintro rfl
        rw [State.approval, hrow] at hid
        cases hid
      change (s.db.approvals.put id _).get j = some row
      rw [get_put_of_ne hj]
      exact hrow
  · exact hsame

end

theorem opening_some (h : opening s call u = some t) : u = t := by
  unfold opening at h
  split at h
  · cases h
  · exact some.inj h

theorem stepHandler_some {f : Handler → Option State} (h : stepHandler s call f = some t) :
    ∃ hd, s.calls.get call = some (.handling hd) ∧ f hd = some t := by
  unfold stepHandler at h
  split at h
  · rename_i hd hc
    exact ⟨hd, hc, h⟩
  · cases h

/-- **A step keeps the invariant and follows every row.** -/
theorem step_good (h : Good s) (hs : step s a = some t) : Good t ∧ Later s.db t.db := by
  cases a with
  | tick =>
    cases hs
    exact ⟨⟨h.row, h.unique, h.handler, h.alone, h.sent⟩, later_refl s.db⟩
  | captureMessage self i message id =>
    simp only [step] at hs
    split at hs
    · cases hs
    · rename_i hid
      cases hs
      exact h.stepCapture self i message (not_isSome_iff_eq_none.1 hid)
  | beginDecision =>
    rw [← opening_some hs]
    exact h.stepBegin fun db dispatch hr => beginDecision_ok hr
  | beginUserInputResponse =>
    rw [← opening_some hs]
    exact h.stepBegin fun db dispatch hr => beginUserInputResponse_ok hr
  | respondToServerRequest =>
    obtain ⟨hd, hc, hs⟩ := stepHandler_some hs
    unfold stepRespond at hs
    split at hs <;> cases hs
    exact ⟨h.respond hc _, later_refl s.db⟩
  | completeDecision =>
    obtain ⟨_, hc, hs⟩ := stepHandler_some hs
    exact h.stepComplete hc hs
  | markDeliveryUnknown =>
    obtain ⟨_, hc, hs⟩ := stepHandler_some hs
    exact h.stepUnknown hc hs
  | resolveRuntimeRequest self i threadId requestId call =>
    rw [← opening_some hs]
    exact h.stepResolve self i threadId requestId call
  | cancelStaleRuntimeRequests self i =>
    cases hs
    exact h.stepCancelStale self i

section

variable {s₀ : State} (h₀ : Good s₀) {as : List Action} (h : Transition.run step s₀ as = some s)
include h₀ h

theorem run_good : Good s :=
  Transition.run_invariant_of_step (fun _ _ _ hg hs => (step_good hg hs).1) h₀ h

theorem run_later : Later s₀.db s.db := by
  have hinv : Good s ∧ Later s₀.db s.db :=
    Transition.run_invariant_of_step (I := fun s => Good s ∧ Later s₀.db s.db)
      (fun _ _ _ hi hs => ⟨(step_good hi.1 hs).1, hi.2.trans (step_good hi.1 hs).2⟩) ⟨h₀, later_refl s₀.db⟩ h
  exact hinv.2

end

end steps

end Owc.Approvals
