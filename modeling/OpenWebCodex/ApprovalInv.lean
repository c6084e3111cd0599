import OpenWebCodex.ApprovalStep
/-!
# ApprovalInv — what every run of approvals keeps

A step follows every row: its request stays, a decision once stored stays, and the row stays or, being active, moves to
a higher version (`Follows`).  In every state of a run a handler's dispatch is outstanding on its row or the row is
settled (`Good.handler`), and at most one handler has an active row (`Good.alone`).
-/
namespace Owc.Approvals

/-- What a submission on a request comes to: the response, the terminal state and the stored decision. -/
def submit (requestType : RequestType) (payload : Json) :
    Submission → Except ApprovalServiceError (Json × ApprovalState × StoredDecision)
  | .decision decision => approvalResponse requestType payload decision
  | .answers answers =>
    if requestType = .userInputRequest then .ok (answersResponse answers, .answered, .answered) else .error .invalid

/-- The columns that no transaction writes. -/
def Approval.request (row : Approval) : RequestType × Json × Uuid × Str × Option Str × Option Uuid × RequestId :=
  (row.requestType, row.requestPayload, row.organizationId, row.profile, row.threadId, row.runtimeInstanceId,
    row.runtimeRequestId)

/-- `row'` is `row` after a step. -/
structure Follows (row row' : Approval) : Prop where
  request : row'.request = row.request
  decision : row.decision ≠ none → row'.decision = row.decision
  moved : row' = row ∨ (row.state.isActive = true ∧ row.version < row'.version)

theorem Follows.refl (row : Approval) : Follows row row := ⟨rfl, fun _ => rfl, .inl rfl⟩

variable {row row' : Approval}

theorem Follows.of_inactive (h : Follows row row') (hrow : row.state.isActive = false) : row' = row := by
  rcases h.moved with hm | ⟨hm, _⟩
  · exact hm
  · rw [hrow] at hm
    cases hm

theorem Follows.version_le (h : Follows row row') : row.version ≤ row'.version := by
  rcases h.moved with hm | ⟨_, hm⟩
  · exact Int.le_of_eq (by rw [hm])
  · omega

theorem Follows.trans (h₁ : Follows row₁ row₂) (h₂ : Follows row₂ row₃) : Follows row₁ row₃ := by
  refine ⟨h₂.request.trans h₁.request, fun hd => ?_, ?_⟩
  · have h12 := h₁.decision hd
    rw [← h12]
    apply h₂.decision
    rwa [h12]
  · rcases h₁.moved with hm | ⟨ha, hv⟩
    · rw [← hm]
      exact h₂.moved
    · have := h₂.version_le
      exact .inr ⟨ha, by omega⟩

theorem Follows.isRequest (h : Follows row row') (profile : Str) (i : Uuid) (r : RequestId) :
    row'.isRequest profile i r = row.isRequest profile i r := by
  have hr := h.request
  simp only [Approval.request, Prod.mk.injEq] at hr
  simp only [Approval.isRequest, hr]

theorem Follows.submit (h : Follows row row') (submission : Submission) :
    submit row'.requestType row'.requestPayload submission = submit row.requestType row.requestPayload submission := by
  have hr := h.request
  simp only [Approval.request, Prod.mk.injEq] at hr
  simp only [hr]

def Later (db db' : Db) : Prop :=
  ∀ id row, db.approvals.get id = some row → ∃ row', db'.approvals.get id = some row' ∧ Follows row row'

theorem Later.trans (h₁ : Later db₁ db₂) (h₂ : Later db₂ db₃) : Later db₁ db₃ := by
  intro id row hrow
  obtain ⟨row₂, hrow₂, hf₁⟩ := h₁ id row hrow
  obtain ⟨row₃, hrow₃, hf₂⟩ := h₂ id row₂ hrow₂
  exact ⟨row₃, hrow₃, hf₁.trans hf₂⟩

/-! ## The invariant -/

def Approval.Outstanding (row : Approval) (dispatch : ApprovalDispatch) : Prop :=
  row.state = .dispatching ∧ row.version = dispatch.dispatchVersion

/-- A pending row is undecided; a row being dispatched is decided. -/
structure Approval.Ok (row : Approval) : Prop where
  pending : row.state = .pending → row.decision = none
  decided : row.state = .dispatching → row.decidedAt.isSome

structure Bears (row : Approval) (h : Handler) : Prop where
  submitted : submit row.requestType row.requestPayload h.submission =
    .ok (h.dispatch.response, h.dispatch.terminalState, h.dispatch.decision)
  decision : row.decision = some h.dispatch.decision
  organization : row.organizationId = h.actor.organizationId
  current : row.Outstanding h.dispatch ∨ row.state.isActive = false

def Answered (row : Approval) (e : Sent) : Prop :=
  ∃ terminalState decision, submit row.requestType row.requestPayload e.submission =
    .ok (e.response, terminalState, decision) ∧ row.decision = some decision

structure Good (s : State) : Prop where
  row : ∀ id row, s.approval id = some row → row.Ok
  unique : ∀ id id' row row' profile i r, s.approval id = some row → s.approval id' = some row' →
    row.isRequest profile i r = true → row'.isRequest profile i r = true → id' = id
  handler : ∀ c h, s.calls.get c = some (.handling h) → ∃ row, s.approval h.dispatch.approvalId = some row ∧ Bears row h
  alone : ∀ c c' h h' row, s.calls.get c = some (.handling h) → s.calls.get c' = some (.handling h') →
    h'.dispatch.approvalId = h.dispatch.approvalId → s.approval h.dispatch.approvalId = some row →
    row.state.isActive = true → c' = c
  sent : ∀ e ∈ s.sent, ∃ row, s.approval e.approvalId = some row ∧ Answered row e

theorem Fresh.good (h : Fresh s) : Good s := by
  have hrow : ∀ id, s.approval id = none := fun id => by rw [State.approval, h.approvals]; rfl
  have hcall : ∀ c, s.calls.get c = none := fun c => by rw [h.calls]; rfl
  constructor <;> simp [hrow, hcall, h.sent]

section keeps

variable {s : State}

section

variable (h : Good s) {c : Uuid} {hd : Handler} {row : Approval} (hc : s.calls.get c = some (.handling hd))
  (hrow : s.approval hd.dispatch.approvalId = some row)
include h hc hrow

theorem Good.bears : Bears row hd := by
  obtain ⟨_, hrow', _⟩ := h.handler c hd hc
  rwa [Option.some.inj (hrow.symm.trans hrow')]

theorem Good.outstanding (hact : row.state.isActive) : row.Outstanding hd.dispatch := by
  have hb := h.bears hc hrow
  rcases hb.current with ho | hi
  · exact ho
  · rw [hact] at hi
    cases hi

end

theorem Bears.follows (hb : Bears row hd) (hf : Follows row row')
    (hcur : row.Outstanding hd.dispatch → row'.Outstanding hd.dispatch ∨ row'.state.isActive = false) : Bears row' hd := by
  have hr := hf.request
  simp only [Approval.request, Prod.mk.injEq] at hr
  refine ⟨by rw [hf.submit]; exact hb.submitted, ?_, by rw [hr.2.2.1]; exact hb.organization, ?_⟩
  · rw [hf.decision (by rw [hb.decision]; nofun), hb.decision]
  · rcases hb.current with ho | hi
    · exact hcur ho
    · rw [hf.of_inactive hi]
      exact .inr hi

theorem Answered.follows {e} (h : Answered row e) (hf : Follows row row') : Answered row' e := by
  obtain ⟨terminalState, decision, hs, hd⟩ := h
  refine ⟨terminalState, decision, by rw [hf.submit]; exact hs, ?_⟩
  rw [hf.decision (by rw [hd]; nofun), hd]

/-- **The rows rewritten one by one**, none of them away from a handler that its row awaits. -/
theorem Good.mapRows (h : Good s) {g : Uuid → Approval → Approval}
    (hget : ∀ id, db.approvals.get id = (s.approval id).map (g id))
    (hfollow : ∀ id row, s.approval id = some row → Follows row (g id row) ∧ (g id row).Ok)
    (hcur : ∀ c hd row, s.calls.get c = some (.handling hd) → s.approval hd.dispatch.approvalId = some row →
      row.Outstanding hd.dispatch → (g hd.dispatch.approvalId row).Outstanding hd.dispatch ∨
        (g hd.dispatch.approvalId row).state.isActive = false) :
    Good (s.setDb db) ∧ Later s.db db := by
  have hnew : ∀ id row, s.approval id = some row → (s.setDb db).approval id = some (g id row) := by
    intro id row hrow
    change db.approvals.get id = _
    rw [hget, hrow]
    rfl
  have hback : ∀ id row', (s.setDb db).approval id = some row' → ∃ row, s.approval id = some row ∧ g id row = row' := by
    intro id row' hrow'
    change db.approvals.get id = _ at hrow'
    rw [hget] at hrow'
    exact Option.map_eq_some_iff.1 hrow'
  refine ⟨?_, fun id row hrow => ⟨_, hnew id row hrow, (hfollow id row hrow).1⟩⟩
  constructor
  · intro id row' hrow'
    obtain ⟨row, hrow, rfl⟩ := hback id row' hrow'
    exact (hfollow id row hrow).2
  · intro id id' row₁ row₂ profile i r h₁ h₂ hr₁ hr₂
    obtain ⟨old₁, ho₁, rfl⟩ := hback id row₁ h₁
    obtain ⟨old₂, ho₂, rfl⟩ := hback id' row₂ h₂
    rw [(hfollow id old₁ ho₁).1.isRequest] at hr₁
    rw [(hfollow id' old₂ ho₂).1.isRequest] at hr₂
    exact h.unique id id' old₁ old₂ profile i r ho₁ ho₂ hr₁ hr₂
  · intro c hd hc
    obtain ⟨row, hrow, hb⟩ := h.handler c hd hc
    exact ⟨_, hnew _ row hrow, hb.follows (hfollow _ row hrow).1 (hcur c hd row hc hrow)⟩
  · intro c c' hd hd' row' hc hc' hid hrow' hact
    obtain ⟨row, hrow, rfl⟩ := hback _ row' hrow'
    refine h.alone c c' hd hd' row hc hc' hid hrow ?_
    rcases (hfollow _ row hrow).1.moved with hm | ⟨ha, _⟩
    · rwa [hm] at hact
    · exact ha
  · intro e he
    obtain ⟨row, hrow, ha⟩ := h.sent e he
    exact ⟨_, hnew _ row hrow, ha.follows (hfollow _ row hrow).1⟩

theorem Good.addCall (h : Good s) (call : Uuid) (hc : ∀ hd, c ≠ .handling hd) : Good (s.addCall call c) := by
  have hold : ∀ k hd, (s.addCall call c).calls.get k = some (.handling hd) → s.calls.get k = some (.handling hd) := by
    intro k hd hk
    rcases Table.get_put_some hk with ⟨_, hcc⟩ | ⟨_, hk⟩
    · exact absurd hcc.symm (hc hd)
    · exact hk
  exact ⟨h.row, h.unique, fun k hd hk => h.handler k hd (hold k hd hk),
    fun k k' hd hd' row hk hk' => h.alone k k' hd hd' row (hold k hd hk) (hold k' hd' hk'), h.sent⟩

theorem Good.addHandler (h : Good s) (hrow : s.approval hd.dispatch.approvalId = some row) (hb : Bears row hd)
    (hfree : ∀ c h', s.calls.get c = some (.handling h') → h'.dispatch.approvalId ≠ hd.dispatch.approvalId) :
    Good (s.addCall call (.handling hd)) := by
  have hcases : ∀ k h', (s.addCall call (.handling hd)).calls.get k = some (.handling h') →
      (k = call ∧ h' = hd) ∨ s.calls.get k = some (.handling h') := by
    intro k h' hk
    rcases Table.get_put_some hk with ⟨hkc, hcc⟩ | ⟨_, hk⟩
    · cases hcc
      exact .inl ⟨hkc, rfl⟩
    · exact .inr hk
  refine ⟨h.row, h.unique, ?_, ?_, h.sent⟩
  · intro k h' hk
    rcases hcases k h' hk with ⟨_, rfl⟩ | hk
    · exact ⟨row, hrow, hb⟩
    · exact h.handler k h' hk
  · intro k k' h₁ h₂ row' hk hk' hid hrow' hact
    rcases hcases k h₁ hk with ⟨rfl, rfl⟩ | hold
    · rcases hcases k' h₂ hk' with ⟨rfl, _⟩ | hold'
      · rfl
      · exact absurd hid (hfree k' h₂ hold')
    · rcases hcases k' h₂ hk' with ⟨_, rfl⟩ | hold'
      · exact absurd hid.symm (hfree k h₁ hold)
      · exact h.alone k k' h₁ h₂ row' hold hold' hid hrow' hact

theorem Good.respond (h : Good s) (hc : s.calls.get call = some (.handling hd)) (delivery : Delivery) :
    Good { s.addCall call (.handling { hd with delivery := delivery }) with
      sent := ⟨hd.dispatch.approvalId, hd.submission, hd.dispatch.response⟩ :: s.sent } := by
  have hcases : ∀ k h', (s.calls.put call (.handling { hd with delivery := delivery })).get k = some (.handling h') →
      ∃ old, s.calls.get k = some (.handling old) ∧ h' = { old with delivery := h'.delivery } := by
    intro k h' hk
    rcases Table.get_put_some hk with ⟨rfl, hcc⟩ | ⟨_, hk⟩
    · cases hcc
      exact ⟨hd, hc, rfl⟩
    · exact ⟨h', hk, rfl⟩
  obtain ⟨row, hrow, hb⟩ := h.handler call hd hc
  refine ⟨h.row, h.unique, ?_, ?_, ?_⟩
  · intro k h' hk
    obtain ⟨old, hold, he⟩ := hcases k h' hk
    obtain ⟨row', hrow', hb'⟩ := h.handler k old hold
    rw [he]
    exact ⟨row', hrow', ⟨hb'.submitted, hb'.decision, hb'.organization, hb'.current⟩⟩
  · intro k k' h₁ h₂ row' hk hk' hid hrow' hact
    obtain ⟨old₁, hold₁, he₁⟩ := hcases k h₁ hk
    obtain ⟨old₂, hold₂, he₂⟩ := hcases k' h₂ hk'
    rw [he₁] at hid hrow'
    rw [he₂] at hid
    exact h.alone k k' old₁ old₂ row' hold₁ hold₂ hid hrow' hact
  · intro e he
    rcases List.mem_cons.1 he with rfl | he
    · exact ⟨row, hrow, hd.dispatch.terminalState, hd.dispatch.decision, hb.submitted, hb.decision⟩
    · exact h.sent e he

theorem Good.insert (h : Good s) {id} (new : Approval) (hid : s.approval id = none)
    (hdb : db.approvals = s.db.approvals.put id new) (hnew : new.state = .pending ∧ new.decision = none)
    (hunique : ∀ j row profile i r, s.approval j = some row → new.isRequest profile i r → row.isRequest profile i r = false) :
    Good (s.setDb db) := by
  have hold : ∀ j row, s.approval j = some row → (s.setDb db).approval j = some row := by
    intro j row hrow
    change db.approvals.get j = some row
    rw [hdb, Table.get_put]
    by_cases hj : j = id
    · rw [hj, hid] at hrow
      cases hrow
    · rw [if_neg hj]
      exact hrow
  have hback : ∀ j row, (s.setDb db).approval j = some row → (j = id ∧ row = new) ∨ s.approval j = some row := by
    intro j row hrow
    change db.approvals.get j = some row at hrow
    rw [hdb] at hrow
    exact (Table.get_put_some hrow).imp_right (·.2)
  constructor
  · intro j row hrow
    rcases hback j row hrow with ⟨_, rfl⟩ | hrow
    · exact ⟨fun _ => hnew.2, fun hst => by rw [hnew.1] at hst; cases hst⟩
    · exact h.row j row hrow
  · intro j j' row row' profile i r hrow hrow' hr hr'
    rcases hback j row hrow with ⟨rfl, rfl⟩ | hold₁
    · rcases hback j' row' hrow' with ⟨rfl, _⟩ | hold₂
      · rfl
      · rw [hunique j' row' profile i r hold₂ hr] at hr'
        cases hr'
    · rcases hback j' row' hrow' with ⟨_, rfl⟩ | hold₂
      · rw [hunique j row profile i r hold₁ hr'] at hr
        cases hr
      · exact h.unique j j' row row' profile i r hold₁ hold₂ hr hr'
  · intro c hd hc
    obtain ⟨row, hrow, hb⟩ := h.handler c hd hc
    exact ⟨row, hold _ row hrow, hb⟩
  · intro c c' hd hd' row hc hc' he hrow hact
    obtain ⟨row', hrow', _⟩ := h.handler c hd hc
    have hsame := hold _ row' hrow'
    rw [hrow, Option.some.injEq] at hsame
    subst hsame
    exact h.alone c c' hd hd' row hc hc' he hrow' hact
  · intro e he
    obtain ⟨row, hrow, ha⟩ := h.sent e he
    exact ⟨row, hold _ row hrow, ha⟩

end keeps

end Owc.Approvals
