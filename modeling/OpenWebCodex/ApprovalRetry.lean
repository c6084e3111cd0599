import OpenWebCodex.ApprovalGood
/-!
# ApprovalRetry — versions, dispatches and retries of one approval

What holds of one approval in every state of every run (`approval_run`): its version grows with every change, a settled
row is final, one dispatch is outstanding at most, and a superseded dispatch changes nothing.  A retry is compared with
the stored decision only, so the responses given to the Runtime are the same exactly where the submissions are the same
answer (`response_eq_iff`).
-/
namespace Owc.Approvals

open Transition Submission Option

/-! ## Which submissions have the same response -/

def Submission.accepts : Submission → Bool
  | .decision .accept | .decision .acceptForSession => true
  | .decision .decline | .decision .cancel | .answers _ => false

def Submission.rejects : Submission → Bool
  | .decision .decline | .decision .cancel => true
  | .decision .accept | .decision .acceptForSession | .answers _ => false

/-- Two submissions that the Runtime cannot tell apart: a permissions response does not say which of the two rejections
it is, nor an elicitation response which of the two acceptances. -/
def sameAnswer (requestType : RequestType) (a b : Submission) : Bool :=
  a == b || (requestType == .permissionsApproval && a.rejects && b.rejects) ||
    (requestType == .mcpElicitationRequest && a.accepts && b.accepts)

theorem answersResponse_injective : Function.Injective answersResponse := by
  intro a b h
  simp only [answersResponse, Json.object.injEq, List.cons.injEq, Prod.mk.injEq, and_true, true_and] at h
  refine List.map_injective_iff.2 ?_ h
  rintro ⟨j, xs⟩ ⟨k, ys⟩ he
  simp only [Prod.mk.injEq, Json.object.injEq, List.cons.injEq, Json.array.injEq, and_true, true_and] at he
  obtain ⟨hk, hv⟩ := he
  have hxy : xs = ys := List.map_injective_iff.2 (fun _ _ => Json.string.inj) hv
  rw [hk, hxy]

variable {requestType : RequestType} {stored : StoredDecision}

theorem submit_decision {payload response decision terminalState}
    (h : submit requestType payload (.decision decision) = .ok (response, terminalState, stored)) :
    decisionResponse requestType payload decision = .ok response ∧ decision.terminal = (terminalState, stored) := by
  simp only [submit, approvalResponse] at h
  cases hr : decisionResponse requestType payload decision with
  | error => rw [hr] at h; cases h
  | ok =>
    rw [hr] at h
    simp only [Except.map, Except.ok.injEq, Prod.mk.injEq] at h
    exact ⟨congrArg _ h.1, h.2⟩

theorem submit_answers {payload response answers terminalState}
    (h : submit requestType payload (.answers answers) = .ok (response, terminalState, stored)) :
    response = answersResponse answers ∧ terminalState = .answered ∧ stored = .answered := by
  simp only [submit] at h
  split at h <;> cases h
  exact ⟨rfl, rfl, rfl⟩

theorem decision_object_eq_iff (d d' : ApprovalDecision) :
    Json.object [("decision".toList, str d.name)] = .object [("decision".toList, str d'.name)] ↔ d = d' := by
  cases d <;> cases d' <;> decide

/-- Decisions that are stored alike are the same one, or the two acceptances, or the two rejections. -/
theorem stored_alike (d d' : ApprovalDecision) (h : d.terminal.2 = d'.terminal.2) :
    d = d' ∨ (d = .accept ∧ d' = .acceptForSession) ∨ (d = .acceptForSession ∧ d' = .accept) ∨
      (d = .decline ∧ d' = .cancel) ∨ (d = .cancel ∧ d' = .decline) := by
  revert h
  cases d <;> cases d' <;> decide

/-- Two decisions that are stored alike have one response exactly where they are one answer. -/
theorem decisionResponse_eq_iff
    (h : decisionResponse requestType payload d = .ok r) (h' : decisionResponse requestType payload d' = .ok r')
    (hstored : d.terminal.2 = d'.terminal.2) :
    r = r' ↔ sameAnswer requestType (.decision d) (.decision d') := by
  have hsame : d = d' → (r = r' ↔ sameAnswer requestType (.decision d) (.decision d')) := by
    rintro rfl
    have hr : r = r' := Except.ok.inj (h.symm.trans h')
    simp [hr, sameAnswer]
  cases requestType with
  | commandApproval | fileApproval =>
    cases h
    cases h'
    rw [decision_object_eq_iff]
    simp [sameAnswer]
  | permissionsApproval =>
    rcases stored_alike d d' hstored with he | ⟨rfl, rfl⟩ | ⟨rfl, rfl⟩ | ⟨rfl, rfl⟩ | ⟨rfl, rfl⟩
    · exact hsame he
    all_goals cases h; cases h'; simp [sameAnswer, permissionsResponse, str, rejects]
  | mcpElicitationRequest =>
    rcases stored_alike d d' hstored with he | ⟨rfl, rfl⟩ | ⟨rfl, rfl⟩ | ⟨rfl, rfl⟩ | ⟨rfl, rfl⟩
    · exact hsame he
    iterate 2
      rw [Except.ok.inj (h.symm.trans h')]
      simp [sameAnswer, accepts]
    all_goals cases h; cases h'; simp [sameAnswer, elicitationResponse, str, accepts]
  | userInputRequest => cases h

/-- **Responses and submissions**: of two submissions on one request with one stored decision, the responses are the
same exactly where the submissions are the same answer. -/
theorem response_eq_iff (ha : submit requestType payload a = .ok (r, t, stored))
    (hb : submit requestType payload b = .ok (r', t', stored)) : r = r' ↔ sameAnswer requestType a b := by
  have hne : ∀ d : ApprovalDecision, d.terminal.2 ≠ .answered := by intro d; cases d <;> decide
  cases a with
  | decision d =>
    obtain ⟨hr, ht⟩ := submit_decision ha
    cases b with
    | decision =>
      obtain ⟨hr', ht'⟩ := submit_decision hb
      exact decisionResponse_eq_iff hr hr' (by rw [ht, ht'])
    | answers =>
      obtain ⟨-, -, hs⟩ := submit_answers hb
      exact absurd (by rw [ht, hs]) (hne d)
  | answers =>
    obtain ⟨rfl, -, hs⟩ := submit_answers ha
    cases b with
    | decision d' =>
      obtain ⟨-, ht'⟩ := submit_decision hb
      exact absurd (by rw [ht', hs]) (hne d')
    | answers =>
      obtain ⟨rfl, -, -⟩ := submit_answers hb
      simp [sameAnswer, accepts, rejects, answersResponse_injective.eq_iff]

/-! ## Superseded dispatches -/

variable {row : Approval}

/-- A dispatch that is not outstanding has nothing left to write. -/
theorem settle_of_not_outstanding {db : Db} {actor : ApprovalActor} {dispatch : ApprovalDispatch}
    (hrow : db.approvals.get dispatch.approvalId = some row) (ho : ¬ row.Outstanding dispatch) (state : ApprovalState) :
    (db.updateApproval dispatch.approvalId (·.awaits actor dispatch) (·.settle state)).approvals = db.approvals := by
  refine Table.updateWhere_of_not_holds _ ?_
  rw [Bool.eq_false_iff]
  intro hh
  obtain ⟨_, hrow', hw⟩ := Table.holds_iff.1 hh
  cases hrow.symm.trans hrow'
  exact ho (awaits_iff.1 hw).2

theorem superseded_keeps {s t : State} {c : Uuid} {hd : Handler} {a : Action}
    (hc : s.calls.get c = some (.handling hd)) (hrow : s.approval hd.dispatch.approvalId = some row)
    (ho : ¬ row.Outstanding hd.dispatch) (ha : a = .completeDecision c ∨ a = .markDeliveryUnknown c)
    (hs : step s a = some t) : t.db.approvals = s.db.approvals := by
  rcases ha with rfl | rfl
  · obtain ⟨_, hc', hs⟩ := stepHandler_some hs
    cases hc.symm.trans hc'
    unfold stepComplete at hs
    split at hs
    · split at hs
      · rename_i db hdb
        cases hs
        unfold completeDecision at hdb
        split at hdb
        · cases hdb
          exact settle_of_not_outstanding hrow ho _
        · split at hdb <;> cases hdb
          rfl
      · cases hs; rfl
    · cases hs
  · obtain ⟨_, hc', hs⟩ := stepHandler_some hs
    cases hc.symm.trans hc'
    unfold stepUnknown at hs
    split at hs <;> cases hs
    exact settle_of_not_outstanding hrow ho _

theorem Good.superseded (h : Good s)
    (hc : s.calls.get c = some (.handling hd)) (hrow : s.approval hd.dispatch.approvalId = some row)
    (hs : step s a = some t) (hchange : t.approval hd.dispatch.approvalId ≠ some row)
    (hu : run step t bs = some u) :
    ∃ row', u.approval hd.dispatch.approvalId = some row' ∧ ¬ row'.Outstanding hd.dispatch := by
  obtain ⟨ht, hlater⟩ := step_good h hs
  obtain ⟨row₁, hrow₁, hf₁⟩ := hlater _ row hrow
  obtain ⟨row₂, hrow₂, hf₂⟩ := run_later ht hu _ row₁ hrow₁
  refine ⟨row₂, hrow₂, fun ho => ?_⟩
  rcases hf₁.moved with rfl | ⟨hact, hlt⟩
  · exact hchange hrow₁
  have hv := (h.outstanding hc hrow hact).2
  have hle := hf₂.version_le
  have ho₂ := ho.2
  omega

def SameResponses (s : State) (id : Uuid) : Prop :=
  ∀ e ∈ s.sent, ∀ e' ∈ s.sent, e.approvalId = id → e'.approvalId = id → e.response = e'.response

def SameAnswers (s : State) (id : Uuid) (requestType : RequestType) : Prop :=
  ∀ e ∈ s.sent, ∀ e' ∈ s.sent, e.approvalId = id → e'.approvalId = id →
    sameAnswer requestType e.submission e'.submission = true

theorem Good.sameResponses_iff (h : Good s) {id} (hrow : s.approval id = some row) :
    SameResponses s id ↔ SameAnswers s id row.requestType := by
  refine forall₄_congr fun e he e' he' => forall₂_congr fun hid hid' => ?_
  obtain ⟨_, hrow₁, t, d, hs, hd⟩ := h.sent e he
  obtain ⟨_, hrow₂, _, _, hs', hd'⟩ := h.sent e' he'
  rw [hid] at hrow₁
  rw [hid'] at hrow₂
  cases hrow.symm.trans hrow₁
  cases hrow.symm.trans hrow₂
  cases hd.symm.trans hd'
  exact response_eq_iff hs hs'

/-- **One approval, in every state of every run.**  A step leaves the row or raises its version, and leaves it where it is
settled; two handlers whose dispatch is outstanding are one; once a step has changed the row under a handler's dispatch,
completing it or marking it unknown never writes a row again; and the responses given to the Runtime are the same exactly
where the submissions are the same answer. -/
theorem approval_run {s₀ s : State} (h₀ : Fresh s₀) {as : List Action} (h : run step s₀ as = some s) {id : Uuid}
    {row : Approval} (hrow : s.approval id = some row) :
    (∀ a t, step s a = some t → ∃ row', t.approval id = some row' ∧
      (row' = row ∨ (row.state.isActive = true ∧ row.version < row'.version))) ∧
    (∀ c c' hd hd', s.calls.get c = some (.handling hd) → s.calls.get c' = some (.handling hd') →
      hd.dispatch.approvalId = id → hd'.dispatch.approvalId = id → row.Outstanding hd.dispatch →
      row.Outstanding hd'.dispatch → c' = c) ∧
    (∀ c hd a t, s.calls.get c = some (.handling hd) → hd.dispatch.approvalId = id → step s a = some t →
      t.approval id ≠ some row → ∀ bs u b v, run step t bs = some u → u.calls.get c = some (.handling hd) →
      b = .completeDecision c ∨ b = .markDeliveryUnknown c → step u b = some v → v.db.approvals = u.db.approvals) ∧
    (SameResponses s id ↔ SameAnswers s id row.requestType) := by
  have hg : Good s := run_good h₀.good h
  refine ⟨?_, ?_, ?_, hg.sameResponses_iff hrow⟩
  · intro a t hs
    obtain ⟨row', hrow', hf⟩ := (step_good hg hs).2 id row hrow
    exact ⟨row', hrow', hf.moved⟩
  · intro c c' hd hd' hc hc' hid hid' ho _
    have hact : row.state.isActive = true := by rw [ho.1]; rfl
    exact hg.alone c c' hd hd' row hc hc' (hid'.trans hid.symm) (by rw [hid]; exact hrow) hact
  · intro c hd a t hc hid hs hchange bs u b v hu hcu hb hv
    subst hid
    obtain ⟨_, hrow', ho⟩ := hg.superseded hc hrow hs hchange hu
    exact superseded_keeps hcu hrow' ho hb hv

/-! ## Sample runs -/

def retriedRun (first second : ApprovalDecision) : List Action :=
  decidedRun first false ++ [.markDeliveryUnknown 1, .beginDecision sampleSelf sampleActor 0 5 ⟨second, 2⟩ 2,
    .respondToServerRequest 2 true]

theorem approval_run_retried : ∃ s, run step sampleState (retriedRun .accept .accept) = some s ∧
    s.sent.length = 2 ∧ SameResponses s 0 := by
  obtain ⟨s, hs⟩ := isSome_iff_exists.1
    (show (run step sampleState (retriedRun .accept .accept)).isSome by decide)
  have hall : (run step sampleState (retriedRun .accept .accept)).all (fun s =>
      s.sent.length == 2 && (s.approval 0).any fun row => s.sent.all fun e => s.sent.all fun e' =>
        sameAnswer row.requestType e.submission e'.submission) = true := by decide
  rw [hs, all_some, Bool.and_eq_true, beq_iff_eq] at hall
  cases hrow : s.approval 0 with
  | none => rw [hrow] at hall; cases hall.2
  | some =>
    have hsame := hall.2
    rw [hrow, any_some] at hsame
    refine ⟨s, hs, hall.1, (approval_run sampleState_fresh hs hrow).2.2.2.2 fun e he e' he' _ _ => ?_⟩
    exact List.all_eq_true.1 (List.all_eq_true.1 hsame e he) e' he'

/-- **A retry can send another answer**: the acceptance whose delivery is unknown is followed by an acceptance for the
session, and a rejection by a cancellation. -/
theorem retry_sends_another_answer : Fresh sampleState ∧
    (run step sampleState (retriedRun .accept .acceptForSession)).any (fun s =>
      s.sent.any (fun e => s.sent.any (fun e' => e.approvalId == e'.approvalId && e.response != e'.response))) = true ∧
    (run step sampleState (retriedRun .decline .cancel)).any (fun s =>
      s.sent.any (fun e => s.sent.any (fun e' => e.approvalId == e'.approvalId && e.response != e'.response))) = true :=
  ⟨sampleState_fresh, by decide, by decide⟩

end Owc.Approvals
