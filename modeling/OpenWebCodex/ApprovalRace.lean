import OpenWebCodex.ApprovalRetry
/-!
# ApprovalRace — the resolution and the completion of a dispatched decision

A delivered dispatch is completed by its handler and resolved by the Runtime's notification, in either order.  Whichever
comes first settles the row and the other finds it settled, so the order shows exactly where the two settle it
differently: an outstanding cancellation is completed as cancelled and resolved as rejected (`resolution_order_iff`).
-/
namespace Owc.Approvals

open Transition Approval Table Bool Option

/-! ## Calls along a run -/

/-- **What a step does to a call**: it leaves it, or the call is a handler that gives its response to the Runtime or
replies. -/
theorem step_call (hs : step s a = some t) (hk : s.calls.get k = some call) : t.calls.get k = some call ∨
      ∃ hd, call = .handling hd ∧ (hd.delivery = .waiting ∨ ∃ reply, t.calls.get k = some (.replied reply)) := by
  have hput : ∀ c x, c ≠ k → (s.calls.put c x).get k = some call := by
    intro c x hne
    rw [get_put_of_ne hne.symm]
    exact hk
  have hopen : ∀ {c u}, opening s c u = some t → c ≠ k ∧ u = t := by
    intro c u ho
    refine ⟨?_, opening_some ho⟩
    rintro rfl
    simp [opening, hk] at ho
  have hreply : ∀ {c hd reply}, s.calls.get c = some (.handling hd) →
      t.calls = s.calls.put c (.replied reply) → t.calls.get k = some call ∨
        ∃ hd, call = .handling hd ∧ (hd.delivery = .waiting ∨ ∃ reply, t.calls.get k = some (.replied reply)) := by
    intro c hd reply hc ht
    rw [ht]
    by_cases hne : c = k
    · subst hne
      exact .inr ⟨hd, some.inj (hk.symm.trans hc), .inr ⟨reply, get_put_self _ _ _⟩⟩
    · exact .inl (hput c _ hne)
  cases a with
  | tick => cases hs; exact .inl hk
  | captureMessage =>
    simp only [step] at hs
    split at hs <;> cases hs
    unfold stepCapture
    split <;> exact .inl hk
  | beginDecision self actor id i request c | beginUserInputResponse self actor id i request c =>
    obtain ⟨hne, rfl⟩ := hopen hs
    unfold stepBegin
    split <;> exact .inl (hput c _ hne)
  | respondToServerRequest c delivered =>
    obtain ⟨hd, hc, hs⟩ := stepHandler_some hs
    unfold stepRespond at hs
    split at hs
    · rename_i hwait
      cases hs
      by_cases hne : c = k
      · subst hne
        exact .inr ⟨hd, some.inj (hk.symm.trans hc), .inl hwait⟩
      · exact .inl (hput c _ hne)
    · cases hs
  | completeDecision =>
    obtain ⟨hd, hc, hs⟩ := stepHandler_some hs
    unfold stepComplete at hs
    repeat' split at hs
    all_goals cases hs
    all_goals exact hreply hc rfl
  | markDeliveryUnknown =>
    obtain ⟨_, hc, hs⟩ := stepHandler_some hs
    unfold stepUnknown at hs
    split at hs <;> cases hs
    exact hreply hc rfl
  | resolveRuntimeRequest self i threadId requestId c =>
    obtain ⟨hne, rfl⟩ := hopen hs
    unfold stepResolve
    split <;> exact .inl (hput c _ hne)
  | cancelStaleRuntimeRequests => cases hs; exact .inl hk

variable {as : List Action}

theorem run_keeps_answer (hs : run step s as = some t)
    (hcall : ∀ hd, call ≠ .handling hd) (hk : s.calls.get k = some call) : t.calls.get k = some call := by
  refine run_invariant_of_step (I := fun s => s.calls.get k = some call) (fun s a t hi h => ?_) hk hs
  exact (step_call h hi).resolve_right fun ⟨hd, he, _⟩ => hcall hd he

/-- A handler whose response was delivered stays as it is until it replies. -/
theorem run_keeps_delivered (hs : run step s as = some t) (hdel : hd.delivery = .delivered) (hc : s.calls.get c = some (.handling hd)) :
    t.calls.get c = some (.handling hd) ∨ ∃ reply, t.calls.get c = some (.replied reply) := by
  refine run_invariant_of_step
    (I := fun s => s.calls.get c = some (.handling hd) ∨ ∃ reply, s.calls.get c = some (.replied reply)) ?_ (.inl hc) hs
  rintro s a t (hk | ⟨reply, hk⟩) h
  · rcases step_call h hk with hk | ⟨hd', he, hw | hr⟩
    · exact .inl hk
    · cases he
      simp [hdel] at hw
    · exact .inr hr
  · exact .inr ⟨reply, (step_call h hk).resolve_right (by simp)⟩

/-! ## Settling a row -/

def completeReply (row : Approval) (dispatch : ApprovalDispatch) : Reply :=
  if row.state = dispatch.terminalState then .noContent else .failed .conflict

def resolution (id : Uuid) (threadId : Str) (row : Approval) : Except ApprovalServiceError (Option ResolvedApproval) :=
  match approvalOutcome row.state with
  | none => .error .invalid
  | some outcome => .ok (some ⟨id, threadId, payloadField row.requestPayload "turnId",
      payloadField row.requestPayload "itemId", outcome⟩)

/-- The notification that the Runtime has resolved the row's request. -/
structure Names (service : ApprovalService) (i : Uuid) (thread : Str) (requestId : Json) (row : Approval) : Prop where
  named : thread.trim.isEmpty = false
  request : ∃ r, RequestId.ofJson requestId = some r ∧ row.isRequest service.runtimeKey i r = true
  threadId : row.threadId = some thread

theorem Names.follows
    (h : Names self i thread requestId row) (hf : Follows row row') : Names self i thread requestId row' := by
  obtain ⟨r, hr, hreq⟩ := h.request
  have hs := hf.request
  simp only [Approval.request, Prod.mk.injEq] at hs
  refine ⟨h.named, ⟨r, hr, by rw [hf.isRequest]; exact hreq⟩, ?_⟩
  rw [hs.2.2.2.2.1]
  exact h.threadId

section settling

variable {s t : State} {c k : Uuid} {hd : Handler} {row : Approval} {self : ApprovalService} {i : Uuid} {thread : Str}
  {requestId : Json}

theorem Good.resolvedRow_eq (h : Good s) {id} (hrow : s.approval id = some row) (hn : Names self i thread requestId row) :
    ∃ r, RequestId.ofJson requestId = some r ∧ resolvedRow self i thread r s.db = some (id, row) := by
  obtain ⟨r, hr, hreq⟩ := hn.request
  refine ⟨r, hr, ?_⟩
  have hmem := mem_select_of_get (p := fun row => row.isRequest self.runtimeKey i r && row.threadId == some thread)
    hrow (by rw [hreq, hn.threadId]; simp)
  cases hh : resolvedRow self i thread r s.db with
  | none =>
    rw [List.head?_eq_none_iff.1 hh] at hmem
    cases hmem
  | some e =>
    obtain ⟨id', row'⟩ := e
    obtain ⟨hrow', hreq', -⟩ := resolvedRow_some hh
    have hid : id' = id := h.unique id id' row row' _ _ _ hrow hrow' hreq hreq'
    subst hid
    rw [some.inj (hrow'.symm.trans hrow)]

/-- The row once a dispatch that was outstanding is settled. -/
def Approval.settledAs (row : Approval) (terminalState : ApprovalState) : Approval :=
  if row.state = .dispatching then row.settle terminalState else row

theorem settledAs_of_inactive (hset : row.state.isActive = false) (terminalState : ApprovalState) :
    row.settledAs terminalState = row := by
  refine if_neg fun hst => ?_
  rw [hst] at hset
  cases hset

theorem Good.complete (h : Good s) (hc : s.calls.get c = some (.handling hd)) (hdel : hd.delivery = .delivered)
    (hrow : s.approval hd.dispatch.approvalId = some row) (hs : step s (.completeDecision c) = some t) :
    t.approval hd.dispatch.approvalId = some (row.settledAs hd.dispatch.terminalState) ∧
      t.calls.get c = some (.replied (completeReply (row.settledAs hd.dispatch.terminalState) hd.dispatch)) := by
  have hb := h.bears hc hrow
  have hget : s.db.approvals.get hd.dispatch.approvalId = some row := hrow
  have hholds : s.db.approvals.holds hd.dispatch.approvalId (·.awaits hd.actor hd.dispatch) =
      row.awaits hd.actor hd.dispatch := by rw [holds, hget, any_some]
  rcases hb.current with ho | hset
  · have hw : row.awaits hd.actor hd.dispatch := awaits_iff.2 ⟨hb.organization, ho⟩
    rw [step, stepHandler, hc] at hs
    simp only [Approvals.stepComplete, hdel, if_true, completeDecision, hholds, hw, some.injEq] at hs
    subst hs
    rw [settledAs, if_pos ho.1]
    refine ⟨?_, (get_put_self _ _ _).trans (by simp [completeReply, settle])⟩
    change (Db.updateApproval s.db hd.dispatch.approvalId _ _).approvals.get hd.dispatch.approvalId = _
    rw [get_updateApproval, hget]
    simp [hw]
  · have hno : ¬ row.Outstanding hd.dispatch := fun ho => by simp [ho.1] at hset; cases hset
    have hw : row.awaits hd.actor hd.dispatch = false := eq_false_iff.2 fun hw => hno (awaits_iff.1 hw).2
    have hdone : s.db.approvals.holds hd.dispatch.approvalId (fun row => row.organizationId == hd.actor.organizationId &&
        row.state == hd.dispatch.terminalState && row.decision == some hd.dispatch.decision) =
        decide (row.state = hd.dispatch.terminalState) := by
      simp only [holds, hget, any_some, hb.organization, hb.decision, beq_self_eq_true, Bool.true_and, Bool.and_true]
      rfl
    have happ := superseded_keeps hc hrow hno (.inl rfl) hs
    rw [settledAs_of_inactive hset]
    refine ⟨by rw [State.approval, happ]; exact hrow, ?_⟩
    rw [step, stepHandler, hc] at hs
    simp only [Approvals.stepComplete, hdel, if_true, completeDecision, hholds, hw, hdone, false_eq_true, if_false,
      decide_eq_true_eq] at hs
    unfold completeReply
    by_cases hst : row.state = hd.dispatch.terminalState
    all_goals
      simp only [hst, if_true, if_false, some.injEq] at hs ⊢
      subst hs
      exact get_put_self _ _ _

theorem Names.filter_threadId (hn : Names self i thread requestId row) :
    row.threadId.filter (fun value => !value.isEmpty) = some thread := by
  rw [hn.threadId]
  cases thread with
  | nil => cases hn.named
  | cons => rfl

/-- The terminal state that the Runtime's resolution gives a stored decision. -/
def StoredDecision.state : StoredDecision → ApprovalState
  | .approved => .approved
  | .rejected => .rejected
  | .answered => .answered

@[simp] theorem isActive_state (decision : StoredDecision) : decision.state.isActive = false := by
  cases decision <;> rfl

theorem Good.resolve (h : Good s) {id} (hrow : s.approval id = some row) (hn : Names self i thread requestId row)
    {decision} (hd : row.decision = some decision)
    (hcurrent : row.state = .dispatching ∨ row.state.isActive = false)
    (hs : step s (.resolveRuntimeRequest self i thread requestId k) = some t) :
    t.approval id = some (row.settledAs decision.state) ∧
      t.calls.get k = some (.resolved (resolution id thread (row.settledAs decision.state))) := by
  obtain ⟨r, hr, hfound⟩ := h.resolvedRow_eq hrow hn
  rw [← opening_some hs]
  unfold Approvals.stepResolve
  rcases hcurrent with hst | hset
  · have hterm : resolvedTerminalState row.state row.decision = some decision.state := by
      rw [hst, hd]
      cases decision <;> rfl
    have hsettle : row.resolve decision.state s.now = row.settle decision.state := by
      obtain ⟨_, hat⟩ := isSome_iff_exists.1 ((h.row id row hrow).decided hst)
      simp [Approval.resolve, settle, hat]
    have hres : resolveRuntimeRequest self i thread requestId s.now s.db =
        (resolution id thread (row.settle decision.state)).map (fun resolved =>
          (s.db.updateApproval id (fun _ => true) (·.resolve decision.state s.now), resolved)) := by
      simp only [resolveRuntimeRequest, hn.named, false_eq_true, if_false, hr, hfound, hn.filter_threadId, hterm,
        getD_some, resolution, settle]
      cases decision <;> rfl
    obtain ⟨resolved, hok⟩ : ∃ resolved, resolution id thread (row.settle decision.state) = .ok resolved := by
      cases decision <;> exact ⟨_, rfl⟩
    rw [settledAs, if_pos hst, hres, hok]
    refine ⟨?_, get_put_self _ _ _⟩
    change (s.db.updateApproval id _ _).approvals.get id = _
    rw [get_updateApproval]
    change (s.approval id).map _ = _
    rw [hrow]
    simp [hsettle]
  · have hterm : resolvedTerminalState row.state row.decision = none := by simp [resolvedTerminalState, hset]
    have hres : resolveRuntimeRequest self i thread requestId s.now s.db =
        (resolution id thread row).map (fun resolved => (s.db, resolved)) := by
      simp only [resolveRuntimeRequest, hn.named, false_eq_true, if_false, hr, hfound, hn.filter_threadId, hterm,
        getD_none, resolution]
      cases approvalOutcome row.state <;> rfl
    rw [settledAs_of_inactive hset, hres]
    cases resolution id thread row <;> exact ⟨hrow, get_put_self _ _ _⟩

/-- The Runtime's resolution and the handler settle a submission alike unless it is a cancellation. -/
theorem stored_state_eq_iff {requestType payload response submission terminalState decision}
    (h : submit requestType payload submission = .ok (response, terminalState, decision)) :
    decision.state = terminalState ↔ submission ≠ .decision .cancel := by
  cases submission with
  | decision d =>
    obtain ⟨-, ht⟩ := submit_decision h
    cases d <;> cases ht <;> decide
  | answers =>
    obtain ⟨-, rfl, rfl⟩ := submit_answers h
    exact iff_of_true rfl nofun

theorem isActive_settledAs (hterm : terminalState.isActive = false)
    (hcurrent : row.Outstanding hd.dispatch ∨ row.state.isActive = false) :
    (row.settledAs terminalState).state.isActive = false := by
  rcases hcurrent with ho | hset
  · rw [settledAs, if_pos ho.1]
    exact hterm
  · rw [settledAs_of_inactive hset]
    exact hset

theorem Good.settled_later (h : Good s) (hu : step s a = some u) {id}
    (hrow : s.approval id = some row) (hrow₁ : u.approval id = some row₁)
    (hset : row₁.state.isActive = false) (hv : run step u as = some v) :
    Good v ∧ v.approval id = some row₁ ∧ Follows row row₁ := by
  obtain ⟨hgu, hlater⟩ := step_good h hu
  obtain ⟨_, hrow₂, hf₂⟩ := run_later hgu hv id row₁ hrow₁
  obtain ⟨_, hrow₃, hf₃⟩ := hlater id row hrow
  rw [some.inj (hrow₃.symm.trans hrow₁)] at hf₃
  exact ⟨run_good hgu hv, hf₂.of_inactive hset ▸ hrow₂, hf₃⟩

/-- The row, the handler's reply and the resolution that is published. -/
def Ended (t : State) (hd : Handler) (c k : Uuid) (thread : Str) (row : Approval) : Prop :=
  t.approval hd.dispatch.approvalId = some row ∧ t.calls.get c = some (.replied (completeReply row hd.dispatch)) ∧
    t.calls.get k = some (.resolved (resolution hd.dispatch.approvalId thread row))

section Orders

variable (h : Good s) (hc : s.calls.get c = some (.handling hd)) (hdel : hd.delivery = .delivered)
  (hrow : s.approval hd.dispatch.approvalId = some row) (hn : Names self i thread requestId row)

include h hc hdel hrow hn

theorem Good.complete_then_resolve
    (hs : run step s (.completeDecision c :: as ++ [.resolveRuntimeRequest self i thread requestId k]) = some t) :
    Ended t hd c k thread (row.settledAs hd.dispatch.terminalState) := by
  obtain ⟨u, v, hu, hv, ht⟩ := run_cons_append hs
  have hb := h.bears hc hrow
  have hset := isActive_settledAs (not_pending_of_terminal hb.submitted) hb.current
  obtain ⟨happ₁, hreply₁⟩ := h.complete hc hdel hrow hu
  obtain ⟨hgv, happ₂, hf⟩ := h.settled_later hu hrow happ₁ hset hv
  have hdecision := (hf.decision (by simp [hb.decision])).trans hb.decision
  obtain ⟨happ, hres⟩ := hgv.resolve happ₂ (hn.follows hf) hdecision (.inr hset) ht
  rw [settledAs_of_inactive hset] at happ hres
  exact ⟨happ, run_keeps_answer (run_concat hv ht) (by simp) hreply₁, hres⟩

theorem Good.resolve_then_complete
    (hs : run step s (.resolveRuntimeRequest self i thread requestId k :: as ++ [.completeDecision c]) = some t) :
    Ended t hd c k thread (row.settledAs hd.dispatch.decision.state) := by
  obtain ⟨u, v, hu, hv, ht⟩ := run_cons_append hs
  have hb := h.bears hc hrow
  have hset := isActive_settledAs (isActive_state hd.dispatch.decision) hb.current
  obtain ⟨happ₁, hres₁⟩ := h.resolve hrow hn hb.decision (hb.current.imp_left (·.1)) hu
  obtain ⟨hgv, happ₂, -⟩ := h.settled_later hu hrow happ₁ hset hv
  -- the handler is still there when its completion comes
  have hcv : v.calls.get c = some (.handling hd) := by
    obtain ⟨_, hc', _⟩ := stepHandler_some ht
    have hrun : run step s (.resolveRuntimeRequest self i thread requestId k :: as) = some v := by
      rw [run, hu]
      exact hv
    refine (run_keeps_delivered hrun hdel hc).resolve_right ?_
    rintro ⟨reply, hk⟩
    cases hk.symm.trans hc'
  obtain ⟨happ, hreply⟩ := hgv.complete hcv hdel happ₂ ht
  rw [settledAs_of_inactive hset] at happ hreply
  exact ⟨happ, hreply, run_keeps_answer (run_concat hv ht) (fun _ h => by cases h) hres₁⟩

end Orders

end settling

/-- **When the order of the Runtime's resolution and the handler's completion does not matter.**  From any state of any
run in which the response was delivered, whatever happens between the two: the final row, the handler's reply and the
resolution that is published are the same in both orders, exactly where the dispatch is not an outstanding
cancellation. -/
theorem resolution_order_iff {s₀ s : State} (h₀ : Fresh s₀) {as : List Action} (h : run step s₀ as = some s)
    {c k : Uuid} {hd : Handler} (hc : s.calls.get c = some (.handling hd)) (hdel : hd.delivery = .delivered)
    {row : Approval} (hrow : s.approval hd.dispatch.approvalId = some row) {self : ApprovalService} {i : Uuid} {thread : Str}
    {requestId : Json} (hn : Names self i thread requestId row) {as₁ as₂ : List Action} {t₁ t₂ : State}
    (h₁ : run step s (.completeDecision c :: as₁ ++ [.resolveRuntimeRequest self i thread requestId k]) = some t₁)
    (h₂ : run step s (.resolveRuntimeRequest self i thread requestId k :: as₂ ++ [.completeDecision c]) = some t₂) :
    (t₁.approval hd.dispatch.approvalId = t₂.approval hd.dispatch.approvalId ∧ t₁.calls.get c = t₂.calls.get c ∧
      t₁.calls.get k = t₂.calls.get k) ↔ ¬ (row.Outstanding hd.dispatch ∧ hd.submission = .decision .cancel) := by
  have hg : Good s := run_good h₀.good h
  obtain ⟨happ₁, hreply₁, hres₁⟩ := hg.complete_then_resolve hc hdel hrow hn h₁
  obtain ⟨happ₂, hreply₂, hres₂⟩ := hg.resolve_then_complete hc hdel hrow hn h₂
  have hb := hg.bears hc hrow
  have hstate := stored_state_eq_iff hb.submitted
  constructor
  · rintro ⟨happ, -, -⟩ ⟨ho, hcancel⟩
    rw [happ₁, happ₂, some.injEq, settledAs, settledAs, if_pos ho.1, if_pos ho.1] at happ
    have hsame : hd.dispatch.terminalState = hd.dispatch.decision.state := congrArg (·.state) happ
    exact hstate.1 hsame.symm hcancel
  · intro hnot
    have hsame : row.settledAs hd.dispatch.terminalState = row.settledAs hd.dispatch.decision.state := by
      rcases hb.current with ho | hset
      · rw [hstate.2 fun hcancel => hnot ⟨ho, hcancel⟩]
      · rw [settledAs_of_inactive hset, settledAs_of_inactive hset]
    rw [happ₁, happ₂, hreply₁, hreply₂, hres₁, hres₂, hsame]
    exact ⟨rfl, rfl, rfl⟩

/-! ## Sample runs -/

def sampleResolution : Action := .resolveRuntimeRequest sampleSelf 5 "thread".toList (.number (.posInt 7)) 2

def Call.reply : Call → Option Reply
  | .replied reply => some reply
  | .handling _ | .resolved _ => none

def sampleDelivered (decision : ApprovalDecision) (s : State) : Bool :=
  (match s.calls.get 1 with
    | some (.handling hd) => hd.delivery == .delivered && hd.dispatch.approvalId == 0 && hd.submission == .decision decision
    | _ => false) &&
  (s.approval 0).any (fun row => row.isRequest sampleSelf.runtimeKey 5 (.number 7) && row.threadId == some "thread".toList)

theorem resolution_order_iff_accepted : ∃ s t₁ t₂, run step sampleState (decidedRun .accept true) = some s ∧
    run step s [.completeDecision 1, sampleResolution] = some t₁ ∧
    run step s [sampleResolution, .completeDecision 1] = some t₂ ∧
    t₁.approval 0 = t₂.approval 0 ∧ t₁.calls.get 1 = t₂.calls.get 1 ∧ t₁.calls.get 2 = t₂.calls.get 2 := by
  obtain ⟨s, hs⟩ := isSome_iff_exists.1
    (show (run step sampleState (decidedRun .accept true)).isSome by decide)
  have hrun : (run step sampleState (decidedRun .accept true)).all (fun s =>
      sampleDelivered .accept s && (run step s [.completeDecision 1, sampleResolution]).isSome &&
        (run step s [sampleResolution, .completeDecision 1]).isSome) = true := by decide
  rw [hs, all_some] at hrun
  simp only [and_eq_true] at hrun
  obtain ⟨⟨hdelivered, h₁⟩, h₂⟩ := hrun
  obtain ⟨t₁, h₁⟩ := isSome_iff_exists.1 h₁
  obtain ⟨t₂, h₂⟩ := isSome_iff_exists.1 h₂
  obtain ⟨hcall, happ⟩ := and_eq_true_iff.1 hdelivered
  split at hcall
  · rename_i hd hc
    simp only [and_eq_true, beq_iff_eq] at hcall
    obtain ⟨⟨hdel, hid⟩, hsub⟩ := hcall
    cases hrow : s.approval 0 with
    | none => rw [hrow] at happ; cases happ
    | some row =>
      rw [hrow, any_some, and_eq_true, beq_iff_eq] at happ
      have hn : Names sampleSelf 5 "thread".toList (.number (.posInt 7)) row := ⟨by decide, ⟨_, rfl, happ.1⟩, happ.2⟩
      have hnot : ¬ (row.Outstanding hd.dispatch ∧ hd.submission = .decision .cancel) := by
        rintro ⟨-, hcancel⟩
        rw [hsub] at hcancel
        cases hcancel
      have hfirst : run step s (.completeDecision 1 :: [] ++ [sampleResolution]) = some t₁ := h₁
      have hlast : run step s (sampleResolution :: [] ++ [.completeDecision 1]) = some t₂ := h₂
      have hiff := resolution_order_iff sampleState_fresh hs hc hdel (by rw [hid]; exact hrow) hn hfirst hlast
      rw [hid] at hiff
      exact ⟨s, t₁, t₂, hs, h₁, h₂, hiff.2 hnot⟩
  · cases hcall

/-- **A cancellation that the Runtime resolves first ends in a conflict**: it is stored as rejected and the handler is
refused; completed first, it is stored as cancelled and the handler succeeds. -/
theorem cancellation_order_matters : Fresh sampleState ∧
    (run step sampleState (decidedRun .cancel true ++ [.completeDecision 1, sampleResolution])).any (fun s =>
      (s.approval 0).any (·.state == .cancelled) && (s.calls.get 1).bind (·.reply) == some .noContent) = true ∧
    (run step sampleState (decidedRun .cancel true ++ [sampleResolution, .completeDecision 1])).any (fun s =>
      (s.approval 0).any (·.state == .rejected) && (s.calls.get 1).bind (·.reply) == some (.failed .conflict)) = true :=
  ⟨sampleState_fresh, by decide, by decide⟩

end Owc.Approvals
