import OpenWebCodex.Text
import OpenWebCodex.Transition
/-!
# TerminalSessions — the terminals of a run

The handlers of `terminals.rs` find a session by its terminal id, the exit of a process by its process id.  A row is never
deleted and its terminal id is unique, so the id of a finished session is refused as already open.  Requests have passed
their validation and the checks on the run.
-/
namespace Owc.Terminals

open Transition Function

inductive SessionState
  | starting
  | running
  | closing
  | closed
  | failed
deriving DecidableEq

/-- `state IN ('starting', 'running')` -/
def SessionState.takesRequests (state : SessionState) : Bool := state == .starting || state == .running

def SessionState.isOpen (state : SessionState) : Bool := state.takesRequests || state == .closing

structure Session where
  processId : Str
  state : SessionState
deriving DecidableEq

inductive Request
  | write (data : Str)
  | resize (cols rows : Nat)
  | close

/-- Where a handler stands: at the adapter's `open_terminal`, behind `authorized_terminal`, or at the adapter's other calls. -/
inductive Call
  | opening (terminalId : Str)
  | authorized (terminalId processId : Str) (request : Request)
  | sent (terminalId : Str) (request : Request)

structure State where
  sessions : Str → Option Session := fun _ => none
  calls : Nat → Option Call := fun _ => none

inductive Action
  | open (call : Nat) (terminalId processId : Str)
  | authorize (call : Nat) (terminalId : Str) (request : Request)
  | send (call : Nat)
  | answer (call : Nat) (ok : Bool)
  | exit (processId : Str) (failed : Bool)

def State.set (s : State) (state : Str → Session → SessionState) : State :=
  { s with sessions := fun id => (s.sessions id).map fun session => { session with state := state id session } }

def State.setCall (s : State) (call : Nat) (phase : Option Call) : State := { s with calls := update s.calls call phase }

/-- `send` gives the request to the adapter, for the process that `authorized_terminal` found. -/
def step (s : State) : Action → Option State
  | .open call terminalId processId =>
    if (s.calls call).isSome then none
    else if (s.sessions terminalId).isSome then some s
    else some { s.setCall call (some (.opening terminalId)) with
      sessions := update s.sessions terminalId (some ⟨processId, .starting⟩) }
  | .authorize call terminalId request =>
    if (s.calls call).isSome then none
    else match (s.sessions terminalId).filter (·.state.takesRequests) with
      | none => some s
      | some session => some (s.setCall call (some (.authorized terminalId session.processId request)))
  | .send call =>
    match s.calls call with
    | some (.authorized terminalId _ request) => some (s.setCall call (some (.sent terminalId request)))
    | _ => none
  | .answer call ok =>
    match s.calls call with
    | some (.opening terminalId) => some ((s.set fun id session =>
        if id ≠ terminalId then session.state
        else if ok then if session.state = .starting then .running else session.state else .failed).setCall call none)
    | some (.sent terminalId .close) => some ((s.set fun id session =>
        if ok ∧ id = terminalId ∧ session.state.takesRequests then .closing else session.state).setCall call none)
    | some (.sent _ _) => some (s.setCall call none)
    | _ => none
  | .exit processId failed => some (s.set fun _ session =>
      if session.processId = processId then if failed then .failed else .closed else session.state)

/-- The sessions keep their processes, and the finished ones are not open again. -/
def Later (s t : State) : Prop :=
  ∀ id session, s.sessions id = some session →
    ∃ now, t.sessions id = some now ∧ now.processId = session.processId ∧ (now.state.isOpen → session.state.isOpen)

/-- A request is sent to the process of the session it names. -/
def Named (s : State) : Prop :=
  ∀ call id processId request, s.calls call = some (.authorized id processId request) →
    ∃ session, s.sessions id = some session ∧ session.processId = processId

variable {s t : State}

theorem later_set {state : Str → Session → SessionState}
    (hstate : ∀ id session, (state id session).isOpen → session.state.isOpen) : Later s (s.set state) :=
  fun id session hs => ⟨_, congrArg (Option.map _) hs, rfl, hstate id session⟩

theorem step_later {a : Action} (h : step s a = some t) : Later s t := by
  have hsame : ∀ calls, Later s { s with calls := calls } := fun _ _ session hs => ⟨session, hs, rfl, id⟩
  cases a <;> simp only [step] at h <;> repeat' split at h
  all_goals try cases h
  any_goals exact hsame _
  case «open».isFalse.isFalse hnone =>
    intro id session hs
    refine ⟨session, (update_of_ne ?_ _ _).trans hs, rfl, fun ho => ho⟩
    rintro rfl
    simp [hs] at hnone
  all_goals
    refine later_set fun id session => ?_
    split_ifs <;> simp_all [SessionState.isOpen, SessionState.takesRequests]

theorem run_later : ∀ {actions : List Action} {s t : State}, run step s actions = some t → Later s t
  | [], _, _, h => by
    cases h
    exact fun _ session hs => ⟨session, hs, rfl, fun ho => ho⟩
  | _ :: _, _, _, h => by
    obtain ⟨u, hu, ht⟩ := Option.bind_eq_some_iff.1 h
    intro id session hs
    obtain ⟨mid, hm, hp, ho⟩ := step_later hu id session hs
    obtain ⟨now, hn, hp', ho'⟩ := run_later ht id mid hm
    exact ⟨now, hn, hp'.trans hp, ho ∘ ho'⟩

theorem step_named (s : State) (a : Action) (t : State) (hn : Named s) (h : step s a = some t) : Named t := by
  intro call id processId request hc
  have hold : s.calls call = some (.authorized id processId request) →
      ∃ session, t.sessions id = some session ∧ session.processId = processId := by
    intro hc
    obtain ⟨session, hs, rfl⟩ := hn call id processId request hc
    obtain ⟨now, ht, hp, -⟩ := step_later h id session hs
    exact ⟨now, ht, hp⟩
  cases a <;> simp only [step] at h <;> repeat' split at h
  all_goals try cases h
  all_goals try exact hold hc
  all_goals
    simp only [State.setCall, update_apply] at hc
    split at hc
    on_goal 2 => exact hold hc
    cases hc
  next hsession => exact ⟨_, (Option.filter_eq_some_iff.1 hsession).1, rfl⟩

/-- The terminal id that is to be opened has no finished session. -/
def opensUnfinished (s : State) : Action → Bool
  | .open _ terminalId _ => (s.sessions terminalId).all (·.state.isOpen)
  | _ => true

/-- A terminal id is refused as already open only while its session is. -/
def refusedWhileOpen (s : State) : Action → Bool
  | .open _ terminalId _ => !(s.sessions terminalId).isSome || (s.sessions terminalId).any (·.state.isOpen)
  | _ => true

theorem refusedWhileOpen_eq (s : State) (a : Action) : refusedWhileOpen s a = opensUnfinished s a := by
  cases a with
  | «open» _ terminalId => cases hs : s.sessions terminalId <;> simp [refusedWhileOpen, opensUnfinished, hs]
  | _ => rfl

def closedRun : List Action :=
  [.open 0 "t".toList "p".toList, .answer 0 true, .authorize 1 "t".toList (.write "ls".toList), .send 1, .answer 1 true,
    .authorize 2 "t".toList .close, .send 2, .exit "p".toList false, .answer 2 true]

end Owc.Terminals
