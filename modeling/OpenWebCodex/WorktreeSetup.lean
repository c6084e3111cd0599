import OpenWebCodex.Json
/-!
# WorktreeSetup — whether the setup script of a worktree is still to be run

One user's preferences for one worktree.  The status trims the configured script of all white space; the mark has the
database trim it again, of spaces only, from the settings that are stored when the mark arrives.
-/
namespace Owc.Worktree

open List Json

/-- The size of settings as JSON, and what `->>` gives for a value that is neither a string nor null. -/
structure Env where
  jsonBytes : Json → Nat
  text : Json → Str

variable (env : Env)

def accepted (settings : Json) : Bool := settings.asObject.isSome && env.jsonBytes settings ≤ 256 * 1024

structure Preference where
  settings : Json
  setupCompletedScript : Option Str
  isAccepted : accepted env settings

structure WorktreeSetupStatus where
  shouldRun : Bool
  script : Option Str
deriving DecidableEq

inductive Call
  | updateSettings (settings : Json)
  | worktreeSetupStatus
  | markWorktreeSetupRan

def setting (settings : Json) : Option Json := settings.asObject.bind (Table.get · "worktreeSetupScript".toList)

/-- `settings->>'worktreeSetupScript'` -/
def settingText (settings : Json) : Option Str :=
  match setting settings with
  | none | some .null => none
  | some (.string s) => some s
  | some value => some (env.text value)

def btrim (s : Str) : Str := Str.trimBy (· == ' ') s

def completedScript (settings : Json) : Option Str := ((settingText env settings).map btrim).filter (!·.isEmpty)

def configuredScript (settings : Json) : Option Str := (((setting settings).bind asStr).map Str.trim).filter (!·.isEmpty)

variable {env}

/-- The status, or none where the script is too large. -/
def worktreeSetupStatus : Option (Preference env) → Option WorktreeSetupStatus
  | none => some ⟨false, none⟩
  | some row =>
    let script := configuredScript row.settings
    if script.any (64 * 1024 < Str.utf8Len ·) then none
    else some ⟨script.isSome && script != row.setupCompletedScript, script⟩

def call (row : Option (Preference env)) : Call → Option (Preference env)
  | .updateSettings settings =>
    if h : accepted env settings then some ⟨settings, row.bind (·.setupCompletedScript), h⟩ else row
  | .worktreeSetupStatus => row
  | .markWorktreeSetupRan => row.map fun row => { row with setupCompletedScript := completedScript env row.settings }

/-- From `row` on, up to the next mark, the status asks to run every script but `script`. -/
def Ran (script : Str) (row : Option (Preference env)) : Prop :=
  ∀ later : List Call, .markWorktreeSetupRan ∉ later → ∀ status, worktreeSetupStatus (later.foldl call row) = some status →
    status.shouldRun = (status.script.isSome && status.script != some script)

variable {row : Option (Preference env)} {status : WorktreeSetupStatus}

theorem completed_foldl : ∀ (calls : List Call) {row : Option (Preference env)}, .markWorktreeSetupRan ∉ calls →
    (calls.foldl call row).bind (·.setupCompletedScript) = row.bind (·.setupCompletedScript)
  | [], _, _ => rfl
  | c :: calls, row, h => by
    rw [mem_cons, not_or] at h
    refine (completed_foldl calls h.2).trans ?_
    cases c with
    | updateSettings =>
      rw [call]
      split <;> rfl
    | worktreeSetupStatus => rfl
    | markWorktreeSetupRan => exact absurd rfl h.1

theorem shouldRun_eq (h : worktreeSetupStatus row = some status) :
    status.shouldRun = (status.script.isSome && status.script != row.bind (·.setupCompletedScript)) := by
  cases row with
  | none => cases h; rfl
  | some =>
    rw [worktreeSetupStatus] at h
    split at h <;> cases h
    rfl

/-- **A script that was run and marked is not run again, and any other is,** up to the next mark, exactly if the settings
hold it between spaces and nothing else when the mark arrives. -/
theorem setup_runs_once_iff {script} (h : worktreeSetupStatus row = some status) (hscript : status.script = some script)
    (between : List Call) : Ran script (call (between.foldl call row) .markWorktreeSetupRan) ↔
    ∃ text, (between.foldl call row).bind (settingText env ·.settings) = some text ∧ btrim text = script := by
  obtain ⟨p, rfl⟩ : ∃ p, row = some p := by
    cases row with
    | none => cases h; cases hscript
    | some p => exact ⟨p, rfl⟩
  rw [worktreeSetupStatus] at h
  split at h <;> cases h
  next hsize =>
  change configuredScript p.settings = some script at hscript
  have hne : script ≠ [] := by
    rintro rfl
    cases (Option.filter_eq_some_iff.1 hscript).2
  -- what the mark leaves as the completed script
  have hmark : (call (between.foldl call (some p)) .markWorktreeSetupRan).bind (·.setupCompletedScript) = some script ↔
      ∃ text, (between.foldl call (some p)).bind (settingText env ·.settings) = some text ∧ btrim text = script := by
    cases between.foldl call (some p) <;> simp [call, completedScript, Option.filter_eq_some_iff, hne]
  rw [← hmark]
  constructor
  · intro hall
    -- the settings the script was read from are stored again
    have hback := hall [.updateSettings p.settings] (by simp) _ (by
      rw [foldl_cons, call, dif_pos p.isAccepted, foldl_nil, worktreeSetupStatus, if_neg hsize])
    simp only [hscript, Option.isSome_some, Bool.true_and, bne_self_eq_false, bne_eq_false_iff_eq] at hback
    exact hback.symm
  · intro hcompleted later hlater status hstatus
    rw [shouldRun_eq hstatus, completed_foldl later hlater, hcompleted]

def plainEnv : Env := ⟨fun _ => 0, fun _ => []⟩

def configured (script : Str) : Option (Preference plainEnv) :=
  call none (.updateSettings (.object [("worktreeSetupScript".toList, .string script)]))

theorem setup_runs_once_iff_spaces : worktreeSetupStatus (configured " a ".toList) = some ⟨true, some ['a']⟩ ∧
    Ran ['a'] (call (configured " a ".toList) .markWorktreeSetupRan) := by
  have h : worktreeSetupStatus (configured " a ".toList) = some ⟨true, some ['a']⟩ := by decide
  exact ⟨h, (setup_runs_once_iff h rfl []).2 ⟨" a ".toList, by decide, by decide⟩⟩

/-- **A line end after the script**: the status reports the script without it, the mark keeps it, and the script is run on
every visit. -/
theorem line_end_runs_again : worktreeSetupStatus (configured ['a', '\n']) = some ⟨true, some ['a']⟩ ∧
    worktreeSetupStatus (call (configured ['a', '\n']) .markWorktreeSetupRan) = some ⟨true, some ['a']⟩ := by
  decide

end Owc.Worktree
