import OpenWebCodex.Glob
import OpenWebCodex.Table
import OpenWebCodex.Text
/-!
# GitPaths — staging, unstaging and reverting selected paths

A selection is checked by equality against the changes git reports, and handed to git after `--`, where git reads it as
pathspecs.  An operation keeps to the selected paths exactly where no other path that it would change is read into them.
-/
namespace Owc.Git

variable {C : Type}

/-- A file by its path: in the last commit, in the index, and on disk. -/
structure Workspace (C : Type) where
  head : Str → Option C
  index : Str → Option C
  worktree : Str → Option C
  ignored : Str → Bool

inductive Subcommand
  | add
  /-- `restore --staged --` -/
  | restoreStaged
  /-- `restore --staged --worktree --` -/
  | restore
  /-- `clean -f --` -/
  | clean

/-- **Git, as it is called:** which paths the arguments after `--` select, the records of `status --porcelain=v1 -z`, the names
of `diff --cached --name-only -z`, and whether a call exits with an error, having changed nothing. -/
structure Program (C : Type) where
  selects : List Str → Str → Bool
  status : Workspace C → List Str
  stagedNames : Workspace C → List Str
  refuses : Subcommand → List Str → Workspace C → Option Str

inductive GitRuntimeError
  | noChanges
  | unsafePath (message : Str)
  | conflict (message : Str)
  | git (operation message : Str)
deriving DecidableEq

structure FileChange where
  path : Str
  status : Str

/-! ## What git does -/

/-- `add` leaves an ignored file out unless it is in the index. -/
def Workspace.addable (ws : Workspace C) (path : Str) : Bool := (ws.index path).isSome || !ws.ignored path

def Workspace.tracked (ws : Workspace C) (path : Str) : Bool := (ws.index path).isSome || (ws.head path).isSome

/-- `clean` removes what is neither in the index nor ignored. -/
def Workspace.cleanable (ws : Workspace C) (path : Str) : Bool := (ws.index path).isNone && !ws.ignored path

def effect (selected : Str → Bool) (ws : Workspace C) : Subcommand → Workspace C
  | .add => { ws with index := fun path => if selected path && ws.addable path then ws.worktree path else ws.index path }
  | .restoreStaged => { ws with index := fun path => if selected path then ws.head path else ws.index path }
  | .restore => { ws with
      index := fun path => if selected path && ws.tracked path then ws.head path else ws.index path
      worktree := fun path => if selected path && ws.tracked path then ws.head path else ws.worktree path }
  | .clean => { ws with worktree := fun path => if selected path && ws.cleanable path then none else ws.worktree path }

variable (program : Program C)

def git (operation : Str) (subcommand : Subcommand) (paths : List Str) (ws : Workspace C) :
    Except GitRuntimeError Unit × Workspace C :=
  match program.refuses subcommand paths ws with
  | some message => (.error (.git operation message), ws)
  | none => (.ok (), effect (program.selects paths) ws subcommand)

/-! ## The runtime -/

/-- The parts of a path between slashes; a `.` counts at the front only. -/
def components (path : Str) : List Str :=
  match Str.split '/' path with
  | [] => []
  | first :: rest => first :: rest.filter (fun part => decide (part ≠ ".".toList) && !part.isEmpty)

def validateRelativePath (value : Str) : Except GitRuntimeError Unit :=
  if value.isEmpty || value.contains '\x00' then .error (.unsafePath "empty or NUL path".toList)
  else if Str.startsWith value "./".toList || Str.containsStr value "//".toList || value.head? == some '/' ||
      (components value).any (fun part => decide (part = "..".toList)) || (components value).head? == some ".".toList then
    .error (.unsafePath "path escapes the workspace".toList)
  else .ok ()

/-- The records of the status: a later one for a path takes the place of an earlier one, and the record after a renamed or copied
path, which says where it came from, is passed over. -/
def parseRecords : Bool → List Str → Table Str FileChange → Except GitRuntimeError (Table Str FileChange)
  | _, [], changes => .ok changes
  | true, _ :: records, changes => parseRecords false records changes
  | false, record :: records, changes =>
    if record.length < 4 || record[2]? != some ' ' then
      .error (.git "workspace status".toList "Git returned an invalid porcelain record".toList)
    else
      let status := record.take 2
      let path := record.drop 3
      match validateRelativePath path with
      | .error e => .error e
      | .ok () => parseRecords (status.contains 'R' || status.contains 'C') records (changes.put path ⟨path, status⟩)

def changedPaths (ws : Workspace C) : Except GitRuntimeError (List FileChange) :=
  (parseRecords false (program.status ws) []).map (fun changes => changes.map (·.2))

def requireExactChanges (ws : Workspace C) (paths : List Str) : Except GitRuntimeError (List FileChange) := do
  if paths.isEmpty then throw .noChanges
  for path in paths do
    validateRelativePath path
  let changes ← changedPaths program ws
  if !paths.all (fun path => changes.any (fun change => change.path = path)) then
    throw (.conflict "selection contains paths that are not exact workspace changes".toList)
  return changes.filter (fun change => paths.contains change.path)

def stagePaths (ws : Workspace C) (paths : List Str) : Except GitRuntimeError Unit × Workspace C :=
  match requireExactChanges program ws paths with
  | .error e => (.error e, ws)
  | .ok _ => git program "stage workspace paths".toList .add paths ws

def unstagePaths (ws : Workspace C) (paths : List Str) : Except GitRuntimeError Unit × Workspace C :=
  match requireExactChanges program ws paths with
  | .error e => (.error e, ws)
  | .ok _ =>
    if !paths.all (fun path => (program.stagedNames ws).contains path) then
      (.error (.conflict "selection contains paths that are not staged".toList), ws)
    else git program "unstage workspace paths".toList .restoreStaged paths ws

def untrackedOf (changes : List FileChange) : List Str := (changes.filter (·.status = "??".toList)).map (·.path)

def trackedOf (changes : List FileChange) : List Str := (changes.filter (·.status ≠ "??".toList)).map (·.path)

def revertPaths (ws : Workspace C) (paths : List Str) : Except GitRuntimeError Unit × Workspace C :=
  match requireExactChanges program ws paths with
  | .error e => (.error e, ws)
  | .ok changes =>
    let restored := if (trackedOf changes).isEmpty then (.ok (), ws)
      else git program "revert tracked workspace paths".toList .restore (trackedOf changes) ws
    match restored with
    | (.error e, ws) => (.error e, ws)
    | (.ok (), ws) =>
      if (untrackedOf changes).isEmpty then (.ok (), ws)
      else git program "remove untracked workspace paths".toList .clean (untrackedOf changes) ws

/-! ## What an operation changes -/

inductive Operation
  | stage
  | unstage
  | revert
deriving DecidableEq

def perform (operation : Operation) (ws : Workspace C) (paths : List Str) : Except GitRuntimeError Unit × Workspace C :=
  match operation with
  | .stage => stagePaths program ws paths
  | .unstage => unstagePaths program ws paths
  | .revert => revertPaths program ws paths

def SameAt (path : Str) (before after : Workspace C) : Prop :=
  after.index path = before.index path ∧ after.worktree path = before.worktree path

/-- **Nothing changed outside the selection:** neither what is staged nor what is on disk. -/
def OnlyAt (paths : List Str) (before after : Workspace C) : Prop := ∀ path, path ∉ paths → SameAt path before after

/-- A path that a subcommand changes where it is selected: what it would bring there is not there. -/
def Pending (ws : Workspace C) (path : Str) : Subcommand → Prop
  | .add => ws.addable path = true ∧ ws.worktree path ≠ ws.index path
  | .restoreStaged => ws.head path ≠ ws.index path
  | .restore => ws.tracked path = true ∧ ¬(ws.head path = ws.index path ∧ ws.head path = ws.worktree path)
  | .clean => ws.cleanable path = true ∧ ws.worktree path ≠ none

/-- What git reads into the paths of a call, which is not made without paths. -/
def reads (paths : List Str) (path : Str) : Bool := !paths.isEmpty && program.selects paths path

/-- **No path outside the selection is read into it by git and has something to lose.** -/
def Spares (operation : Operation) (ws : Workspace C) (paths : List Str) : Prop :=
  ∀ path, path ∉ paths → match operation with
    | .stage => reads program paths path = true → ¬Pending ws path .add
    | .unstage => reads program paths path = true → ¬Pending ws path .restoreStaged
    | .revert => ∀ changes, requireExactChanges program ws paths = .ok changes →
        (reads program (trackedOf changes) path = true → ¬Pending ws path .restore) ∧
        (reads program (untrackedOf changes) path = true → ¬Pending ws path .clean)

/-- **What a subcommand changes:** the selected paths that are pending. -/
theorem sameAt_effect_iff (selected : Str → Bool) (ws : Workspace C) (subcommand : Subcommand) (path : Str) :
    SameAt path ws (effect selected ws subcommand) ↔ (selected path → ¬Pending ws path subcommand) := by
  cases hselected : selected path with
  | false => cases subcommand <;> simp [SameAt, effect, hselected]
  | true =>
    cases subcommand with
    | add => cases haddable : ws.addable path <;> simp [SameAt, effect, Pending, hselected, haddable]
    | restoreStaged => simp [SameAt, effect, Pending, hselected]
    | restore => cases htracked : ws.tracked path <;> simp [SameAt, effect, Pending, hselected, htracked]
    | clean =>
      cases hclean : ws.cleanable path with
      | false => simp [SameAt, effect, Pending, hclean]
      | true =>
        simp only [SameAt, effect, Pending, hselected, hclean, Bool.and_self, if_true, true_and, forall_const, not_not]
        exact eq_comm

variable {program}

theorem sameAt_trans {path : Str} {a b c : Workspace C} (hab : SameAt path a b) (hbc : SameAt path b c) : SameAt path a c :=
  ⟨hbc.1.trans hab.1, hbc.2.trans hab.2⟩

theorem effect_none (ws : Workspace C) (subcommand : Subcommand) : effect (fun _ => false) ws subcommand = ws := by
  cases subcommand <;> simp [effect]

/-- A call changes nothing where it fails, and is not made without paths. -/
theorem git_cases (program : Program C) (operation : Str) (subcommand : Subcommand) (paths : List Str) (ws : Workspace C) :
    (∃ e, (if paths.isEmpty then (.ok (), ws) else git program operation subcommand paths ws) = (.error e, ws)) ∨
      (if paths.isEmpty then (.ok (), ws) else git program operation subcommand paths ws) =
        (.ok (), effect (reads program paths) ws subcommand) := by
  cases hpaths : paths.isEmpty with
  | true =>
    have hreads : reads program paths = fun _ => false := funext fun path => by simp [reads, hpaths]
    rw [hreads, effect_none]
    exact .inr rfl
  | false =>
    have hreads : reads program paths = program.selects paths := funext fun path => by simp [reads, hpaths]
    rw [if_neg Bool.false_ne_true, git, hreads]
    cases program.refuses subcommand paths ws with
    | some => exact .inl ⟨_, rfl⟩
    | none => exact .inr rfl

variable {ws : Workspace C}

theorem requireExactChanges_ne_nil
    (h : requireExactChanges program ws paths = .ok changes) : paths.isEmpty = false := by
  cases paths with
  | nil => cases h
  | cons => rfl

/-- Where the first call of a revert leaves a path alone, the second finds it as it was. -/
theorem pending_congr {path : Str} {before after : Workspace C} (h : SameAt path before after)
    (hignored : after.ignored = before.ignored) : Pending after path .clean ↔ Pending before path .clean := by
  unfold Pending Workspace.cleanable
  rw [h.1, h.2, hignored]

theorem clean_restored (first second : Str → Bool) (hrestored : (first path && ws.tracked path)) :
    SameAt path (effect first ws .restore) (effect second (effect first ws .restore) .clean) := by
  refine (sameAt_effect_iff _ _ _ _).2 fun _ hpending => hpending.2 ?_
  have hindex : (effect first ws .restore).index path = ws.head path := if_pos hrestored
  have hnone : ws.head path = none := by
    have hclean := hpending.1
    rw [Workspace.cleanable, hindex, Bool.and_eq_true, Option.isNone_iff_eq_none] at hclean
    exact hclean.1
  exact (if_pos hrestored).trans hnone

theorem sameAt_restore_clean (first second : Str → Bool) (ws : Workspace C) (path : Str) :
    SameAt path ws (effect second (effect first ws .restore) .clean) ↔
      (first path → ¬Pending ws path .restore) ∧ (second path → ¬Pending ws path .clean) := by
  rw [← sameAt_effect_iff]
  constructor
  · intro hsame
    have hfirst : SameAt path ws (effect first ws .restore) := by
      cases hrestored : first path && ws.tracked path with
      | true =>
        have hcleaned := clean_restored first second hrestored
        exact ⟨hcleaned.1.symm.trans hsame.1, hcleaned.2.symm.trans hsame.2⟩
      | false => exact ⟨if_neg (by simp [hrestored]), if_neg (by simp [hrestored])⟩
    refine ⟨hfirst, fun hselected hpending => ?_⟩
    have hsecond : SameAt path (effect first ws .restore) (effect second (effect first ws .restore) .clean) :=
      ⟨hsame.1.trans hfirst.1.symm, hsame.2.trans hfirst.2.symm⟩
    exact (sameAt_effect_iff _ _ _ _).1 hsecond hselected ((pending_congr hfirst rfl).2 hpending)
  · rintro ⟨hfirst, hsecond⟩
    refine sameAt_trans hfirst ((sameAt_effect_iff _ _ _ _).2 fun hselected => ?_)
    rw [pending_congr hfirst rfl]
    exact hsecond hselected

/-! ## The three operations -/

/-- **What a revert leaves:** the workspace before it, restored, or restored and cleaned; the last where it succeeds. -/
theorem revertPaths_cases (h : requireExactChanges program ws paths = .ok changes) :
    (∃ e, revertPaths program ws paths = (.error e, ws)) ∨
    (∃ e, revertPaths program ws paths = (.error e, effect (reads program (trackedOf changes)) ws .restore)) ∨
    revertPaths program ws paths = (.ok (), effect (reads program (untrackedOf changes))
      (effect (reads program (trackedOf changes)) ws .restore) .clean) := by
  rw [revertPaths, h]
  dsimp only
  rcases git_cases program "revert tracked workspace paths".toList .restore (trackedOf changes) ws with
    ⟨e, hrestore⟩ | hrestore
  · rw [hrestore]
    exact .inl ⟨e, rfl⟩
  · rw [hrestore]
    rcases git_cases program "remove untracked workspace paths".toList .clean (untrackedOf changes)
      (effect (reads program (trackedOf changes)) ws .restore) with ⟨e, hclean⟩ | hclean
    · exact .inr (.inl ⟨e, hclean⟩)
    · exact .inr (.inr hclean)

/-- A staging or unstaging leaves the workspace before it, or does what its call does; the last where it succeeds. -/
theorem perform_cases (hne : operation ≠ .revert) :
    (∃ e, perform program operation ws paths = (.error e, ws)) ∨
    perform program operation ws paths = (.ok (), effect (reads program paths) ws
      (if operation = .stage then .add else .restoreStaged)) := by
  cases operation with
  | revert => exact absurd rfl hne
  | stage =>
    rw [perform, stagePaths]
    cases h : requireExactChanges program ws paths with
    | error e => exact .inl ⟨e, rfl⟩
    | ok =>
      have hgit := git_cases program "stage workspace paths".toList .add paths ws
      rwa [requireExactChanges_ne_nil h, if_neg Bool.false_ne_true] at hgit
  | unstage =>
    rw [perform, unstagePaths]
    cases h : requireExactChanges program ws paths with
    | error e => exact .inl ⟨e, rfl⟩
    | ok =>
      dsimp only
      split
      · exact .inl ⟨_, rfl⟩
      · have hgit := git_cases program "unstage workspace paths".toList .restoreStaged paths ws
        rwa [requireExactChanges_ne_nil h, if_neg Bool.false_ne_true] at hgit

def globToken : Char → Glob.Token Char
  | '*' => .star
  | '?' => .any
  | c => .letter c

/-- A pathspec selects the path it names, what is below it, and what it matches as a pattern, in which `*` matches slashes too. -/
def pathspecSelects (paths : List Str) (path : Str) : Bool :=
  paths.any (fun spec => decide (path = spec) || Str.startsWith path (spec ++ ['/']) ||
    Glob.isMatch (spec.map globToken) path)

def twoChanges : Program Nat :=
  { selects := pathspecSelects
    status := fun _ => [" M a*".toList, " M ab".toList]
    stagedNames := fun _ => []
    refuses := fun _ _ _ => none }

def twoFiles (content : Nat) (path : Str) : Option Nat :=
  if path = "a*".toList ∨ path = "ab".toList then some content else none

def changedTwo : Workspace Nat := ⟨twoFiles 0, twoFiles 0, twoFiles 1, fun _ => false⟩

end Owc.Git
