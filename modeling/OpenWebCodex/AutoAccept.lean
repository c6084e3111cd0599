import OpenWebCodex.Json
import OpenWebCodex.ShellLine
/-!
# AutoAccept — commands the browser accepts without asking

A remembered command is a list of words.  A later approval request is accepted where the words found in its parameters start with
them.  The words are split by rules of the browser's own.
-/
namespace Owc.AutoAccept

open List Str
open ShellLine (Arg)

/-- What a regular expression's `\\s` and `trim` take for white space. -/
def isSpace (c : Char) : Bool :=
  (9 ≤ c.toNat && c.toNat ≤ 13) || c.toNat == 0x20 || c.toNat == 0xA0 || c.toNat == 0x1680 ||
  (0x2000 ≤ c.toNat && c.toNat ≤ 0x200A) || c.toNat == 0x2028 || c.toNat == 0x2029 || c.toNat == 0x202F ||
  c.toNat == 0x205F || c.toNat == 0x3000 || c.toNat == 0xFEFF

/-! ## Words -/

structure Split where
  tokens : List Str
  current : Str
  quote : Option Char
  escaped : Bool

namespace Split

def flush (s : Split) : Split :=
  if s.current.isEmpty then s else { s with tokens := s.tokens ++ [s.current], current := [] }

def step (s : Split) (c : Char) : Split :=
  if s.escaped then { s with current := s.current ++ [c], escaped := false }
  else if c = '\\' then { s with escaped := true }
  else
    match s.quote with
    | some quote => if c = quote then { s with quote := none } else { s with current := s.current ++ [c] }
    | none =>
      if c = '"' ∨ c = '\'' then { s with quote := some c }
      else if isSpace c then s.flush
      else { s with current := s.current ++ [c] }

end Split

def splitCommandLine (input : Str) : List Str := (input.foldl Split.step ⟨[], [], none, false⟩).flush.tokens

def normalizeCommandTokens (tokens : List Str) : List Str :=
  (tokens.map (Str.trimBy isSpace)).filter fun token => !token.isEmpty

/-! ## Parameters -/

def asStrings : List Json → Option (List Str)
  | [] => some []
  | .string text :: rest => (asStrings rest).map (text :: ·)
  | _ :: _ => none

def commandKeys : List Str :=
  ["argv", "args", "command", "cmd", "exec", "shellCommand", "script", "proposedExecPolicyAmendment",
    "proposed_exec_policy_amendment"].map String.toList

/-- Enough of `toLowerCase` to find ASCII letters. -/
def lower (key : Str) : Str := key.map Char.toLower

def namesExecPolicy (key : Str) : Bool :=
  Str.containsStr (lower key) "execpolicy".toList || Str.containsStr (lower key) "exec_policy".toList

def found (tokens : Option (List Str)) : Option (List Str) := tokens.filter fun list => !list.isEmpty

/-- The keys of a command in their order, then any key that names an exec policy. -/
def select (members : List (Str × Option (List Str))) : Option (List Str) :=
  (commandKeys.findSome? fun key => found ((members.find? fun member => decide (member.1 = key)).bind Prod.snd)).or
    (members.findSome? fun member => if namesExecPolicy member.1 then found member.2 else none)

mutual

def extractTokens : Json → Option (List Str)
  | .array values => (asStrings values).map normalizeCommandTokens
  | .string text => found (some (splitCommandLine text))
  | .object members => select (extractMembers members)
  | .null | .bool _ | .number _ => none

def extractMembers : List (Str × Json) → List (Str × Option (List Str))
  | [] => []
  | (key, value) :: rest => (key, extractTokens value) :: extractMembers rest

end

def getApprovalCommandInfo (params : Json) : Option (List Str) :=
  (found (extractTokens params)).bind fun tokens => found (some (normalizeCommandTokens tokens))

/-! ## The allowlists -/

abbrev Allowlists := Str → List (List Str)

def rememberApprovalPrefix (lists : Allowlists) (workspaceId : Str) (command : List Str) : Allowlists :=
  let normalized := normalizeCommandTokens command
  if normalized.isEmpty ∨ normalized ∈ lists workspaceId then lists
  else fun other => if other = workspaceId then lists workspaceId ++ [normalized] else lists other

def remembered (commands : List (Str × List Str)) : Allowlists :=
  commands.foldl (fun lists command => rememberApprovalPrefix lists command.1 command.2) fun _ => []

def matchesCommandPrefix (command : List Str) (allowlist : List (List Str)) : Bool :=
  let normalized := normalizeCommandTokens command
  !normalized.isEmpty && allowlist.any fun list => !list.isEmpty && list.isPrefixOf normalized

structure Approval where
  workspaceId : Str
  params : Json

def accepts (lists : Allowlists) (approval : Approval) : Bool :=
  (getApprovalCommandInfo approval.params).any fun tokens => matchesCommandPrefix tokens (lists approval.workspaceId)

/-! ## What is accepted -/

theorem trimBy_trimBy (p : Char → Bool) (s : Str) : trimBy p (trimBy p s) = trimBy p s := by
  have hhead : ((s.dropWhile p).rdropWhile p).dropWhile p = (s.dropWhile p).rdropWhile p := by
    cases htrimmed : (s.dropWhile p).rdropWhile p with
    | nil => rfl
    | cons c =>
      obtain ⟨_, htail⟩ := rdropWhile_prefix p (s.dropWhile p)
      rw [htrimmed] at htail
      have hc : p c = false := by
        have hstart : (s.dropWhile p).head? = some c := by rw [← htail]; rfl
        have hnot := head?_dropWhile_not p s
        rw [hstart] at hnot
        simpa using hnot
      rw [dropWhile_cons_of_neg (by simp [hc])]
  unfold trimBy
  rw [hhead, rdropWhile_idempotent]

theorem normalizeCommandTokens_idem (tokens : List Str) :
    normalizeCommandTokens (normalizeCommandTokens tokens) = normalizeCommandTokens tokens := by
  unfold normalizeCommandTokens
  have hmap : ((tokens.map (trimBy isSpace)).filter fun token => !token.isEmpty).map (trimBy isSpace) =
      (tokens.map (trimBy isSpace)).filter fun token => !token.isEmpty := by
    refine (map_congr_left fun token htoken => ?_).trans (map_id _)
    obtain ⟨raw, -, rfl⟩ := mem_map.1 (mem_of_mem_filter htoken)
    exact trimBy_trimBy isSpace raw
  rw [hmap, filter_filter]
  simp

theorem found_eq_some : found tokens = some list ↔ tokens = some list ∧ list ≠ [] := by
  unfold found
  rw [Option.filter_eq_some_iff]
  simp

theorem of_getApprovalCommandInfo (h : getApprovalCommandInfo params = some tokens) :
    normalizeCommandTokens tokens = tokens ∧ tokens ≠ [] := by
  obtain ⟨_, -, hraw⟩ := Option.bind_eq_some_iff.1 h
  obtain ⟨htokens, hne⟩ := found_eq_some.1 hraw
  refine ⟨?_, hne⟩
  rw [← Option.some.inj htokens, normalizeCommandTokens_idem]

def commandLine : Json → Option Str
  | .object members =>
    (members.find? fun member => decide (member.1 = "command".toList)).bind fun member =>
      match member.2 with
      | .string line => some line
      | _ => none
  | _ => none

/-- **Everything the shell would run is covered**: the line is one simple command and its arguments start with a remembered list. -/
def Covered (allowlist : List (List Str)) (line : Str) : Prop :=
  ∃ args, ShellLine.reading line = some args ∧ ∃ list ∈ allowlist, list.map Arg.literal <+: args

/-- **The browser's words are the shell's**: the line is one simple command that starts with the words found in the request. -/
def SameWords (params : Json) (line : Str) : Prop :=
  ∀ tokens, getApprovalCommandInfo params = some tokens →
    ∃ args, ShellLine.reading line = some args ∧ tokens.map Arg.literal <+: args

theorem accepts_iff : accepts lists approval ↔
      ∃ tokens, getApprovalCommandInfo approval.params = some tokens ∧
        ∃ list ∈ lists approval.workspaceId, list ≠ [] ∧ list <+: tokens := by
  unfold accepts
  rw [Option.any_eq_true]
  refine exists_congr fun tokens => and_congr_right fun hinfo => ?_
  obtain ⟨hnormal, hne⟩ := of_getApprovalCommandInfo hinfo
  unfold matchesCommandPrefix
  simp [hnormal, hne, any_eq_true]

theorem remembered_singleton (workspaceId : Str) (hnormal : normalizeCommandTokens command = command)
    (hne : command ≠ []) : remembered [(workspaceId, command)] workspaceId = [command] := by
  simp [remembered, rememberApprovalPrefix, hnormal, hne]

def listing (line : String) : Approval :=
  ⟨"w".toList, .object [("command".toList, .string line.toList), ("cwd".toList, .string "/".toList)]⟩

end Owc.AutoAccept
