import OpenWebCodex.AbsolutePath
import OpenWebCodex.Table
/-!
# ExecPolicy — rules on the commands that may run, and how policies are merged

Rules are kept under the program they are for.  A command is matched by the rules for its first token; if none matches and
the token is an absolute path, by the rules for the path's file name, unless the policy lists the paths of that name and
leaves this one out.  Of the matches the strictest decides.
-/
namespace Owc.ExecPolicy

open Permissions (Host AbsolutePathBuf Path fromAbsolutePath bareHost)

inductive Decision
  | allow
  | prompt
  | forbidden
deriving DecidableEq

namespace Decision

def rank : Decision → Nat
  | allow => 0
  | prompt => 1
  | forbidden => 2

theorem rank_injective : Function.Injective rank := by
  intro a b h
  cases a <;> cases b <;> first | rfl | cases h

instance : LinearOrder Decision := LinearOrder.lift' rank rank_injective

instance : Std.LawfulOrderMax Decision where
  max_eq_or := max_choice
  max_le_iff _ _ _ := max_le_iff

theorem allow_le (decision : Decision) : allow ≤ decision := Nat.zero_le (rank decision)

end Decision

inductive PatternToken
  | single (expected : Str)
  | alts (alternatives : List Str)

def PatternToken.isMatch : PatternToken → Str → Bool
  | single expected, token => expected == token
  | alts alternatives, token => alternatives.any (· == token)

structure PrefixPattern where
  first : Str
  rest : List PatternToken

def PrefixPattern.matchesPrefix (pattern : PrefixPattern) (cmd : List Str) : Option (List Str) :=
  let patternLength := pattern.rest.length + 1
  if cmd.length < patternLength || cmd.head? != some pattern.first then none
  else if (pattern.rest.zip ((cmd.take patternLength).drop 1)).all (fun pair => pair.1.isMatch pair.2) then
    some (cmd.take patternLength)
  else none

inductive RuleMatch
  | prefixRuleMatch (matchedPrefix : List Str) (decision : Decision) (resolvedProgram : Option AbsolutePathBuf)
      (justification : Option Str)
  | heuristicsRuleMatch (command : List Str) (decision : Decision)
deriving DecidableEq

namespace RuleMatch

def decision : RuleMatch → Decision
  | prefixRuleMatch _ decision _ _ => decision
  | heuristicsRuleMatch _ decision => decision

def withResolvedProgram (program : AbsolutePathBuf) : RuleMatch → RuleMatch
  | prefixRuleMatch matched decision _ justification => prefixRuleMatch matched decision (some program) justification
  | other => other

end RuleMatch

structure PrefixRule where
  pattern : PrefixPattern
  decision : Decision
  justification : Option Str

def PrefixRule.ruleMatch (rule : PrefixRule) (cmd : List Str) : Option RuleMatch :=
  (rule.pattern.matchesPrefix cmd).map (fun matched => .prefixRuleMatch matched rule.decision none rule.justification)

inductive NetworkRuleProtocol
  | http
  | https
  | socks5Tcp
  | socks5Udp

structure NetworkRule where
  host : Str
  protocol : NetworkRuleProtocol
  decision : Decision
  justification : Option Str

/-- A multimap: the rules of a program in the order in which they were inserted. -/
abbrev RulesByProgram := List (Str × PrefixRule)

def RulesByProgram.getVec (rules : RulesByProgram) (program : Str) : List PrefixRule :=
  rules.filterMap (fun entry => if entry.1 = program then some entry.2 else none)

structure Policy where
  rulesByProgram : RulesByProgram
  networkRules : List NetworkRule
  hostExecutablesByName : Table Str (List AbsolutePathBuf)

structure MatchOptions where
  resolveHostExecutables : Bool

structure Evaluation where
  decision : Decision
  matchedRules : List RuleMatch
deriving DecidableEq

/-- Of no matches there is no strictest one; the source expects at least one. -/
def Evaluation.fromMatches (matchedRules : List RuleMatch) : Option Evaluation :=
  (matchedRules.map RuleMatch.decision).max?.map (⟨·, matchedRules⟩)

def executablePathLookupKey (program : AbsolutePathBuf) : Option Str := program.getLast?

namespace Policy

def addPrefixRule (policy : Policy) (tokens : List Str) (decision : Decision) : Except Str Policy :=
  match tokens with
  | [] => .error "prefix cannot be empty".toList
  | first :: rest =>
    let rule : PrefixRule := ⟨⟨first, rest.map .single⟩, decision, none⟩
    .ok { policy with rulesByProgram := policy.rulesByProgram ++ [(first, rule)] }

def mergeOverlay (policy overlay : Policy) : Policy where
  rulesByProgram := policy.rulesByProgram ++ overlay.rulesByProgram
  networkRules := policy.networkRules ++ overlay.networkRules
  hostExecutablesByName := policy.hostExecutablesByName.extend overlay.hostExecutablesByName

def matchExactRules (policy : Policy) (cmd : List Str) : Option (List RuleMatch) :=
  cmd.head?.map (fun first => (policy.rulesByProgram.getVec first).filterMap (·.ruleMatch cmd))

variable (host : Host)

def matchHostExecutableRules (policy : Policy) (cmd : List Str) : List RuleMatch :=
  match cmd.head? with
  | none => []
  | some first =>
    match fromAbsolutePath host (Path.ofText first) with
    | none => []
    | some program =>
      match executablePathLookupKey program with
      | none => []
      | some basename =>
        let rules := policy.rulesByProgram.getVec basename
        if (policy.hostExecutablesByName.get basename).any (fun paths => !paths.any (· == program)) then []
        else
          let basenameCommand := basename :: cmd.drop 1
          (rules.filterMap (·.ruleMatch basenameCommand)).map (·.withResolvedProgram program)

def orHeuristics (cmd : List Str) (heuristicsFallback : Option (List Str → Decision)) : List RuleMatch → List RuleMatch
  | [] =>
    match heuristicsFallback with
    | some fallback => [.heuristicsRuleMatch cmd (fallback cmd)]
    | none => []
  | matchedRules => matchedRules

def matchesForCommandWithOptions (policy : Policy) (cmd : List Str) (heuristicsFallback : Option (List Str → Decision))
    (options : MatchOptions) : List RuleMatch :=
  let exactRules := (policy.matchExactRules cmd).filter (!·.isEmpty)
  let hostRules := (if options.resolveHostExecutables then some (policy.matchHostExecutableRules host cmd) else none).filter
    (!·.isEmpty)
  orHeuristics cmd heuristicsFallback ((exactRules.or hostRules).getD [])

def checkWithOptions (policy : Policy) (cmd : List Str) (heuristicsFallback : List Str → Decision) (options : MatchOptions) :
    Option Evaluation :=
  Evaluation.fromMatches (policy.matchesForCommandWithOptions host cmd (some heuristicsFallback) options)

end Policy

end Owc.ExecPolicy
