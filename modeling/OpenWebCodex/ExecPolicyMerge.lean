import OpenWebCodex.ExecPolicy
/-!
# ExecPolicyMerge — what merging and adding rules does to a decision

Rules are only ever added, so a match of one kind stays a match of its kind.  What may change is which kind is consulted: a
match by file name is not, once a rule for the path itself matches or a list of paths leaves the path out.
-/
namespace Owc.ExecPolicy

open List
open Permissions (Host AbsolutePathBuf Path fromAbsolutePath bareHost)

def resolving : MatchOptions := ⟨true⟩

namespace Policy

def exactMatches (policy : Policy) (cmd : List Str) : List RuleMatch := (policy.matchExactRules cmd).getD []

variable {host : Host} {policy : Policy} {cmd : List Str}

theorem orHeuristics_none (matchedRules : List RuleMatch) : orHeuristics cmd none matchedRules = matchedRules := by
  cases matchedRules <;> rfl

theorem matches_resolving (host : Host) (policy : Policy) (cmd : List Str) :
    policy.matchesForCommandWithOptions host cmd none resolving =
      if policy.exactMatches cmd = [] then policy.matchHostExecutableRules host cmd else policy.exactMatches cmd := by
  unfold matchesForCommandWithOptions exactMatches resolving
  rw [orHeuristics_none, if_pos rfl]
  cases policy.matchExactRules cmd with
  | none => cases policy.matchHostExecutableRules host cmd <;> rfl
  | some matched =>
    cases matched with
    | nil => cases policy.matchHostExecutableRules host cmd <;> rfl
    | cons => rfl

section

variable {ruleMatch : RuleMatch} (fallback : List Str → Decision)

theorem mem_matches_fallback (h : ruleMatch ∈ policy.matchesForCommandWithOptions host cmd none options) :
    policy.matchesForCommandWithOptions host cmd (some fallback) options =
      policy.matchesForCommandWithOptions host cmd none options := by
  unfold matchesForCommandWithOptions at h ⊢
  dsimp only at h ⊢
  rw [orHeuristics_none] at h ⊢
  cases hmatched : (Option.or _ _).getD [] with
  | nil => exact absurd (hmatched ▸ h) not_mem_nil
  | cons => rfl

theorem le_check (h : ruleMatch ∈ policy.matchesForCommandWithOptions host cmd none resolving) :
    ∃ evaluation, policy.checkWithOptions host cmd fallback resolving = some evaluation ∧
      ruleMatch.decision ≤ evaluation.decision := by
  unfold checkWithOptions Evaluation.fromMatches
  rw [mem_matches_fallback fallback h]
  have hmem : ruleMatch.decision ∈ _ := mem_map_of_mem h
  cases hmax : ((policy.matchesForCommandWithOptions host cmd none resolving).map RuleMatch.decision).max? with
  | none => exact absurd (max?_eq_none_iff.1 hmax ▸ hmem) not_mem_nil
  | some => exact ⟨_, rfl, (max?_eq_some_iff.1 hmax).2 _ hmem⟩

end

theorem mem_matchHostExecutableRules : ruleMatch ∈ policy.matchHostExecutableRules host cmd ↔
      ∃ first program basename, cmd.head? = some first ∧ fromAbsolutePath host (Path.ofText first) = some program ∧
        executablePathLookupKey program = some basename ∧
        (∀ paths, policy.hostExecutablesByName.get basename = some paths → program ∈ paths) ∧
        ruleMatch ∈ ((policy.rulesByProgram.getVec basename).filterMap (·.ruleMatch (basename :: cmd.drop 1))).map
          (·.withResolvedProgram program) := by
  unfold matchHostExecutableRules
  cases hfirst : cmd.head? with
  | none => simp
  | some first =>
    cases hprogram : fromAbsolutePath host (Path.ofText first) with
    | none => simp [hprogram]
    | some program =>
      cases hbasename : executablePathLookupKey program with
      | none => simp [hprogram, hbasename]
      | some basename =>
        cases hpaths : policy.hostExecutablesByName.get basename with
        | none => simp [hprogram, hbasename, hpaths]
        | some paths =>
          by_cases hlisted : program ∈ paths <;> simp [hprogram, hbasename, hpaths, hlisted]

end Policy

namespace Policy

variable {host : Host} {U R : Policy} {cmd : List Str} {ruleMatch : RuleMatch}

/-! ## Merging -/

theorem getVec_mergeOverlay (U R : Policy) (program : Str) :
    (U.mergeOverlay R).rulesByProgram.getVec program = U.rulesByProgram.getVec program ++ R.rulesByProgram.getVec program :=
  filterMap_append

theorem hostExecutables_mergeOverlay (U R : Policy) (basename : Str) : (U.mergeOverlay R).hostExecutablesByName.get basename =
      (R.hostExecutablesByName.get basename).or (U.hostExecutablesByName.get basename) :=
  Table.get_extend _ _ _

theorem exactMatches_mergeOverlay (U R : Policy) (cmd : List Str) :
    (U.mergeOverlay R).exactMatches cmd = U.exactMatches cmd ++ R.exactMatches cmd := by
  unfold exactMatches matchExactRules
  cases cmd.head? with
  | none => rfl
  | some first =>
    show List.filterMap _ ((U.mergeOverlay R).rulesByProgram.getVec first) = _
    rw [getVec_mergeOverlay, filterMap_append]
    rfl

/-- A match by file name of either policy is one of the merged policy, if the merged list of paths has the program. -/
theorem mem_matchHost_mergeOverlay (hpolicy : policy = U ∨ policy = R)
    (hlisted : ∀ first program basename, cmd.head? = some first →
      fromAbsolutePath host (Path.ofText first) = some program → executablePathLookupKey program = some basename →
      (∀ paths, policy.hostExecutablesByName.get basename = some paths → program ∈ paths) →
      ∀ paths, (U.mergeOverlay R).hostExecutablesByName.get basename = some paths → program ∈ paths)
    (h : ruleMatch ∈ policy.matchHostExecutableRules host cmd) :
    ruleMatch ∈ (U.mergeOverlay R).matchHostExecutableRules host cmd := by
  rw [mem_matchHostExecutableRules] at h ⊢
  obtain ⟨first, program, basename, hfirst, hprogram, hbasename, hown, hmatch⟩ := h
  refine ⟨first, program, basename, hfirst, hprogram, hbasename,
    hlisted first program basename hfirst hprogram hbasename hown, ?_⟩
  rw [getVec_mergeOverlay, filterMap_append, map_append]
  rcases hpolicy with rfl | rfl
  · exact mem_append_left _ hmatch
  · exact mem_append_right _ hmatch

/-- The lists of paths in `U` leave the program of `cmd` to the rules for its name, as far as `R` has no list of its own. -/
def ListsProgram (host : Host) (U R : Policy) (cmd : List Str) : Prop :=
  ∀ first program basename, cmd.head? = some first → fromAbsolutePath host (Path.ofText first) = some program →
    executablePathLookupKey program = some basename → R.hostExecutablesByName.get basename = none →
    ∀ paths, U.hostExecutablesByName.get basename = some paths → program ∈ paths

/-- The rules of `R` that match `cmd` alone are consulted over `U` too: they are for the first token itself, or no rule of
`U` is and the lists of `U` leave the program to them. -/
def Consulted (host : Host) (U R : Policy) (cmd : List Str) : Prop :=
  R.exactMatches cmd ≠ [] ∨ U.exactMatches cmd = [] ∧ ListsProgram host U R cmd

theorem mem_matches_mergeOverlay (hconsulted : Consulted host U R cmd)
    (h : ruleMatch ∈ R.matchesForCommandWithOptions host cmd none resolving) :
    ruleMatch ∈ (U.mergeOverlay R).matchesForCommandWithOptions host cmd none resolving := by
  rw [matches_resolving, exactMatches_mergeOverlay]
  rw [matches_resolving] at h
  by_cases hexact : R.exactMatches cmd = []
  · obtain ⟨hU, hlists⟩ := hconsulted.resolve_left fun hne => hne hexact
    rw [if_pos hexact] at h
    rw [if_pos (by rw [hU, hexact]; rfl)]
    refine mem_matchHost_mergeOverlay (.inr rfl) (fun first program basename hfirst hprogram hbasename hown paths => ?_) h
    rw [hostExecutables_mergeOverlay]
    cases hR : R.hostExecutablesByName.get basename with
    | none => exact hlists first program basename hfirst hprogram hbasename hR paths
    | some => exact fun hpaths => hown paths (hR.trans hpaths)
  · rw [if_neg hexact] at h
    rw [if_neg (by simp [hexact])]
    exact mem_append_right _ h

/-! ## Adding a rule -/

def ofPrefixRule (first : Str) (rule : PrefixRule) : Policy := ⟨[(first, rule)], [], []⟩

theorem addPrefixRule_cons (policy : Policy) (first : Str) (rest : List Str) (decision : Decision) :
    policy.addPrefixRule (first :: rest) decision =
      .ok (policy.mergeOverlay (ofPrefixRule first ⟨⟨first, rest.map .single⟩, decision, none⟩)) := by
  unfold addPrefixRule mergeOverlay ofPrefixRule
  simp only [append_nil]
  rfl

end Policy

theorem all_single_iff (rest : List Str) : ∀ cmd, rest.length ≤ cmd.length →
      (((rest.map PatternToken.single).zip (cmd.take rest.length)).all (fun pair => pair.1.isMatch pair.2) = true ↔
        rest <+: cmd) := by
  induction rest with
  | nil => simp
  | cons token rest ih =>
    intro cmd hlength
    cases cmd with
    | nil => cases hlength
    | cons c cmd =>
      rw [map_cons, length_cons, take_succ_cons, zip_cons_cons, all_cons, Bool.and_eq_true,
        ih cmd (Nat.le_of_succ_le_succ hlength), cons_prefix_cons]
      exact and_congr_left fun _ => beq_iff_eq

theorem matchesPrefix_single (first : Str) (rest cmd : List Str) :
    (PrefixPattern.mk first (rest.map .single)).matchesPrefix cmd =
      if first :: rest <+: cmd then some (first :: rest) else none := by
  unfold PrefixPattern.matchesPrefix
  cases cmd with
  | nil => simp
  | cons c cmd =>
    dsimp only
    rw [length_map, take_succ_cons, drop_succ_cons, drop_zero]
    by_cases hfirst : c = first
    · subst hfirst
      by_cases hlength : rest.length ≤ cmd.length
      · have hall := all_single_iff rest cmd hlength
        rw [if_neg (by simp [hlength])]
        by_cases hpre : rest <+: cmd
        · have htake : cmd.take rest.length = rest := (prefix_iff_eq_take.1 hpre).symm
          rw [if_pos (hall.2 hpre), if_pos (cons_prefix_cons.2 ⟨rfl, hpre⟩), htake]
        · rw [if_neg fun h => hpre (hall.1 h), if_neg fun h => hpre (cons_prefix_cons.1 h).2]
      · have hpre : ¬ rest <+: cmd := fun h => hlength h.length_le
        rw [if_pos (by simpa using hlength), if_neg fun h => hpre (cons_prefix_cons.1 h).2]
    · rw [if_pos (by simp [hfirst]), if_neg fun h => hfirst (cons_prefix_cons.1 h).1.symm]

namespace Policy

variable {host : Host} {policy : Policy} {cmd : List Str} {ruleMatch : RuleMatch}

theorem exactMatches_ofPrefixRule (first : Str) (rest : List Str) (decision : Decision) (cmd : List Str) :
    (ofPrefixRule first ⟨⟨first, rest.map .single⟩, decision, none⟩).exactMatches cmd =
      if first :: rest <+: cmd then [.prefixRuleMatch (first :: rest) decision none none] else [] := by
  unfold exactMatches matchExactRules ofPrefixRule RulesByProgram.getVec PrefixRule.ruleMatch
  cases cmd with
  | nil => simp
  | cons c cmd =>
    by_cases hfirst : first = c
    · simp only [head?_cons, Option.map_some, filterMap_cons, hfirst, if_pos, filterMap_nil,
        matchesPrefix_single, Option.getD_some]
      by_cases hpre : c :: rest <+: c :: cmd <;> simp [hpre]
    · have hpre : ¬ first :: rest <+: c :: cmd := fun h => hfirst (cons_prefix_cons.1 h).1
      simp [hfirst, hpre]

/-- A match stays a match when a rule is added, unless it is by file name and the rule is for the path itself. -/
theorem mem_matches_added (hkept : policy.exactMatches cmd ≠ [] ∨ ¬ first :: rest <+: cmd)
    (h : ruleMatch ∈ policy.matchesForCommandWithOptions host cmd none resolving) :
    ruleMatch ∈ (policy.mergeOverlay (ofPrefixRule first ⟨⟨first, rest.map .single⟩, decision, none⟩)).matchesForCommandWithOptions
      host cmd none resolving := by
  rw [matches_resolving, exactMatches_mergeOverlay, exactMatches_ofPrefixRule]
  rw [matches_resolving] at h
  split at h
  · next hexact =>
    have hpre := hkept.resolve_left fun hne => hne hexact
    rw [if_neg hpre, hexact, append_nil, if_pos rfl]
    refine mem_matchHost_mergeOverlay (.inl rfl) (fun first program basename _ _ _ hown paths => ?_) h
    rw [hostExecutables_mergeOverlay]
    exact hown paths
  · next hexact =>
    rw [if_neg (by simp [hexact])]
    exact mem_append_left _ h

theorem check_added_exact (fallback : List Str → Decision)
    (hexact : policy.exactMatches cmd = []) (hpre : first :: rest <+: cmd) :
    (policy.mergeOverlay (ofPrefixRule first ⟨⟨first, rest.map .single⟩, .allow, none⟩)).checkWithOptions host cmd fallback
      resolving = some ⟨.allow, [.prefixRuleMatch (first :: rest) .allow none none]⟩ := by
  have hmatches : (policy.mergeOverlay (ofPrefixRule first ⟨⟨first, rest.map .single⟩, .allow, none⟩)).matchesForCommandWithOptions
      host cmd none resolving = [.prefixRuleMatch (first :: rest) .allow none none] := by
    rw [matches_resolving, exactMatches_mergeOverlay, exactMatches_ofPrefixRule, hexact, if_pos hpre, nil_append,
      if_neg (cons_ne_nil _ _)]
  unfold checkWithOptions
  rw [mem_matches_fallback fallback (hmatches ▸ mem_singleton_self _), hmatches]
  rfl

end Policy

open Policy in
/-- **Merging keeps what the overlay's rules decide wherever they are consulted, and an added rule weakens a decision exactly
where it is for the path of a program that was matched by its name.** -/
theorem merge_and_add_never_weaken (host : Host) : (∀ (U R : Policy) (cmd : List Str) (fallback : List Str → Decision),
      ∀ ruleMatch ∈ R.matchesForCommandWithOptions host cmd none resolving, Consulted host U R cmd →
      ∃ evaluation, (U.mergeOverlay R).checkWithOptions host cmd fallback resolving = some evaluation ∧
        ruleMatch.decision ≤ evaluation.decision) ∧
    ∀ (policy added : Policy) (tokens cmd : List Str) (fallback : List Str → Decision),
      policy.addPrefixRule tokens .allow = .ok added →
      ∀ ruleMatch ∈ policy.matchesForCommandWithOptions host cmd none resolving, ruleMatch.decision ≠ .allow →
      ((∃ evaluation, added.checkWithOptions host cmd fallback resolving = some evaluation ∧
          ruleMatch.decision ≤ evaluation.decision) ↔
        policy.exactMatches cmd ≠ [] ∨ ¬ tokens <+: cmd) := by
  refine ⟨fun U R cmd fallback ruleMatch h hconsulted => le_check fallback (mem_matches_mergeOverlay hconsulted h), ?_⟩
  intro policy added tokens cmd fallback hadd ruleMatch h hstrict
  cases tokens with
  | nil => cases hadd
  | cons =>
    rw [addPrefixRule_cons] at hadd
    cases hadd
    constructor
    · rintro ⟨evaluation, hcheck, hle⟩
      by_contra hnot
      rw [not_or, not_not, not_not] at hnot
      rw [check_added_exact fallback hnot.1 hnot.2] at hcheck
      cases hcheck
      exact hstrict (le_antisymm hle (Decision.allow_le _))
    · exact fun hkept => le_check fallback (mem_matches_added hkept h)

def managedPolicy : Policy := Policy.ofPrefixRule "git".toList ⟨⟨"git".toList, []⟩, .forbidden, none⟩

def pathPolicy : Policy := Policy.ofPrefixRule "/usr/bin/git".toList ⟨⟨"/usr/bin/git".toList, []⟩, .allow, none⟩

def emptyListPolicy : Policy := ⟨[], [], [("git".toList, [])]⟩

theorem managed_git_stays_forbidden :
    ∃ evaluation, (pathPolicy.mergeOverlay managedPolicy).checkWithOptions bareHost ["git".toList, "push".toList]
      (fun _ => .allow) resolving = some evaluation ∧ Decision.forbidden ≤ evaluation.decision :=
  (merge_and_add_never_weaken bareHost).1 pathPolicy managedPolicy ["git".toList, "push".toList] _
    (.prefixRuleMatch ["git".toList] .forbidden none none) (by decide) (.inl (by decide))

/-- **A rule for the path, a list without it, or an added rule for it hides the managed rule for the name.** -/
theorem managed_git_allowed_by_path :
    managedPolicy.matchesForCommandWithOptions bareHost ["/usr/bin/git".toList, "push".toList] none resolving =
      [.prefixRuleMatch ["git".toList] .forbidden (some ["usr".toList, "bin".toList, "git".toList]) none] ∧
    (pathPolicy.mergeOverlay managedPolicy).checkWithOptions bareHost ["/usr/bin/git".toList, "push".toList] (fun _ => .prompt)
      resolving = some ⟨.allow, [.prefixRuleMatch ["/usr/bin/git".toList] .allow none none]⟩ ∧
    (emptyListPolicy.mergeOverlay managedPolicy).checkWithOptions bareHost ["/usr/bin/git".toList, "push".toList]
      (fun _ => .allow) resolving =
      some ⟨.allow, [.heuristicsRuleMatch ["/usr/bin/git".toList, "push".toList] .allow]⟩ ∧
    ∃ added, managedPolicy.addPrefixRule ["/usr/bin/git".toList] .allow = .ok added ∧
      added.checkWithOptions bareHost ["/usr/bin/git".toList, "push".toList] (fun _ => .prompt) resolving =
        some ⟨.allow, [.prefixRuleMatch ["/usr/bin/git".toList] .allow none none]⟩ := by
  refine ⟨by decide, by decide, by decide, _, rfl, by decide⟩

end Owc.ExecPolicy
