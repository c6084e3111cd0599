import OpenWebCodex.NetworkConstraints
/-!
# NetworkInclusion — what an accepted configuration admits, the managed list admits

A compiled list matches a host if one of the globs of one of its patterns does.  A domain that ends in a dot and another
domain has its matches among those of the other's subdomains.
-/
namespace Owc.Network

open List DomainPattern

section Compile

variable {crates : Crates}

/-- What a set of globs was built from: every glob is the one of its text, and the texts are those of `candidates`. -/
structure Built (crates : Crates) (set : GlobSet) (candidates : List Str) : Prop where
  glob : ∀ entry ∈ set, crates.glob entry.1 = some entry.2
  texts : ∀ candidate, (∃ entry ∈ set, entry.1 = candidate) ↔ candidate ∈ candidates

theorem Built.addCandidate {set built candidates candidate} (h : Built crates set candidates)
    (hadd : addCandidate crates set candidate = .ok built) : Built crates built (candidates ++ [candidate]) := by
  unfold Network.addCandidate at hadd
  split at hadd
  · next hseen =>
    cases hadd
    obtain ⟨entry, hentry, heq⟩ := any_eq_true.1 hseen
    have hknown : candidate ∈ candidates := (h.texts candidate).1 ⟨entry, hentry, beq_iff_eq.1 heq⟩
    refine ⟨h.glob, fun other => ?_⟩
    rw [h.texts, mem_append, mem_singleton]
    exact ⟨.inl, fun hor => hor.elim id fun heq => heq ▸ hknown⟩
  · cases hglob : crates.glob candidate with
    | none =>
      rw [hglob] at hadd
      cases hadd
    | some =>
      rw [hglob] at hadd
      cases hadd
      refine ⟨fun entry hentry => ?_, fun other => ?_⟩
      · rcases mem_append.1 hentry with hold | hnew
        · exact h.glob entry hold
        · rw [mem_singleton.1 hnew]
          exact hglob
      · rw [mem_append, mem_singleton, ← h.texts]
        simp only [mem_append, mem_singleton, or_and_right, exists_or, exists_eq_left]
        exact or_congr_right eq_comm

theorem Built.foldlM (step : GlobSet → Str → Except ε GlobSet) (texts : Str → List Str)
    (hstep : ∀ ⦃set built candidates text⦄, Built crates set candidates → step set text = .ok built →
      Built crates built (candidates ++ texts text)) : ∀ {added : List Str} {set built candidates}, Built crates set candidates →
    added.foldlM step set = .ok built → Built crates built (candidates ++ added.flatMap texts)
  | [], _, _, _, h, hadd => by
    cases hadd
    simpa using h
  | text :: added, globs, _, _, h, hadd => by
    rw [foldlM_cons] at hadd
    cases hfirst : step globs text with
    | error =>
      rw [hfirst] at hadd
      cases hadd
    | ok =>
      rw [hfirst] at hadd
      rw [flatMap_cons, ← append_assoc]
      exact foldlM step texts hstep (hstep h hfirst) hadd

theorem Built.addPattern {set built candidates pattern} (h : Built crates set candidates)
    (hadd : addPattern crates .allow set pattern = .ok built) :
    Built crates built (candidates ++ expandDomainPattern (normalizePattern crates pattern)) := by
  have hbuilt := Built.foldlM _ (fun text => [text]) (fun _ _ _ _ => addCandidate) h hadd
  rwa [flatMap_singleton'] at hbuilt

def candidatesOf (crates : Crates) (patterns : List Str) : List Str :=
  patterns.flatMap (fun pattern => expandDomainPattern (normalizePattern crates pattern))

/-- **A compiled allowlist matches what one of its globs matches.** -/
theorem isMatch_compile_iff {patterns set} (hset : compileAllowlistGlobset crates patterns = .ok set) (host : Str) :
    set.isMatch host ↔ ∃ pattern ∈ patterns, ∃ candidate ∈ expandDomainPattern (normalizePattern crates pattern),
        ∃ glob, crates.glob candidate = some glob ∧ glob host := by
  have hbuilt : Built crates set ([] ++ candidatesOf crates patterns) :=
    Built.foldlM (Network.addPattern crates .allow) _ (fun _ _ _ _ => .addPattern)
      ⟨fun _ h => absurd h not_mem_nil, fun _ => by simp⟩ hset
  unfold GlobSet.isMatch
  rw [any_eq_true]
  constructor
  · rintro ⟨entry, hentry, hmatch⟩
    obtain ⟨pattern, hpattern, hcandidate⟩ := mem_flatMap.1 ((hbuilt.texts entry.1).1 ⟨entry, hentry, rfl⟩)
    exact ⟨pattern, hpattern, entry.1, hcandidate, entry.2, hbuilt.glob entry hentry, hmatch⟩
  · rintro ⟨pattern, hpattern, candidate, hcandidate, glob, hglob, hmatch⟩
    obtain ⟨entry, hentry, rfl⟩ := (hbuilt.texts candidate).2 (mem_flatMap.2 ⟨pattern, hpattern, hcandidate⟩)
    have heq : entry.2 = glob := Option.some_inj.1 ((hbuilt.glob entry hentry).symm.trans hglob)
    exact ⟨entry, hentry, heq ▸ hmatch⟩

end Compile

section Inclusion

def DomainPattern.domain : DomainPattern → Str
  | apexAndSubdomains domain | subdomainsOnly domain | exact domain => domain

def DomainPattern.normalized : DomainPattern → DomainPattern
  | apexAndSubdomains domain => apexAndSubdomains (normalizeDomain domain)
  | subdomainsOnly domain => subdomainsOnly (normalizeDomain domain)
  | exact domain => exact (normalizeDomain domain)

def enforced (crates : Crates) (entry : Str) : DomainPattern := .parse (normalizePattern crates entry)

/-- Enforcement and the constraint check read one pattern from the entry, and it is a plain glob. -/
def ReadAlike (crates : Crates) (entry : Str) : Prop :=
  enforced crates entry = (DomainPattern.parseForConstraints crates entry).normalized ∧
    ∀ c ∈ (enforced crates entry).domain, c ∉ globMeta

/-- What stands before the managed domain and its dot is not only stars. -/
def Anchored (crates : Crates) (entry managed : Str) : Prop :=
  ∀ before, (enforced crates entry).domain = before ++ '.' :: (enforced crates managed).domain → ∃ c ∈ before, c ≠ '*'

def textMatch (pattern host : Str) : Bool := Glob.isMatch (pattern.map globToken) (host.map Char.toLower)

def DomainPattern.expand : DomainPattern → List Str
  | exact domain => [domain]
  | subdomainsOnly domain => ["?*.".toList ++ domain]
  | apexAndSubdomains domain => [domain, "?*.".toList ++ domain]

theorem expand_normalizePattern (crates : Crates) (entry : Str) :
    expandDomainPattern (normalizePattern crates entry) = (enforced crates entry).expand := by
  cases parse (normalizePattern crates entry) <;> rfl

theorem plain_of_mem_expand {pattern : DomainPattern} (hplain : ∀ c ∈ pattern.domain, c ∉ globMeta) {candidate : Str}
    (hcandidate : candidate ∈ pattern.expand) : ∀ c ∈ candidate, c ∉ globMeta := by
  have hhead : ∀ c ∈ "?*.".toList ++ pattern.domain, c ∉ globMeta :=
    forall_mem_append.2 ⟨all_iff_forall_prop.1 (by decide), hplain⟩
  cases pattern with
  | exact => exact mem_singleton.1 hcandidate ▸ hplain
  | subdomainsOnly => exact mem_singleton.1 hcandidate ▸ hhead
  | apexAndSubdomains =>
    rcases mem_pair.1 hcandidate with rfl | rfl
    · exact hplain
    · exact hhead

theorem isMatch_plain_iff {crates : Crates} (hglobs : crates.PlainGlobs) {patterns : List Str} {set : GlobSet}
    (hset : compileAllowlistGlobset crates patterns = .ok set) (hplain : ∀ pattern ∈ patterns, ReadAlike crates pattern)
    (host : Str) :
    set.isMatch host ↔ ∃ pattern ∈ patterns, ∃ candidate ∈ (enforced crates pattern).expand, textMatch candidate host := by
  rw [isMatch_compile_iff hset]
  refine exists_congr fun pattern => and_congr_right fun hpattern => ?_
  rw [expand_normalizePattern]
  refine exists_congr fun candidate => and_congr_right fun hcandidate => ?_
  rw [hglobs candidate (plain_of_mem_expand (hplain pattern hpattern).2 hcandidate)]
  simp [textMatch]

theorem textMatch_subdomain {before domain host : Str} (hanchor : ∃ c ∈ before, c ≠ '*')
    (h : textMatch (before ++ '.' :: domain) host) : textMatch ("?*.".toList ++ domain) host := by
  unfold textMatch at h ⊢
  rw [map_append, map_cons] at h
  obtain ⟨first, rest, hsplit, hfirst, hrest⟩ := Glob.isMatch_append_iff.1 h
  obtain ⟨c, hc, hstar⟩ := hanchor
  have hne : first ≠ [] := by
    refine Glob.ne_nil_of_isMatch hfirst (mem_map_of_mem hc) ?_
    unfold globToken
    rw [if_neg hstar]
    split <;> nofun
  obtain ⟨b, first, rfl⟩ := exists_cons_of_ne_nil hne
  rw [hsplit]
  exact Glob.isMatch_any_iff.2 ⟨b, first ++ rest, rfl, Glob.isMatch_star_iff.2 ⟨first, rest, rfl, hrest⟩⟩

theorem subdomain_of_isStrictSubdomain (h : isStrictSubdomain child parent) :
    ∃ before, normalizeDomain child = before ++ '.' :: normalizeDomain parent := by
  obtain ⟨before, hbefore⟩ := isSuffixOf_iff_suffix.1 (Bool.and_eq_true_iff.1 h).2
  exact ⟨before, hbefore.symm⟩

theorem subdomain_of_isSubdomainOrEqual (h : isSubdomainOrEqual child parent) :
    normalizeDomain child = normalizeDomain parent ∨
      ∃ before, normalizeDomain child = before ++ '.' :: normalizeDomain parent := by
  unfold isSubdomainOrEqual at h
  by_cases heq : normalizeDomain child = normalizeDomain parent
  · exact .inl heq
  refine .inr ?_
  simp only [beq_iff_eq, heq, if_false] at h
  obtain ⟨before, hbefore⟩ := isSuffixOf_iff_suffix.1 h
  exact ⟨before, hbefore.symm⟩

theorem textMatch_subdomains {before domain host : Str} (h : textMatch ("?*.".toList ++ (before ++ '.' :: domain)) host) :
    textMatch ("?*.".toList ++ domain) host := by
  rw [← append_assoc] at h
  exact textMatch_subdomain ⟨'?', by simp, by decide⟩ h

section

variable {child domain host : Str} (hchild : child = domain ∨ ∃ before, child = before ++ '.' :: domain)
include hchild

theorem textMatch_at_or_below (hanchor : ∀ before, child = before ++ '.' :: domain → ∃ c ∈ before, c ≠ '*')
    (h : textMatch child host) : textMatch domain host ∨ textMatch ("?*.".toList ++ domain) host := by
  rcases hchild with rfl | ⟨before, rfl⟩
  · exact .inl h
  · exact .inr (textMatch_subdomain (hanchor before rfl) h)

theorem textMatch_subdomains_of_child (h : textMatch ("?*.".toList ++ child) host) :
    textMatch ("?*.".toList ++ domain) host := by
  rcases hchild with rfl | ⟨before, rfl⟩
  · exact h
  · exact textMatch_subdomains h

end

/-- **What a pattern matches, a pattern that allows it matches**, both read as the check reads them. -/
theorem textMatch_of_allows {managed pattern : DomainPattern} (hallows : managed.allows pattern)
    (hanchor : ∀ before, pattern.normalized.domain = before ++ '.' :: managed.normalized.domain → ∃ c ∈ before, c ≠ '*')
    {candidate host : Str} (hcandidate : candidate ∈ pattern.normalized.expand) (h : textMatch candidate host) :
    ∃ other ∈ managed.normalized.expand, textMatch other host := by
  cases managed with
  | exact =>
    cases pattern with
    | exact =>
      rw [mem_singleton.1 hcandidate, beq_iff_eq.1 hallows] at h
      exact ⟨_, mem_singleton_self _, h⟩
    | _ => cases hallows
  | subdomainsOnly =>
    refine ⟨_, mem_singleton_self _, ?_⟩
    cases pattern with
    | exact =>
      obtain ⟨before, hbefore⟩ := subdomain_of_isStrictSubdomain hallows
      rw [mem_singleton.1 hcandidate, hbefore] at h
      exact textMatch_subdomain (hanchor before hbefore) h
    | subdomainsOnly =>
      rw [mem_singleton.1 hcandidate] at h
      exact textMatch_subdomains_of_child (subdomain_of_isSubdomainOrEqual hallows) h
    | apexAndSubdomains =>
      obtain ⟨before, hbefore⟩ := subdomain_of_isStrictSubdomain hallows
      rcases mem_pair.1 hcandidate with rfl | rfl
      · rw [hbefore] at h
        exact textMatch_subdomain (hanchor before hbefore) h
      · exact textMatch_subdomains_of_child (.inr ⟨before, hbefore⟩) h
  | apexAndSubdomains domain =>
    suffices h : textMatch (normalizeDomain domain) host ∨ textMatch ("?*.".toList ++ normalizeDomain domain) host from
      h.elim (⟨_, mem_cons_self, ·⟩) (⟨_, mem_cons_of_mem _ (mem_singleton_self _), ·⟩)
    cases pattern with
    | exact =>
      rw [mem_singleton.1 hcandidate] at h
      exact textMatch_at_or_below (subdomain_of_isSubdomainOrEqual hallows) hanchor h
    | subdomainsOnly =>
      rw [mem_singleton.1 hcandidate] at h
      exact .inr (textMatch_subdomains_of_child (subdomain_of_isSubdomainOrEqual hallows) h)
    | apexAndSubdomains =>
      rcases mem_pair.1 hcandidate with rfl | rfl
      · exact textMatch_at_or_below (subdomain_of_isSubdomainOrEqual hallows) hanchor h
      · exact .inr (textMatch_subdomains_of_child (subdomain_of_isSubdomainOrEqual hallows) h)

end Inclusion

/-! ## Accepted configurations -/

theorem bind_ok_iff {ε : Type} {first} {next : Unit → Except ε Unit} :
    (first >>= next) = .ok () ↔ first = .ok () ∧ next () = .ok () := by
  cases first with
  | error => exact iff_of_false nofun fun h => nomatch h.1
  | ok => exact ⟨fun h => ⟨rfl, h⟩, fun h => h.2⟩

theorem refuseIf_ok_iff :
    refuseIf condition fieldName candidate allowed = .ok () ↔ condition = false := by
  cases condition with
  | true => exact iff_of_false nofun nofun
  | false => exact iff_of_true rfl rfl

section

variable {crates : Crates} {config : NetworkProxyConfig} {constraints : NetworkProxyConstraints}
  {mitmHooks : Except Str Unit} {managed : List Str} (hmanaged : constraints.allowedDomains = some managed)
include hmanaged

theorem validateAllowedDomains_of_accepted
    (h : validatePolicyAgainstConstraints crates config constraints mitmHooks = .ok ()) :
    validateAllowedDomains crates config constraints managed = .ok () := by
  unfold validatePolicyAgainstConstraints at h
  simp only [bind_ok_iff, hmanaged] at h
  exact h.2.2.2.2.2.2.2.2.1

theorem allows_of_accepted (hexpansion : constraints.allowlistExpansionEnabled = none)
    (h : validatePolicyAgainstConstraints crates config constraints mitmHooks = .ok ()) :
    ∀ entry ∈ config.allowedDomains.getD [], ∃ pattern ∈ managed,
      (parseForConstraints crates pattern).allows (.parseForConstraints crates entry) := by
  have hcheck := validateAllowedDomains_of_accepted hmanaged h
  unfold validateAllowedDomains at hcheck
  rw [bind_ok_iff, hexpansion] at hcheck
  intro entry hentry
  by_contra hnone
  have hinvalid : entry ∈ (config.allowedDomains.getD []).filter (fun entry =>
      !(managed.map (parseForConstraints crates)).any (·.allows (.parseForConstraints crates entry))) := by
    refine mem_filter.2 ⟨hentry, ?_⟩
    rw [Bool.not_eq_true', any_eq_false]
    intro pattern hpattern hallows
    obtain ⟨text, htext, rfl⟩ := mem_map.1 hpattern
    exact hnone ⟨text, htext, hallows⟩
  have hempty := refuseIf_ok_iff.1 hcheck.2
  rw [Bool.not_eq_false', List.isEmpty_iff] at hempty
  exact not_mem_nil (hempty ▸ hinvalid)

end

/-- The crates as far as the entries below need them: no glob with a class, an alternative or an escape, hosts of letters,
digits, dots, dashes and underscores, addresses of four numbers. -/
def plainCrates : Crates where
  glob pattern :=
    if pattern.any (globMeta.contains ·) then none
    else some (fun host => Glob.isMatch (pattern.map globToken) (host.map Char.toLower))
  urlHost host :=
    if host.all (fun c => c.isAlphanum || c == '.' || c == '-' || c == '_') then some (toAsciiLowercase host) else none
  isIpAddr host :=
    let parts := Str.split '.' host
    parts.length == 4 && parts.all (fun part => !part.isEmpty && part.length ≤ 3 && part.all Char.isDigit)
  debugList entries := '[' :: (", ".toList.intercalate entries) ++ [']']

theorem plainCrates_plainGlobs : plainCrates.PlainGlobs := by
  intro pattern hplain
  have hany : pattern.any (globMeta.contains ·) = false := by
    rw [any_eq_false]
    exact fun c hc h => hplain c hc (contains_iff_mem.1 h)
  exact if_neg (by rw [hany]; decide)

def configOf (entry : Str) : NetworkProxyConfig :=
  ⟨true, true, false, false, .full, some [⟨entry, .allow⟩], none, false⟩

def constraintsOf (managed : Str) : NetworkProxyConstraints :=
  ⟨none, none, none, none, none, some [managed], none, none, none, none, none⟩

def Escapes (entry managed host : Str) : Prop :=
  validatePolicyAgainstConstraints plainCrates (configOf entry) (constraintsOf managed) (.ok ()) = .ok () ∧
    (compileAllowlistGlobset plainCrates [entry]).map (·.isMatch (normalizeHost plainCrates host)) = .ok true ∧
    (compileAllowlistGlobset plainCrates [managed]).map (·.isMatch (normalizeHost plainCrates host)) = .ok false

end Owc.Network
