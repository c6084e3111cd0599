import OpenWebCodex.NetworkDomain
/-!
# NetworkConstraints — a proxy configuration against the managed constraints

Where the managed list may not be expanded nor must be taken as it is, each domain the configuration allows must be one that
a managed pattern allows.  Enforcement compiles both lists by other code; where an entry is read alike by both, what the
configuration admits the managed list admits.
-/
namespace Owc.Network

inductive NetworkDomainPermission
  | none
  | allow
  | deny
deriving DecidableEq

def NetworkDomainPermission.rank : NetworkDomainPermission → Nat
  | none => 0
  | allow => 1
  | deny => 2

structure NetworkDomainPermissionEntry where
  pattern : Str
  permission : NetworkDomainPermission

/-- One entry for each pattern, in the order of first use, with the strongest permission it is given. -/
def effectiveEntries (entries : List NetworkDomainPermissionEntry) : List NetworkDomainPermissionEntry :=
  entries.foldl (fun effective entry =>
    if effective.any (·.pattern == entry.pattern) then
      effective.map (fun known =>
        if known.pattern == entry.pattern && decide (known.permission.rank < entry.permission.rank) then entry else known)
    else effective ++ [entry]) []

inductive NetworkUnixSocketPermission
  | allow
  | deny
deriving DecidableEq

inductive NetworkMode
  | limited
  | full

def NetworkMode.rank : NetworkMode → Nat
  | limited => 0
  | full => 1

def NetworkMode.debugText : NetworkMode → Str
  | limited => "Limited".toList
  | full => "Full".toList

structure NetworkProxyConfig where
  enabled : Bool
  allowUpstreamProxy : Bool
  dangerouslyAllowNonLoopbackProxy : Bool
  dangerouslyAllowAllUnixSockets : Bool
  mode : NetworkMode
  domains : Option (List NetworkDomainPermissionEntry)
  unixSockets : Option (List (Str × NetworkUnixSocketPermission))
  allowLocalBinding : Bool

namespace NetworkProxyConfig

def domainEntries (config : NetworkProxyConfig) (permission : NetworkDomainPermission) : Option (List Str) :=
  (config.domains.map (fun domains =>
    ((effectiveEntries domains).filter (·.permission == permission)).map (·.pattern))).filter (!·.isEmpty)

def allowedDomains (config : NetworkProxyConfig) : Option (List Str) := config.domainEntries .allow

def deniedDomains (config : NetworkProxyConfig) : Option (List Str) := config.domainEntries .deny

def allowUnixSockets (config : NetworkProxyConfig) : List Str :=
  ((config.unixSockets.getD []).filter (·.2 == .allow)).map (·.1)

end NetworkProxyConfig

structure NetworkProxyConstraints where
  enabled : Option Bool
  mode : Option NetworkMode
  allowUpstreamProxy : Option Bool
  dangerouslyAllowNonLoopbackProxy : Option Bool
  dangerouslyAllowAllUnixSockets : Option Bool
  allowedDomains : Option (List Str)
  allowlistExpansionEnabled : Option Bool
  deniedDomains : Option (List Str)
  denylistExpansionEnabled : Option Bool
  allowUnixSockets : Option (List Str)
  allowLocalBinding : Option Bool

/-- `NetworkProxyConstraintError::InvalidValue`. -/
structure InvalidValue where
  fieldName : Str
  candidate : Str
  allowed : Str
deriving DecidableEq

def refuseIf (condition : Bool) (fieldName candidate allowed : Str) : Except InvalidValue Unit :=
  if condition then .error ⟨fieldName, candidate, allowed⟩ else .ok ()

def disabledByManagedConfig : Str := "false (disabled by managed config)".toList

def validateFlag (fieldName : Str) (candidate : Bool) (allowed : Option Bool) : Except InvalidValue Unit :=
  refuseIf (candidate && allowed == some false) fieldName "true".toList disabledByManagedConfig

section Validate

variable (crates : Crates)

def validateNonGlobalWildcardDomainPatterns (fieldName : Str) (patterns : List Str) : Except InvalidValue Unit :=
  match patterns.find? (isGlobalWildcardDomainPattern crates) with
  | some pattern =>
    .error ⟨fieldName, Str.trim pattern, "exact hosts or scoped wildcards like *.example.com or **.example.com".toList⟩
  | none => .ok ()

def lowercased (entries : List Str) : List Str := entries.map toAsciiLowercase

def sameSet (left right : List Str) : Bool := left.all (right.contains ·) && right.all (left.contains ·)

variable (config : NetworkProxyConfig) (constraints : NetworkProxyConstraints)

def validateMode : Except InvalidValue Unit :=
  match constraints.mode with
  | some maxMode =>
    refuseIf (decide (maxMode.rank < config.mode.rank)) "network.mode".toList config.mode.debugText
      (maxMode.debugText ++ " or more restrictive".toList)
  | none => .ok ()

def validateAllowedDomains (allowedDomains : List Str) : Except InvalidValue Unit := do
  let candidate := config.allowedDomains.getD []
  let deniedDomainOverrides := lowercased (config.deniedDomains.getD [])
  let requiredSet := lowercased allowedDomains
  let candidateSet := lowercased candidate
  validateNonGlobalWildcardDomainPatterns crates "network.allowed_domains".toList allowedDomains
  match constraints.allowlistExpansionEnabled with
  | some true =>
    let missing := requiredSet.filter (fun entry => !candidateSet.contains entry && !deniedDomainOverrides.contains entry)
    refuseIf (!missing.isEmpty) "network.allowed_domains".toList "missing managed allowed_domains entries".toList
      (crates.debugList missing)
  | some false =>
    let expectedSet := requiredSet.filter (!deniedDomainOverrides.contains ·)
    refuseIf (!sameSet candidateSet expectedSet) "network.allowed_domains".toList (crates.debugList candidate)
      "must match managed allowed_domains".toList
  | none =>
    let managedPatterns := allowedDomains.map (DomainPattern.parseForConstraints crates)
    let invalid := candidate.filter (fun entry =>
      !managedPatterns.any (·.allows (DomainPattern.parseForConstraints crates entry)))
    refuseIf (!invalid.isEmpty) "network.allowed_domains".toList (crates.debugList invalid)
      "subset of managed allowed_domains".toList

def validateDeniedDomains (deniedDomains : List Str) : Except InvalidValue Unit := do
  let candidate := config.deniedDomains.getD []
  let requiredSet := lowercased deniedDomains
  let candidateSet := lowercased candidate
  validateNonGlobalWildcardDomainPatterns crates "network.denied_domains".toList deniedDomains
  match constraints.denylistExpansionEnabled with
  | some false =>
    refuseIf (!sameSet candidateSet requiredSet) "network.denied_domains".toList (crates.debugList candidate)
      "must match managed denied_domains".toList
  | _ =>
    let missing := requiredSet.filter (!candidateSet.contains ·)
    refuseIf (!missing.isEmpty) "network.denied_domains".toList "missing managed denied_domains entries".toList
      (crates.debugList missing)

def validateAllowUnixSockets (allowUnixSockets : List Str) : Except InvalidValue Unit :=
  let invalid := config.allowUnixSockets.filter (fun entry => !(lowercased allowUnixSockets).contains (toAsciiLowercase entry))
  refuseIf (!invalid.isEmpty) "network.allow_unix_sockets".toList (crates.debugList invalid)
    "subset of managed allow_unix_sockets".toList

def ifManaged (entries : Option (List Str)) (check : List Str → Except InvalidValue Unit) : Except InvalidValue Unit :=
  match entries with
  | some entries => check entries
  | none => .ok ()

/-- `mitmHooks` is what `validate_mitm_hook_config` returns. -/
def validatePolicyAgainstConstraints (mitmHooks : Except Str Unit) : Except InvalidValue Unit := do
  mitmHooks.mapError (fun message => ⟨"network.mitm_hooks".toList, message, "valid MITM hook configuration".toList⟩)
  validateNonGlobalWildcardDomainPatterns crates "network.denied_domains".toList (config.deniedDomains.getD [])
  validateFlag "network.enabled".toList config.enabled constraints.enabled
  validateMode config constraints
  validateFlag "network.allow_upstream_proxy".toList config.allowUpstreamProxy constraints.allowUpstreamProxy
  validateFlag "network.dangerously_allow_non_loopback_proxy".toList config.dangerouslyAllowNonLoopbackProxy
    constraints.dangerouslyAllowNonLoopbackProxy
  validateFlag "network.dangerously_allow_all_unix_sockets".toList config.dangerouslyAllowAllUnixSockets
    (some (constraints.dangerouslyAllowAllUnixSockets.getD constraints.allowUnixSockets.isNone))
  validateFlag "network.allow_local_binding".toList config.allowLocalBinding constraints.allowLocalBinding
  ifManaged constraints.allowedDomains (validateAllowedDomains crates config constraints)
  ifManaged constraints.deniedDomains (validateDeniedDomains crates config constraints)
  ifManaged constraints.allowUnixSockets (validateAllowUnixSockets crates config)

end Validate

end Owc.Network
