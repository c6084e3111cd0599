import OpenWebCodex.Glob
import OpenWebCodex.Text
/-!
# NetworkDomain — domain patterns of the network proxy

A list of domain patterns is compiled to globs: each pattern is normalized, its wildcard head is read, and one or two globs
are built from it.  A constraint check reads the same pattern by other code, which compares texts by suffix.
-/
namespace Owc.Network

/-- What the model takes from other crates. -/
structure Crates where
  /-- `GlobBuilder::new(pattern).case_insensitive(true).build()`, the glob as what it matches. -/
  glob : Str → Option (Str → Bool)
  /-- `url::Host::parse`, printed. -/
  urlHost : Str → Option Str
  isIpAddr : Str → Bool
  debugList : List Str → Str

def globToken (c : Char) : Glob.Token Char :=
  if c = '*' then .star else if c = '?' then .any else .letter c.toLower

/-- Characters with a meaning in globs besides `*` and `?`. -/
def globMeta : List Char := ['[', ']', '\x7b', '\x7d', '\\']

/-- A glob without classes, alternatives and escapes: `*` is any string and `?` any character. -/
def Crates.PlainGlobs (crates : Crates) : Prop :=
  ∀ pattern : Str, (∀ c ∈ pattern, c ∉ globMeta) →
    crates.glob pattern = some (fun host => Glob.isMatch (pattern.map globToken) (host.map Char.toLower))

def toAsciiLowercase (s : Str) : Str := s.map Char.toLower

def trimEndDots (s : Str) : Str := s.rdropWhile (· == '.')

def splitOnce (s sep : Str) : Option (Str × Str) :=
  match s with
  | [] => if sep.isEmpty then some ([], []) else none
  | c :: rest =>
    match Str.stripPrefix (c :: rest) sep with
    | some after => some ([], after)
    | none => (splitOnce rest sep).map (fun parts => (c :: parts.1, parts.2))

section

variable (crates : Crates)

def normalizeIpLiteral (host : Str) : Option Str :=
  if crates.isIpAddr host then some host
  else ["%25".toList, "%".toList].findSome? (fun delimiter =>
    match splitOnce host delimiter with
    | some (ip, scope) => if crates.isIpAddr ip then some (ip ++ '%' :: scope) else none
    | none => none)

def normalizeDnsHostOrIpLiteral (host : Str) : Str :=
  let host := trimEndDots (toAsciiLowercase host)
  (normalizeIpLiteral crates host).getD host

def normalizeHost (host : Str) : Str :=
  let host := Str.trim host
  if Str.startsWith host ['['] && host.contains ']' then
    normalizeDnsHostOrIpLiteral crates ((host.drop 1).takeWhile (· != ']'))
  else if host.count ':' = 1 then normalizeDnsHostOrIpLiteral crates (host.takeWhile (· != ':'))
  else normalizeDnsHostOrIpLiteral crates host

def normalizePattern (pattern : Str) : Str :=
  let pattern := Str.trim pattern
  if pattern = ['*'] then ['*']
  else match Str.stripPrefix pattern "**.".toList with
    | some domain => "**.".toList ++ normalizeHost crates domain
    | none =>
      match Str.stripPrefix pattern "*.".toList with
      | some domain => "*.".toList ++ normalizeHost crates domain
      | none => normalizeHost crates pattern

inductive DomainPattern
  | apexAndSubdomains (domain : Str)
  | subdomainsOnly (domain : Str)
  | exact (domain : Str)
deriving DecidableEq

namespace DomainPattern

def parseDomain (domain : Str) (build : Str → DomainPattern) : DomainPattern :=
  let domain := Str.trim domain
  if domain.isEmpty then exact [] else build domain

def parse (input : Str) : DomainPattern :=
  let input := Str.trim input
  if input.isEmpty then exact []
  else match Str.stripPrefix input "**.".toList with
    | some domain => parseDomain domain apexAndSubdomains
    | none =>
      match Str.stripPrefix input "*.".toList with
      | some domain => parseDomain domain subdomainsOnly
      | none => exact input

end DomainPattern

def parseDomainForConstraints (domain : Str) : Str :=
  let domain := trimEndDots (Str.trim domain)
  if domain.isEmpty then []
  else
    let host := if Str.startsWith domain ['['] && Str.endsWith domain [']'] then (domain.take (domain.length - 1)).drop 1
      else domain
    if host.contains '*' || host.contains '?' || host.contains '%' then domain
    else (crates.urlHost host).getD []

def DomainPattern.parseForConstraints (input : Str) : DomainPattern :=
  let input := Str.trim input
  if input.isEmpty then exact []
  else match Str.stripPrefix input "**.".toList with
    | some domain => apexAndSubdomains (parseDomainForConstraints crates domain)
    | none =>
      match Str.stripPrefix input "*.".toList with
      | some domain => subdomainsOnly (parseDomainForConstraints crates domain)
      | none => exact (parseDomainForConstraints crates input)

def normalizeDomain (domain : Str) : Str := toAsciiLowercase (trimEndDots domain)

def domainEq (left right : Str) : Bool := normalizeDomain left == normalizeDomain right

def isSubdomainOrEqual (child parent : Str) : Bool :=
  let child := normalizeDomain child
  let parent := normalizeDomain parent
  if child == parent then true else Str.endsWith child ('.' :: parent)

def isStrictSubdomain (child parent : Str) : Bool :=
  let child := normalizeDomain child
  let parent := normalizeDomain parent
  child != parent && Str.endsWith child ('.' :: parent)

def DomainPattern.allows : DomainPattern → DomainPattern → Bool
  | exact domain, exact candidate => domainEq candidate domain
  | exact _, _ => false
  | subdomainsOnly domain, exact candidate => isStrictSubdomain candidate domain
  | subdomainsOnly domain, subdomainsOnly candidate => isSubdomainOrEqual candidate domain
  | subdomainsOnly domain, apexAndSubdomains candidate => isStrictSubdomain candidate domain
  | apexAndSubdomains domain, exact candidate => isSubdomainOrEqual candidate domain
  | apexAndSubdomains domain, subdomainsOnly candidate => isSubdomainOrEqual candidate domain
  | apexAndSubdomains domain, apexAndSubdomains candidate => isSubdomainOrEqual candidate domain

def expandDomainPattern (pattern : Str) : List Str :=
  match DomainPattern.parse pattern with
  | .exact domain => [domain]
  | .subdomainsOnly domain => ["?*.".toList ++ domain]
  | .apexAndSubdomains domain => [domain, "?*.".toList ++ domain]

def isGlobalWildcardDomainPattern (pattern : Str) : Bool :=
  (expandDomainPattern (normalizePattern crates pattern)).any (· == ['*'])

inductive GlobalWildcard
  | allow
  | reject
deriving DecidableEq

abbrev GlobSet := List (Str × (Str → Bool))

def GlobSet.isMatch (set : GlobSet) (host : Str) : Bool := set.any (fun glob => glob.2 host)

def addCandidate (set : GlobSet) (candidate : Str) : Except Str GlobSet :=
  if set.any (·.1 == candidate) then .ok set
  else match crates.glob candidate with
    | some glob => .ok (set ++ [(candidate, glob)])
    | none => .error ("invalid glob pattern: ".toList ++ candidate)

def unsupportedGlobalWildcard : Str :=
  ("unsupported global wildcard domain pattern \"*\"; use exact hosts or scoped wildcards like *.example.com or " ++
    "**.example.com").toList

def addPattern (globalWildcard : GlobalWildcard) (set : GlobSet) (pattern : Str) : Except Str GlobSet :=
  if globalWildcard == .reject && isGlobalWildcardDomainPattern crates pattern then .error unsupportedGlobalWildcard
  else (expandDomainPattern (normalizePattern crates pattern)).foldlM (addCandidate crates) set

def compileGlobsetWithPolicy (patterns : List Str) (globalWildcard : GlobalWildcard) : Except Str GlobSet :=
  patterns.foldlM (addPattern crates globalWildcard) []

def compileAllowlistGlobset (patterns : List Str) : Except Str GlobSet :=
  compileGlobsetWithPolicy crates patterns .allow

def compileDenylistGlobset (patterns : List Str) : Except Str GlobSet :=
  compileGlobsetWithPolicy crates patterns .reject

end

end Owc.Network
