import OpenWebCodex.Text
import OpenWebCodex.Saga
/-!
# Provider — a profile's model providers: their secrets, the environment and the runtime's configuration

`upsert` and `delete` change three things one after the other: the stored secret, the environment of the app-server (which restarts
for it) and the runtime's configuration.  Each call to one of the three may fail; `restore_secret` takes back the first two.
-/
namespace Owc.Provider

open Saga

/-! ## Requests and errors -/

inductive Credentials
  | preserve
  | environment (envKey : Str)
  | direct (apiKey : Str)
  | noCredential

structure UpsertRequest where
  name : Str
  baseUrl : Str
  wireApi : Str
  credentials : Credentials
  select : Bool

/-- `ProviderServiceError`; what a failed runtime call says is left out. -/
inductive ServiceError
  | invalidInput (message : Str)
  | notFound (id : Str)
  | forbidden (message : Str)
  | runtime

inductive SecretError
  | invalidIdentity
  | database

inductive RegistryError
  | invalidEnvironmentKey
  | host
  /-- The restart with the former environment failed as well. -/
  | hostRecovery

inductive Error
  | database
  | provider (error : ServiceError)
  | registry (error : RegistryError)
  | secret (error : SecretError)

/-! ## The three stores -/

structure Entry where
  name : Str
  baseUrl : Str
  wireApi : Str
  envKey : Option Str
  bearerToken : Option Str

/-- The runtime's configuration: `model_providers`, built-in ones included, and `model_provider`. -/
structure Config where
  providers : Str → Option Entry
  modelProvider : Str

inductive Kind
  | builtIn
  | local
  | custom
deriving DecidableEq

structure Summary where
  kind : Kind
  canDelete : Bool

structure Catalog where
  data : Str → Option Summary
  currentProviderId : Str

/-- An edit of `config/batchWrite`, by its key path. -/
inductive ConfigEdit
  /-- `model_providers.id`, removed by a null. -/
  | provider (id : Str) (entry : Option Entry)
  | name (id value : Str)
  | baseUrl (id value : Str)
  | wireApi (id value : Str)
  | envKey (id : Str) (value : Option Str)
  | bearerToken (id : Str) (value : Option Str)
  | modelProvider (id : Str)

namespace Config

def editEntry (config : Config) (id : Str) (edit : Entry → Entry) : Config :=
  { config with providers := Function.update config.providers id ((config.providers id).map edit) }

def edit (config : Config) : ConfigEdit → Config
  | .provider id entry => { config with providers := Function.update config.providers id entry }
  | .name id value => config.editEntry id fun entry => { entry with name := value }
  | .baseUrl id value => config.editEntry id fun entry => { entry with baseUrl := value }
  | .wireApi id value => config.editEntry id fun entry => { entry with wireApi := value }
  | .envKey id value => config.editEntry id fun entry => { entry with envKey := value }
  | .bearerToken id value => config.editEntry id fun entry => { entry with bearerToken := value }
  | .modelProvider id => { config with modelProvider := id }

def edits (config : Config) (list : List ConfigEdit) : Config := list.foldl edit config

end Config

/-- What the profile's secret store, the registry and the runtime hold. -/
structure World where
  secrets : Str → Option Str
  environment : Str → Option Str
  config : Config

inductive Site
  | authorize
  | readSecret
  | changeSecret
  | restart
  | readCatalog
  | writeConfig
  | readBack
  | restoreSecret
  | restoreRestart
deriving DecidableEq

structure Platform where
  profileId : Str
  /-- SHA-256. -/
  digest : Str → List (Fin 256)
  /-- `Url::parse`: the scheme of a text that is a URL. -/
  scheme : Str → Option Str
  isBuiltIn : Str → Bool
  /-- The call that fails. -/
  fault : Option Site
  /-- After a failed restart, the one with the former environment succeeds. -/
  recovers : Bool

namespace Platform

variable (x : Platform)

def fails (site : Site) : Bool := decide (x.fault = some site)

/-! ## Secrets -/

def isIdentifier (c : Char) : Bool := c.isAlphanum || c == '-' || c == '_'

def validId (id : Str) : Bool := !id.trim.isEmpty && id.all isIdentifier

def hexDigit (n : Nat) : Char := if n < 10 then Char.ofNat (48 + n) else Char.ofNat (55 + n)

def environmentKey (id : Str) : Str :=
  "OPEN_WEB_CODEX_PROVIDER_".toList ++
    ((x.digest (x.profileId ++ ':' :: id)).take 12).flatMap fun byte => [hexDigit (byte.val / 16), hexDigit (byte.val % 16)]

def getProviderKey (id : Str) (w : World) : Outcome Error World (Option Str) :=
  if validId id = false then fail (.secret .invalidIdentity) w
  else if x.fails .readSecret then fail (.secret .database) w
  else ok (w.secrets id) w

def putProviderKey (site : Site) (id value : Str) (w : World) : Outcome Error World Str :=
  if validId id = false then fail (.secret .invalidIdentity) w
  else if x.fails site then fail (.secret .database) w
  else ok (x.environmentKey id) { w with secrets := Function.update w.secrets id (some value) }

def deleteProviderKey (site : Site) (id : Str) (w : World) : Outcome Error World Str :=
  if validId id = false then fail (.secret .invalidIdentity) w
  else if x.fails site then fail (.secret .database) w
  else ok (x.environmentKey id) { w with secrets := Function.update w.secrets id none }

def secretValue (value : Str) (w : World) : Outcome Error World Str :=
  if value.trim.isEmpty then fail (.secret .invalidIdentity) w else ok value w

/-! ## The registry -/

def isEnvironmentChar (c : Char) : Bool := c.isUpper || c.isDigit || c == '_'

def validEnvironmentKey (key : Str) : Bool := !key.isEmpty && key.all isEnvironmentChar

/-- The former environment is put back where the restart fails. -/
def setSecretEnvironment (site : Site) (key : Str) (value : Option Str) (w : World) : Outcome Error World Unit :=
  if validEnvironmentKey key = false then fail (.registry .invalidEnvironmentKey) w
  else
    let previous := w.environment key
    if previous = value then ok () w
    else
      let changed := { w with environment := Function.update w.environment key value }
      if x.fails site then
        fail (.registry (if x.recovers then .host else .hostRecovery))
          { changed with environment := Function.update changed.environment key previous }
      else ok () changed

/-! ## The runtime -/

def kind (id : Str) : Kind :=
  if id = "ollama".toList ∨ id = "lmstudio".toList then .local else if x.isBuiltIn id then .builtIn else .custom

def catalog (config : Config) : Catalog :=
  { data := fun id => (config.providers id).map fun _ =>
      ⟨x.kind id, !x.isBuiltIn id && decide (id ≠ config.modelProvider)⟩
    currentProviderId := config.modelProvider }

def list (site : Site) (w : World) : Outcome Error World Catalog :=
  if x.fails site then fail (.provider .runtime) w else ok (x.catalog w.config) w

def writeConfig (list : List ConfigEdit) (w : World) : Outcome Error World Unit :=
  if x.fails .writeConfig then fail (.provider .runtime) w else ok () { w with config := w.config.edits list }

def validateProviderId (id : Str) : Except ServiceError Unit :=
  if validId id then .ok ()
  else .error (.invalidInput "Provider id may contain only letters, numbers, '-' and '_'".toList)

def requiredTrimmed (value label : Str) : Except ServiceError Str :=
  if value.trim.isEmpty then .error (.invalidInput (label ++ " is required".toList)) else .ok value.trim

def validateBaseUrl (value : Str) : Except ServiceError Str := do
  let value ← requiredTrimmed value "Provider base URL".toList
  match x.scheme value with
  | none => .error (.invalidInput "Provider base URL is invalid".toList)
  | some scheme =>
    if scheme = "http".toList ∨ scheme = "https".toList then .ok (value.rdropWhile (· == '/'))
    else .error (.invalidInput "Provider base URL must use http or https".toList)

def validateCredentials (credentials : Credentials) (providerExists : Bool) : Except ServiceError Unit :=
  match credentials with
  | .preserve =>
    if providerExists then .ok () else .error (.invalidInput "cannot preserve credentials for a new Provider".toList)
  | .environment envKey => do
    let envKey ← requiredTrimmed envKey "API key environment variable".toList
    if envKey.all isEnvironmentChar then .ok ()
    else .error (.invalidInput "API key environment variable must contain only A-Z, 0-9 and '_'".toList)
  | .direct apiKey => do
    let _ ← requiredTrimmed apiKey "API key".toList
    .ok ()
  | .noCredential => .ok ()

def applyNewCredentials (credentials : Credentials) (entry : Entry) : Entry :=
  match credentials with
  | .environment envKey => { entry with envKey := some envKey.trim }
  | .direct apiKey => { entry with bearerToken := some apiKey.trim }
  | .preserve | .noCredential => entry

def existingCredentialEdits (credentials : Credentials) (id : Str) : List ConfigEdit :=
  match credentials with
  | .preserve => []
  | .environment envKey => [.envKey id (some envKey.trim), .bearerToken id none]
  | .direct apiKey => [.envKey id none, .bearerToken id (some apiKey.trim)]
  | .noCredential => [.envKey id none, .bearerToken id none]

def upsertEdits (catalog : Catalog) (id : Str) (request : UpsertRequest) : Except ServiceError (List ConfigEdit) := do
  let existing := catalog.data id
  if existing.any (fun provider => decide (provider.kind = .builtIn)) then
    .error (.forbidden ("built-in Provider '".toList ++ id ++ "' cannot be edited".toList))
  else
    let name ← requiredTrimmed request.name "Provider name".toList
    let baseUrl ← x.validateBaseUrl request.baseUrl
    if request.wireApi ≠ "chat".toList ∧ request.wireApi ≠ "responses".toList then
      .error (.invalidInput "wire API must be 'chat' or 'responses'".toList)
    else
      let _ ← validateCredentials request.credentials existing.isSome
      let entryEdits :=
        if existing.isNone then
          [ConfigEdit.provider id (some (applyNewCredentials request.credentials ⟨name, baseUrl, request.wireApi, none, none⟩))]
        else
          [ConfigEdit.name id name, .baseUrl id baseUrl, .wireApi id request.wireApi] ++
            existingCredentialEdits request.credentials id
      .ok (entryEdits ++ if existing.isNone || request.select then [.modelProvider id] else [])

def deleteEdits (catalog : Catalog) (id : Str) : Except ServiceError (List ConfigEdit) :=
  match catalog.data id with
  | none => .error (.notFound id)
  | some provider =>
    if provider.kind = .builtIn ∨ provider.canDelete = false then
      .error (.forbidden ("Provider '".toList ++ id ++ "' cannot be deleted".toList))
    else if catalog.currentProviderId = id then
      .error (.forbidden "select another Provider before deleting the current Provider".toList)
    else .ok [.provider id none]

def lift {α : Type} (result : Except ServiceError α) (w : World) : Outcome Error World α :=
  match result with
  | .ok a => ok a w
  | .error e => fail (.provider e) w

/-- The runtime service: check, write, read back. -/
def change (id : Str) (edits : Catalog → Except ServiceError (List ConfigEdit)) (w : World) : Outcome Error World Catalog :=
  (lift (validateProviderId id) w).andThen fun _ w =>
  (x.list .readCatalog w).andThen fun catalog w =>
  (lift (edits catalog) w).andThen fun list w =>
  (x.writeConfig list w).andThen fun _ w =>
  x.list .readBack w

def runtimeUpsert (id : Str) (request : UpsertRequest) : World → Outcome Error World Catalog :=
  x.change id fun catalog => x.upsertEdits catalog id request

def runtimeDelete (id : Str) : World → Outcome Error World Catalog := x.change id fun catalog => deleteEdits catalog id

/-! ## The secured service -/

def restoreSecret (id : Str) (previous : Option Str) (w : World) : Outcome Error World Unit :=
  match previous with
  | some previous =>
    (x.putProviderKey .restoreSecret id previous w).andThen fun key w =>
    x.setSecretEnvironment .restoreRestart key (some previous) w
  | none =>
    (x.deleteProviderKey .restoreSecret id w).andThen fun key w =>
    x.setSecretEnvironment .restoreRestart key none w

def authorize (w : World) : Outcome Error World Unit := if x.fails .authorize then fail .database w else ok () w

def dropSecret (id : Str) (previous : Option Str) (w : World) : Outcome Error World Unit :=
  if previous.isSome then
    (x.deleteProviderKey .changeSecret id w).andThen fun key w =>
    (x.setSecretEnvironment .restart key none w).compensate (x.restoreSecret id previous)
  else ok () w

def upsert (id : Str) (request : UpsertRequest) (w : World) : Outcome Error World Catalog :=
  (x.authorize w).andThen fun _ w =>
  match request.credentials with
  | .direct apiKey =>
    (x.getProviderKey id w).andThen fun previous w =>
    (secretValue apiKey w).andThen fun value w =>
    (x.putProviderKey .changeSecret id value w).andThen fun key w =>
    ((x.setSecretEnvironment .restart key (some value) w).compensate (x.restoreSecret id previous)).andThen fun _ w =>
    (x.runtimeUpsert id { request with credentials := .environment key } w).compensate (x.restoreSecret id previous)
  | .environment _ | .noCredential =>
    (x.getProviderKey id w).andThen fun previous w =>
    (x.dropSecret id previous w).andThen fun _ w =>
    (x.runtimeUpsert id request w).compensate (x.restoreSecret id previous)
  | .preserve => x.runtimeUpsert id request w

def delete (id : Str) (w : World) : Outcome Error World Catalog :=
  (x.authorize w).andThen fun _ w =>
  (x.getProviderKey id w).andThen fun previous w =>
  (x.dropSecret id previous w).andThen fun _ w =>
  (x.runtimeDelete id w).compensate (x.restoreSecret id previous)

end Platform

end Owc.Provider
