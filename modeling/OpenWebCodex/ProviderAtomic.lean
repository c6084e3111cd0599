import OpenWebCodex.Provider
/-!
# ProviderAtomic — when a provider is changed entirely or not at all

The three stores agree on a provider where the environment holds its secret and the configuration names the environment's key for
it exactly when there is a secret.  Each call is read as: the secret it sets out to store, the edits it sets out to write, and the
calls on its way.
-/
namespace Owc.Provider

open List Function Option
open Saga Platform

/-- **The stored secret, the environment and the configuration agree.** -/
def Agree (x : Platform) (id : Str) (w : World) : Prop :=
  w.environment (x.environmentKey id) = w.secrets id ∧
    ((w.config.providers id).bind Entry.envKey = some (x.environmentKey id) ↔ (w.secrets id).isSome = true)

inductive Call
  | upsert (id : Str) (request : UpsertRequest)
  | delete (id : Str)

namespace Call

def id : Call → Str
  | .upsert id _ => id
  | .delete id => id

def run (x : Platform) : Call → World → Outcome Error World Catalog
  | .upsert id request => x.upsert id request
  | .delete id => x.delete id

def edits (x : Platform) (w : World) : Call → Option (List ConfigEdit)
  | .upsert id request =>
    if validId id then
      match request.credentials with
      | .direct apiKey =>
        if apiKey.trim.isEmpty then none
        else (x.upsertEdits (x.catalog w.config) id { request with credentials := .environment (x.environmentKey id) }).toOption
      | _ => (x.upsertEdits (x.catalog w.config) id request).toOption
    else none
  | .delete id => if validId id then (deleteEdits (x.catalog w.config) id).toOption else none

def secret (w : World) : Call → Option Str
  | .upsert id request =>
    if validId id then
      match request.credentials with
      | .direct apiKey => if apiKey.trim.isEmpty then w.secrets id else some apiKey
      | .environment _ | .noCredential => none
      | .preserve => w.secrets id
    else w.secrets id
  | .delete id => if validId id then none else w.secrets id

def dropPath (w : World) (id : Str) : List Site :=
  .readSecret :: if (w.secrets id).isSome then [.changeSecret, .restart] else []

def front (w : World) : Call → List Site
  | .upsert id request =>
    match request.credentials with
    | .direct apiKey => .authorize :: .readSecret :: .changeSecret :: if w.secrets id = some apiKey then [] else [.restart]
    | .environment _ | .noCredential => .authorize :: dropPath w id
    | .preserve => [.authorize]
  | .delete id => .authorize :: dropPath w id

def path (w : World) (call : Call) : List Site := call.front w ++ [.readCatalog, .writeConfig, .readBack]

end Call

/-- **When a call is all or nothing.** -/
structure Safe (x : Platform) (w : World) (call : Call) : Prop where
  /-- Where only the last call fails, the edits change nothing. -/
  readBack : x.fault = some .readBack → ∀ list, call.edits x w = some list → w.config.edits list = w.config
  /-- A refused call whose compensation fails has not touched the secret. -/
  restore : x.fault = some .restoreSecret ∨ x.fault = some .restoreRestart → call.edits x w = none →
    call.secret w = w.secrets call.id
  named : ∀ id request envKey, call = .upsert id request → request.credentials = .environment envKey →
    envKey.trim = x.environmentKey id → call.edits x w ≠ none → ∃ site ∈ call.path w, x.fault = some site

/-! ## The environment -/

variable {x : Platform}

theorem isEnvironmentChar_hexDigit : ∀ n < 16, isEnvironmentChar (hexDigit n) := by decide

theorem validEnvironmentKey_environmentKey (id : Str) : validEnvironmentKey (x.environmentKey id) := by
  have hall : (x.environmentKey id).all isEnvironmentChar := by
    unfold environmentKey
    rw [all_append, Bool.and_eq_true]
    refine ⟨by decide, all_eq_true.2 fun c hc => ?_⟩
    obtain ⟨byte, -, hc⟩ := mem_flatMap.1 hc
    have hbyte := byte.isLt
    rcases mem_cons.1 hc with rfl | hc
    · exact isEnvironmentChar_hexDigit _ (by omega)
    · rw [mem_singleton.1 hc]
      exact isEnvironmentChar_hexDigit _ (by omega)
  have hne : (x.environmentKey id).isEmpty = false := rfl
  rw [validEnvironmentKey, hall, hne]
  rfl

def World.withSecret (w : World) (x : Platform) (id : Str) (secret : Option Str) : World :=
  { w with
    secrets := Function.update w.secrets id secret
    environment := Function.update w.environment (x.environmentKey id) secret }

/-- **The registry sets an entry or leaves the environment as it was.** -/
theorem setSecretEnvironment_eq (site : Site) (id : Str) (value : Option Str) (w : World) :
    x.setSecretEnvironment site (x.environmentKey id) value w =
      if x.fails site ∧ w.environment (x.environmentKey id) ≠ value then
        fail (.registry (if x.recovers then .host else .hostRecovery)) w
      else ok () { w with environment := update w.environment (x.environmentKey id) value } := by
  unfold setSecretEnvironment
  rw [validEnvironmentKey_environmentKey, if_neg (by decide)]
  by_cases hsame : w.environment (x.environmentKey id) = value
  · subst hsame
    rw [if_pos rfl, if_neg fun h => h.2 rfl, update_eq_self]
  · rw [if_neg hsame]
    simp only [update_idem, update_eq_self, ne_eq, hsame, not_false_eq_true, and_true]

/-! ## The two ends of a call -/

variable {w : World} {id : Str}

variable (hagree : w.environment (x.environmentKey id) = w.secrets id)

include hagree in
theorem withSecret_self : w.withSecret x id (w.secrets id) = w := by
  unfold World.withSecret
  rw [update_eq_self, ← hagree, update_eq_self]

theorem restoreSecret_of_valid (hvalid : validId id) (previous : Option Str) (w : World) : x.restoreSecret id previous w =
      if x.fails .restoreSecret = true then fail (.secret .database) w
      else x.setSecretEnvironment .restoreRestart (x.environmentKey id) previous
        { w with secrets := update w.secrets id previous } := by
  unfold restoreSecret putProviderKey deleteProviderKey
  rw [hvalid]
  cases previous <;> by_cases hfail : x.fails .restoreSecret = true <;> simp [hfail]

def Unwritten (x : Platform) : Prop := x.fault = some .readCatalog ∨ x.fault = some .writeConfig

/-- **What the runtime does**: it refuses or fails before it has written, fails after it has written, or answers. -/
theorem change_cases (hvalid : validId id) (edits : Catalog → Except ServiceError (List ConfigEdit)) (w : World) :
    ((Unwritten x ∨ (edits (x.catalog w.config)).toOption = none) ∧ ∃ e, x.change id edits w = fail e w) ∨
      ∃ list, (edits (x.catalog w.config)).toOption = some list ∧
        ((x.fault = some .readBack ∧ ∃ e, x.change id edits w = fail e { w with config := w.config.edits list }) ∨
          (¬Unwritten x ∧ x.fault ≠ some .readBack ∧
            ∃ catalog, x.change id edits w = ok catalog { w with config := w.config.edits list })) := by
  unfold change validateProviderId
  rw [hvalid]
  simp only [list, writeConfig, fails, decide_eq_true_eq, lift, if_true, ok_andThen]
  by_cases hread : x.fault = some .readCatalog
  · rw [if_pos hread]
    exact .inl ⟨.inl (.inl hread), _, rfl⟩
  rw [if_neg hread, ok_andThen]
  cases hedits : edits (x.catalog w.config) with
  | error => exact .inl ⟨.inr rfl, _, rfl⟩
  | ok list =>
    rw [ok_andThen]
    by_cases hwrite : x.fault = some .writeConfig
    · rw [if_pos hwrite]
      exact .inl ⟨.inl (.inr hwrite), _, rfl⟩
    rw [if_neg hwrite, ok_andThen]
    refine .inr ⟨list, rfl, ?_⟩
    split
    · next hback =>
      exact .inl ⟨hback, _, rfl⟩
    · next hback =>
      exact .inr ⟨fun h => h.elim hread hwrite, hback, _, rfl⟩

theorem config_withSecret (w : World) (id : Str) (secret : Option Str) : (w.withSecret x id secret).config = w.config := rfl

include hagree in
theorem withSecret_eq_self_iff (secret : Option Str) : w.withSecret x id secret = w ↔ secret = w.secrets id := by
  constructor
  · intro hsame
    have hid := congrFun (congrArg World.secrets hsame) id
    rwa [show (w.withSecret x id secret).secrets id = secret from update_self _ _ _] at hid
  · intro hsame
    rw [hsame, withSecret_self hagree]

variable {secret : Option Str} {P : World → Prop}

section Compensation

variable (hvalid : validId id = true)
include hvalid hagree

/-- **The compensation** of a change of the secret, whatever became of the configuration. -/
theorem restoreSecret_eq (secret : Option Str) (config : Config) :
    x.restoreSecret id (w.secrets id) { w.withSecret x id secret with config := config } =
      if x.fails .restoreSecret = true then fail (.secret .database) { w.withSecret x id secret with config := config }
      else if x.fails .restoreRestart ∧ secret ≠ w.secrets id then
        fail (.registry (if x.recovers then .host else .hostRecovery))
          { w with environment := update w.environment (x.environmentKey id) secret, config := config }
      else ok () { w with config := config } := by
  have hsecrets : update (update w.secrets id secret) id (w.secrets id) = w.secrets := by
    rw [update_idem, update_eq_self]
  have henvironment : update (update w.environment (x.environmentKey id) secret) (x.environmentKey id) (w.secrets id) =
        w.environment := by
    rw [update_idem, ← hagree, update_eq_self]
  rw [restoreSecret_of_valid hvalid, setSecretEnvironment_eq]
  simp only [World.withSecret, hsecrets, henvironment, update_self]

theorem unwritten_compensate {e} :
    (((x.restoreSecret id (w.secrets id) (w.withSecret x id secret)).andThen fun _ t => fail e t) :
      Outcome Error World Catalog).Atomic w P ↔
      (x.fault = some .restoreSecret ∨ x.fault = some .restoreRestart → secret = w.secrets id) := by
  have hrestore := restoreSecret_eq (x := x) hagree hvalid secret w.config
  rw [show ({ w.withSecret x id secret with config := w.config } : World) = w.withSecret x id secret from rfl] at hrestore
  rw [hrestore]
  simp only [fails, decide_eq_true_eq]
  by_cases hsecret : x.fault = some .restoreSecret
  · rw [if_pos hsecret, fail_andThen, atomic_fail, withSecret_eq_self_iff hagree]
    exact ⟨fun h _ => h, fun h => h (.inl hsecret)⟩
  rw [if_neg hsecret]
  split
  · next hrestart =>
    rw [fail_andThen, atomic_fail]
    refine ⟨fun hsame => absurd ?_ hrestart.2, fun h => absurd (h (.inr hrestart.1)) hrestart.2⟩
    have henv : update w.environment (x.environmentKey id) secret (x.environmentKey id) = _ :=
      congrFun (congrArg World.environment hsame) (x.environmentKey id)
    rwa [update_self, hagree] at henv
  · next hrestart =>
    rw [ok_andThen, atomic_fail]
    refine ⟨fun _ hfault => ?_, fun _ => rfl⟩
    by_contra hne
    exact hrestart ⟨hfault.resolve_left hsecret, hne⟩

/-- **The secret is changed in the store and in the environment, or in neither.** -/
theorem restart_compensate_eq (secret : Option Str) : ∃ e, (x.setSecretEnvironment .restart (x.environmentKey id) secret
        { w with secrets := update w.secrets id secret }).compensate (x.restoreSecret id (w.secrets id)) =
      if x.fault = some .restart ∧ w.secrets id ≠ secret then fail e w else ok () (w.withSecret x id secret) := by
  refine ⟨.registry (if x.recovers then .host else .hostRecovery), ?_⟩
  rw [setSecretEnvironment_eq]
  simp only [fails, decide_eq_true_eq]
  by_cases hrestart : x.fault = some .restart ∧ w.secrets id ≠ secret
  · have hfails : x.fails .restoreSecret = false := decide_eq_false fun h => nomatch h.symm.trans hrestart.1
    rw [if_pos hrestart, if_pos (by rwa [hagree]), fail_compensate, restoreSecret_of_valid hvalid, hfails, if_neg nofun,
      setSecretEnvironment_eq, if_neg fun h => h.2 hagree, ok_andThen]
    -- the entry of the environment is still the former one
    have henvironment : update w.environment (x.environmentKey id) (w.secrets id) = w.environment := by
      rw [← hagree, update_eq_self]
    simp only [update_idem, update_eq_self, henvironment]
  · rw [if_neg hrestart, if_neg (by rwa [hagree]), ok_compensate]
    rfl

theorem dropSecret_eq : ∃ e, x.dropSecret id (w.secrets id) w =
      if (w.secrets id).isSome ∧ (x.fault = some .changeSecret ∨ x.fault = some .restart) then fail e w
      else ok () (w.withSecret x id none) := by
  cases hprevious : w.secrets id with
  | none =>
    refine ⟨.database, ?_⟩
    rw [if_neg (fun h => nomatch h.1), ← hprevious, withSecret_self hagree, hprevious]
    rfl
  | some =>
    obtain ⟨e, hrestart⟩ := restart_compensate_eq hagree hvalid none
    rw [hprevious] at hrestart
    unfold dropSecret deleteProviderKey fails
    rw [hvalid]
    by_cases hchange : x.fault = some .changeSecret
    · exact ⟨.secret .database, by simp [hchange]⟩
    · refine ⟨e, ?_⟩
      simp only [isSome_some, if_true, hchange, decide_false, Bool.false_eq_true, if_false, reduceCtorEq, ok_andThen,
        hrestart, ne_eq, not_false_eq_true, and_true, false_or, true_and]

end Compensation

def Clear (x : Platform) (path : List Site) : Prop := ∀ site ∈ path, x.fault ≠ some site

theorem clear_append : Clear x (a ++ b) ↔ Clear x a ∧ Clear x b := forall_mem_append

theorem clear_cons : Clear x (site :: a) ↔ x.fault ≠ some site ∧ Clear x a := forall_mem_cons

theorem clear_runtime : Clear x [.readCatalog, .writeConfig, .readBack] ↔ ¬Unwritten x ∧ x.fault ≠ some .readBack := by
  simp [Clear, Unwritten, and_assoc]

/-- What a call is to be judged by: the secret it stores, its edits, the calls before the runtime's, and what is wanted at the end. -/
def Kept (x : Platform) (w : World) (id : Str) (secret : Option Str) (edits : Option (List ConfigEdit)) (path : List Site)
    (P : World → Prop) : Prop :=
  (x.fault = some .readBack → ∀ list, edits = some list → w.config.edits list = w.config) ∧
    (x.fault = some .restoreSecret ∨ x.fault = some .restoreRestart → edits = none → secret = w.secrets id) ∧
    (∀ list, edits = some list → Clear x (path ++ [.readCatalog, .writeConfig, .readBack]) →
      P { w.withSecret x id secret with config := w.config.edits list })

variable {edits : Option (List ConfigEdit)} {path : List Site}

theorem kept_of_refused : Kept x w id (w.secrets id) none path P :=
  ⟨nofun, fun _ _ => rfl, nofun⟩

theorem kept_of_fault (hfault : x.fault = some site) (hsite : site ∈ path)
    (hback : site ≠ .readBack) (hsecret : site ≠ .restoreSecret) (hrestart : site ≠ .restoreRestart) :
    Kept x w id secret edits path P := by
  refine ⟨fun h => ?_, fun h => ?_, fun _ _ hclear => ?_⟩
  · exact absurd (some.inj (hfault.symm.trans h)) hback
  · rcases h with h | h
    · exact absurd (some.inj (hfault.symm.trans h)) hsecret
    · exact absurd (some.inj (hfault.symm.trans h)) hrestart
  · exact absurd hfault (hclear site (mem_append_left _ hsite))

theorem authorize_kept {next : World → Outcome Error World Catalog}
    (h : x.fault ≠ some .authorize → ((next w).Atomic w P ↔ Kept x w id secret edits (.authorize :: path) P)) :
    ((x.authorize w).andThen fun _ => next).Atomic w P ↔ Kept x w id secret edits (.authorize :: path) P := by
  unfold authorize fails
  by_cases hfault : x.fault = some .authorize
  · rw [if_pos (decide_eq_true hfault)]
    exact iff_of_true rfl (kept_of_fault hfault mem_cons_self nofun nofun nofun)
  · rw [if_neg (by simpa using hfault)]
    exact h hfault

theorem read_kept (hpath : Site.readSecret ∈ path) {next : Option Str → World → Outcome Error World Catalog}
    (h : validId id → x.fault ≠ some .authorize → x.fault ≠ some .readSecret →
      ((next (w.secrets id) w).Atomic w P ↔ Kept x w id secret edits (.authorize :: path) P)) :
    ((x.authorize w).andThen fun _ w => (x.getProviderKey id w).andThen next).Atomic w P ↔
      Kept x w id (if validId id then secret else w.secrets id) (if validId id then edits else none) (.authorize :: path) P := by
  refine authorize_kept fun hauthorized => ?_
  unfold getProviderKey fails
  by_cases hvalid : validId id
  · rw [if_pos hvalid, if_pos hvalid, hvalid, if_neg nofun]
    by_cases hfault : x.fault = some .readSecret
    · rw [if_pos (decide_eq_true hfault)]
      exact iff_of_true rfl (kept_of_fault hfault (mem_cons_of_mem _ hpath) nofun nofun nofun)
    · rw [if_neg (by simpa using hfault)]
      exact h hvalid hauthorized hfault
  · rw [if_neg hvalid, if_neg hvalid, if_pos (Bool.eq_false_iff.2 hvalid)]
    exact iff_of_true rfl kept_of_refused

include hagree

/-- **A changed secret, then the runtime, then the compensation.** -/
theorem change_compensate_kept (hvalid : validId id)
    {edits : Catalog → Except ServiceError (List ConfigEdit)} (hpath : Clear x path) :
    ((x.change id edits (w.withSecret x id secret)).compensate (x.restoreSecret id (w.secrets id))).Atomic w P ↔
      Kept x w id secret (edits (x.catalog w.config)).toOption path P := by
  have hcases := change_cases (x := x) hvalid edits (w.withSecret x id secret)
  rw [config_withSecret] at hcases
  rcases hcases with
    ⟨hrefused, e, hchange⟩ | ⟨list, hlist, ⟨hback, e, hchange⟩ | ⟨hunwritten, hback, catalog, hchange⟩⟩
  · rw [hchange, fail_compensate, unwritten_compensate hagree hvalid]
    constructor
    · intro hrestored
      refine ⟨fun hback list hlist => ?_, fun hfault _ => hrestored hfault, fun list hlist hclear => ?_⟩
      · rcases hrefused with (hread | hwrite) | hnone
        · cases hback.symm.trans hread
        · cases hback.symm.trans hwrite
        · cases hlist.symm.trans hnone
      · rcases hrefused with hun | hnone
        · exact absurd hun (clear_runtime.1 (clear_append.1 hclear).2).1
        · cases hlist.symm.trans hnone
    · rintro ⟨-, hrestore, -⟩ hfault
      refine hrestore hfault (hrefused.resolve_left ?_)
      rintro (hun | hun) <;> rcases hfault with hf | hf <;> cases hf.symm.trans hun
  · have hfails : ∀ site, site ≠ .readBack → x.fails site = false := fun site hne =>
      decide_eq_false fun hsite => hne (some.inj (hsite.symm.trans hback))
    rw [hchange, fail_compensate, restoreSecret_eq hagree hvalid, hfails .restoreSecret nofun, hfails .restoreRestart nofun]
    rw [if_neg nofun, if_neg (fun h => nomatch h.1), ok_andThen, atomic_fail]
    constructor
    · intro hsame
      refine ⟨fun _ other hother => ?_, fun _ hnone => ?_, fun _ _ hclear => absurd hback (clear_runtime.1 (clear_append.1 hclear).2).2⟩
      · cases hlist.symm.trans hother
        exact congrArg World.config hsame
      · cases hlist.symm.trans hnone
    · rintro ⟨hsame, -, -⟩
      rw [hsame hback list hlist]
  · rw [hchange, ok_compensate, atomic_ok]
    constructor
    · intro hP
      refine ⟨fun hf => absurd hf hback, fun _ hnone => ?_, fun other hother _ => ?_⟩
      · cases hlist.symm.trans hnone
      · cases hlist.symm.trans hother
        exact hP
    · rintro ⟨-, -, hP⟩
      exact hP list hlist (clear_append.2 ⟨hpath, clear_runtime.2 ⟨hunwritten, hback⟩⟩)

theorem drop_change_kept (edits : Catalog → Except ServiceError (List ConfigEdit)) (P : World → Prop) :
    ((x.authorize w).andThen fun _ w => (x.getProviderKey id w).andThen fun previous w =>
      (x.dropSecret id previous w).andThen fun _ w =>
      (x.change id edits w).compensate (x.restoreSecret id previous)).Atomic w P ↔
    Kept x w id (if validId id then none else w.secrets id)
      (if validId id then (edits (x.catalog w.config)).toOption else none) (.authorize :: Call.dropPath w id) P := by
  refine read_kept (by simp [Call.dropPath]) fun hvalid hauthorized hread => ?_
  obtain ⟨e, hdrop⟩ := dropSecret_eq hagree hvalid
  rw [hdrop]
  split
  · next hfault =>
    rw [fail_andThen]
    refine iff_of_true rfl ?_
    rcases hfault with ⟨hsome, hfault | hfault⟩
    · exact kept_of_fault hfault (by simp [Call.dropPath, hsome]) nofun nofun nofun
    · exact kept_of_fault hfault (by simp [Call.dropPath, hsome]) nofun nofun nofun
  · next hfault =>
    rw [ok_andThen]
    refine change_compensate_kept hagree hvalid (clear_cons.2 ⟨hauthorized, clear_cons.2 ⟨hread, ?_⟩⟩)
    split
    · rename_i hsecret
      simpa [Clear, hsecret] using hfault
    · exact nofun

theorem put_change_kept (edits : Str → Catalog → Except ServiceError (List ConfigEdit)) (P : World → Prop) :
    ((x.authorize w).andThen fun _ w => (x.getProviderKey id w).andThen fun previous w =>
      (secretValue apiKey w).andThen fun value w =>
      (x.putProviderKey .changeSecret id value w).andThen fun key w =>
      ((x.setSecretEnvironment .restart key (some value) w).compensate (x.restoreSecret id previous)).andThen fun _ w =>
      (x.change id (edits key) w).compensate (x.restoreSecret id previous)).Atomic w P ↔
    Kept x w id (if validId id then if apiKey.trim.isEmpty then w.secrets id else some apiKey else w.secrets id)
      (if validId id then
        if apiKey.trim.isEmpty then none else (edits (x.environmentKey id) (x.catalog w.config)).toOption
      else none)
      (.authorize :: .readSecret :: .changeSecret :: if w.secrets id = some apiKey then [] else [.restart]) P := by
  refine read_kept (by simp) fun hvalid hauthorized hread => ?_
  unfold secretValue
  by_cases hblank : apiKey.trim.isEmpty
  · rw [if_pos hblank, if_pos hblank, if_pos hblank]
    exact iff_of_true rfl kept_of_refused
  rw [if_neg hblank, if_neg hblank, if_neg hblank, ok_andThen]
  unfold putProviderKey
  rw [hvalid, if_neg nofun, fails]
  by_cases hchange : x.fault = some .changeSecret
  · rw [if_pos (decide_eq_true hchange)]
    exact iff_of_true rfl (kept_of_fault hchange (by simp) nofun nofun nofun)
  rw [if_neg (by simpa using hchange), ok_andThen]
  obtain ⟨e, hrestart⟩ := restart_compensate_eq hagree hvalid (some apiKey)
  rw [hrestart]
  split
  · next hfault =>
    rw [fail_andThen]
    exact iff_of_true rfl (kept_of_fault hfault.1 (by simp [hfault.2]) nofun nofun nofun)
  · next hfault =>
    rw [ok_andThen]
    refine change_compensate_kept hagree hvalid (clear_cons.2 ⟨hauthorized, clear_cons.2 ⟨hread, clear_cons.2 ⟨hchange, ?_⟩⟩⟩)
    split
    · exact nofun
    · rename_i hsame
      simpa [Clear, hsame] using hfault

theorem preserve_change_kept (edits : Catalog → Except ServiceError (List ConfigEdit)) (P : World → Prop) :
    ((x.authorize w).andThen fun _ => x.change id edits).Atomic w P ↔
    Kept x w id (w.secrets id) (if validId id then (edits (x.catalog w.config)).toOption else none) [.authorize] P := by
  refine authorize_kept fun hauthorized => ?_
  by_cases hvalid : validId id
  · obtain ⟨config, hstate⟩ : ∃ config, (x.change id edits w).2 = { w with config := config } := by
      rcases change_cases (x := x) hvalid edits w with ⟨_, _, h⟩ | ⟨_, _, ⟨_, _, h⟩ | ⟨_, _, _, h⟩⟩
      · exact ⟨w.config, congrArg Prod.snd h⟩
      · exact ⟨_, congrArg Prod.snd h⟩
      · exact ⟨_, congrArg Prod.snd h⟩
    have hrestore := restoreSecret_eq (x := x) hagree hvalid (w.secrets id) config
    have hkept : _ ↔ Kept x w id (w.secrets id) (edits (x.catalog w.config)).toOption [.authorize] P :=
      change_compensate_kept hagree hvalid (clear_cons.2 ⟨hauthorized, forall_mem_nil _⟩)
    rw [withSecret_self hagree] at hrestore hkept
    rw [if_pos hvalid, ← hkept]
    -- there is nothing to take back
    refine (atomic_compensate_of_idle ?_).symm
    rw [hstate, hrestore]
    split
    · rfl
    · simp [ok]
  · rw [if_neg hvalid]
    refine iff_of_true ?_ kept_of_refused
    unfold change validateProviderId
    rw [if_neg hvalid]
    exact rfl

omit hagree

/-! ## The configuration afterwards -/

@[simp] theorem providers_editEntry (config : Config) (id : Str) (edit : Entry → Entry) :
    (config.editEntry id edit).providers id = (config.providers id).map edit := update_self _ _ _

theorem edits_append (config : Config) (a b : List ConfigEdit) : config.edits (a ++ b) = (config.edits a).edits b :=
  foldl_append

theorem providers_edits_modelProvider (config : Config) (select : Bool) (id : Str) :
    (config.edits (if select = true then [.modelProvider id] else [])).providers = config.providers := by
  cases select <;> rfl

def keyAfter (before : Option Str) : Credentials → Option Str
  | .preserve => before
  | .environment envKey => some envKey.trim
  | .direct _ | .noCredential => none

theorem except_bind_ok {ε α β : Type} {r : Except ε α} {f : α → Except ε β} {b : β} (h : r.bind f = .ok b) :
    ∃ a, r = .ok a ∧ f a = .ok b := by
  cases r with
  | error => cases h
  | ok a => exact ⟨a, rfl, h⟩

variable {list : List ConfigEdit}

theorem envKey_upsertEdits {config : Config} {request : UpsertRequest}
    (h : x.upsertEdits (x.catalog config) id request = .ok list) :
    ((config.edits list).providers id).bind Entry.envKey =
      keyAfter ((config.providers id).bind Entry.envKey) request.credentials := by
  unfold upsertEdits at h
  dsimp only at h
  split at h
  · cases h
  obtain ⟨_, -, h⟩ := except_bind_ok h
  obtain ⟨_, -, h⟩ := except_bind_ok h
  split at h
  · cases h
  obtain ⟨_, -, h⟩ := except_bind_ok h
  cases h
  rw [edits_append, providers_edits_modelProvider]
  have hdata : (x.catalog config).data id = (config.providers id).map _ := rfl
  cases hentry : config.providers id with
  | none =>
    rw [hentry, map_none] at hdata
    rw [hdata]
    simp only [isNone_none, if_true]
    cases request.credentials <;> simp [Config.edits, Config.edit, update_self, applyNewCredentials, keyAfter]
  | some =>
    rw [hentry, map_some] at hdata
    rw [hdata]
    simp only [isNone_some, Bool.false_eq_true, if_false]
    cases request.credentials <;> simp [Config.edits, Config.edit, existingCredentialEdits, keyAfter, hentry]

theorem envKey_deleteEdits
    (h : deleteEdits (x.catalog config) id = .ok list) : ((config.edits list).providers id).bind Entry.envKey = none := by
  unfold deleteEdits at h
  split at h
  · cases h
  split at h
  · cases h
  split at h
  · cases h
  cases h
  simp [Config.edits, Config.edit]

theorem agree_after : Agree x id { w.withSecret x id secret with config := config } ↔
      ((config.providers id).bind Entry.envKey = some (x.environmentKey id) ↔ secret.isSome) := by
  simp [Agree, World.withSecret]

theorem isWhitespace_of_isEnvironmentChar (h : isEnvironmentChar c) : Str.isWhitespace c = false := by
  have hrange : 48 ≤ c.toNat ∧ c.toNat ≤ 95 := by
    simp only [isEnvironmentChar, Char.isUpper, Char.isDigit, Bool.or_eq_true, Bool.and_eq_true, decide_eq_true_eq,
      beq_iff_eq, ge_iff_le, UInt32.le_iff_toNat_le] at h
    rcases h with (h | h) | rfl
    · exact ⟨Nat.le_trans (by decide) h.1, Nat.le_trans h.2 (by decide)⟩
    · exact ⟨h.1, Nat.le_trans h.2 (by decide)⟩
    · decide
  simp only [Str.isWhitespace, Bool.or_eq_false_iff, Bool.and_eq_false_iff, decide_eq_false_iff_not, beq_eq_false_iff_ne]
  omega

theorem trim_environmentKey (id : Str) : (x.environmentKey id).trim = x.environmentKey id := by
  have hall := (Bool.and_eq_true_iff.1 (validEnvironmentKey_environmentKey (x := x) id)).2
  have hspace : ∀ c ∈ x.environmentKey id, Str.isWhitespace c = false := fun c hc =>
    isWhitespace_of_isEnvironmentChar (all_eq_true.1 hall c hc)
  exact Str.trim_eq_self (fun c hc => hspace c (mem_of_mem_head? hc)) fun c hc => hspace c (mem_of_mem_getLast? hc)

theorem run_kept (call : Call) (hagree : w.environment (x.environmentKey call.id) = w.secrets call.id) (P : World → Prop) :
    (call.run x w).Atomic w P ↔ Kept x w call.id (call.secret w) (call.edits x w) (call.front w) P := by
  cases call with
  | delete => exact drop_change_kept hagree _ P
  | upsert id request =>
    obtain ⟨name, baseUrl, wireApi, credentials, select⟩ := request
    cases credentials with
    | direct =>
      exact put_change_kept hagree
        (fun key catalog => x.upsertEdits catalog id ⟨name, baseUrl, wireApi, .environment key, select⟩) P
    | environment | noCredential => exact drop_change_kept hagree _ P
    | preserve =>
      have hsame : w.environment (x.environmentKey id) = w.secrets id := hagree
      have hsecret : (if validId id then w.secrets id else w.secrets id) = w.secrets id := ite_self _
      have hkept := preserve_change_kept hsame
        (fun catalog => x.upsertEdits catalog id ⟨name, baseUrl, wireApi, .preserve, select⟩) P
      rw [← hsecret] at hkept
      exact hkept

/-! ## All or nothing -/

theorem of_toOption {ε α : Type} {r : Except ε α} {a : α} (h : r.toOption = some a) : r = .ok a := by
  cases r with
  | error => cases h
  | ok => exact congrArg Except.ok (some.inj h)

theorem forall_named {request : UpsertRequest} : (∀ id' request' envKey, Call.upsert id request = .upsert id' request' →
      request'.credentials = .environment envKey → envKey.trim ≠ x.environmentKey id') ↔
    ∀ envKey, request.credentials = .environment envKey → envKey.trim ≠ x.environmentKey id :=
  ⟨fun h _ => h _ _ _ rfl, by rintro h _ _ _ ⟨rfl, rfl⟩; exact h _⟩

/-- **Where a call is answered, the three agree**, unless it names the key of the secret it deletes. -/
theorem agree_edits {call : Call} (hagree : Agree x call.id w) (hlist : call.edits x w = some list) :
    Agree x call.id { w.withSecret x call.id (call.secret w) with config := w.config.edits list } ↔
      ∀ id request envKey, call = .upsert id request → request.credentials = .environment envKey →
        envKey.trim ≠ x.environmentKey id := by
  rw [agree_after]
  cases call with
  | delete =>
    simp only [Call.edits] at hlist
    split at hlist
    · next hvalid =>
      simp only [Call.id, Call.secret, envKey_deleteEdits (of_toOption hlist), hvalid, if_true]
      exact iff_of_true (by simp) nofun
    · cases hlist
  | upsert id request =>
    obtain ⟨_, _, _, credentials, _⟩ := request
    simp only [Call.edits] at hlist
    rw [forall_named]
    split at hlist
    · next hvalid =>
      simp only [Call.id, Call.secret, hvalid, if_true]
      cases credentials with
      | direct =>
        dsimp only at hlist
        split at hlist
        · cases hlist
        · next hblank => simp [envKey_upsertEdits (of_toOption hlist), keyAfter, trim_environmentKey, hblank]
      | environment | noCredential => simp [envKey_upsertEdits (of_toOption hlist), keyAfter]
      | preserve => simpa [envKey_upsertEdits (of_toOption hlist), keyAfter, Call.id] using hagree.2
    · cases hlist

/-- **A call to the secured provider service is all or nothing exactly where it is safe**, from a state in which the stored secret,
the environment and the configuration agree on the provider. -/
theorem provider_call_atomic (x : Platform) (w : World) (call : Call) (hagree : Agree x call.id w) :
    (call.run x w).Atomic w (Agree x call.id) ↔ Safe x w call := by
  rw [run_kept call hagree.1]
  constructor
  · rintro ⟨hback, hrestore, hclear⟩
    refine ⟨hback, hrestore, fun id request envKey hcall hcredentials hkey hedits => ?_⟩
    obtain ⟨list, hlist⟩ := ne_none_iff_exists'.1 hedits
    by_contra hnone
    have hfree : Clear x (call.path w) := fun site hsite hfault => hnone ⟨site, hsite, hfault⟩
    exact (agree_edits hagree hlist).1 (hclear list hlist hfree) id request envKey hcall hcredentials hkey
  · rintro ⟨hback, hrestore, hnamed⟩
    refine ⟨hback, hrestore, fun list hlist hfree => (agree_edits hagree hlist).2 ?_⟩
    intro id request envKey hcall hcredentials hkey
    obtain ⟨site, hsite, hfault⟩ := hnamed id request envKey hcall hcredentials hkey (by rw [hlist]; exact nofun)
    exact hfree site hsite hfault

def failing (fault : Option Site) : Platform :=
  { profileId := "p".toList
    digest := fun _ => List.replicate 32 171
    scheme := fun text => if Str.startsWith text "https:".toList then some "https".toList else none
    isBuiltIn := fun id => decide (id = "openai".toList)
    fault := fault
    recovers := true }

def acmeKey : Str := (failing none).environmentKey "acme".toList

def configured : World :=
  { secrets := fun id => if id = "acme".toList then some "old".toList else none
    environment := fun key => if key = acmeKey then some "old".toList else none
    config :=
      { providers := fun id =>
          if id = "acme".toList then some ⟨"Acme".toList, "https://acme".toList, "chat".toList, some acmeKey, none⟩ else none
        modelProvider := "openai".toList } }

def rename (credentials : Credentials) : Call :=
  .upsert "acme".toList ⟨"Acme 2".toList, "https://acme".toList, "chat".toList, credentials, false⟩

theorem agree_configured (fault : Option Site) : Agree (failing fault) "acme".toList configured := by
  have hkey : (failing fault).environmentKey "acme".toList = acmeKey := rfl
  unfold Agree
  rw [hkey]
  decide

theorem failed_write_restores :
    (((rename (.direct "new".toList)).run (failing (some .writeConfig)) configured).Atomic configured
        (Agree (failing (some .writeConfig)) "acme".toList)) ∧
      ((rename (.direct "new".toList)).run (failing none) configured).Atomic configured (Agree (failing none) "acme".toList) := by
  refine ⟨(provider_call_atomic (failing (some .writeConfig)) configured (rename (.direct "new".toList)) (agree_configured _)).2 ?_,
    (provider_call_atomic (failing none) configured (rename (.direct "new".toList)) (agree_configured _)).2 ?_⟩
  all_goals
    refine ⟨nofun, fun h => ?_, ?_⟩
    · rcases h with h | h <;> cases h
    · rintro _ _ _ ⟨rfl, rfl⟩ hcredentials
      cases hcredentials

def lateFailure : Except Error Catalog × World := (rename (.direct "new".toList)).run (failing (some .readBack)) configured

def ownKey : Except Error Catalog × World := (rename (.environment acmeKey)).run (failing none) configured

/-- **A call that fails after its write leaves the configuration changed**, and one that names the provider's own key deletes the
secret behind it. -/
theorem torn_calls : (lateFailure.1.toOption.isSome = false ∧ lateFailure.2.secrets "acme".toList = some "old".toList ∧
        (lateFailure.2.config.providers "acme".toList).map Entry.name = some "Acme 2".toList) ∧
      ownKey.1.toOption.isSome = true ∧ ownKey.2.secrets "acme".toList = none ∧
        (ownKey.2.config.providers "acme".toList).bind Entry.envKey = some acmeKey := by
  decide

end Owc.Provider
