import GitopsReverser.Reasoning.Runs

/-!
# Credentials — the config and the clients of one source cluster

A cluster's config is resolved when a client is first needed and resolved again on the
catalog-refresh cadence. A client is named by the config it was built from, and so is an open
watch stream.
-/

namespace GitopsReverser.Watch

open Reasoning

variable {C : Type}

/-! ## 1. What the resolver answers -/

/-- The errors of `ResolveSourceCluster`, as the refresh tells them apart. -/
inductive ResolveError where
  | notFound
  | rejected
  | other
  deriving DecidableEq

def isDefinitiveCredentialFailure : ResolveError → Bool
  | .notFound | .rejected => true
  | .other => false

/-- `ResolveSourceCluster`: no config stands for the operator's own cluster, whose config is then
read from the process (`ownRead`). -/
inductive ProviderAnswer (C : Type) where
  | inCluster (ownRead : Bool)
  | remote (config : C) (version : String)
  | failed (e : ResolveError)

def inClusterConfigVersion : String := "in-cluster"

def resolveSourceConfig (own : C) : ProviderAnswer C → Except ResolveError (C × String × Bool)
  | .inCluster true => .ok (own, inClusterConfigVersion, true)
  | .inCluster false => .error .other
  | .remote config version => .ok (config, version, false)
  | .failed e => .error e

/-! ## 2. The cached clients -/

/-- The client fields of `clusterContext`, with the watch streams opened on its clients. -/
structure Credentials (C : Type) where
  restConfig : Option C
  configVersion : String
  inCluster : Bool
  dynamicClient : Option C
  discovery : Option C
  streams : List C

def newCredentials : Credentials C := ⟨none, "", false, none, none, []⟩

def clusterRESTConfig (own : C) (answer : ProviderAnswer C) (cc : Credentials C) :
    Credentials C × Option C :=
  match cc.restConfig with
  | some config => (cc, some config)
  | none =>
    match resolveSourceConfig own answer with
    | .error _ => (cc, none)
    | .ok (config, version, inCluster) =>
      ({ cc with restConfig := some config, configVersion := version, inCluster := inCluster },
        some config)

def clusterDynamicClient (own : C) (answer : ProviderAnswer C) (built : Bool) (cc : Credentials C) :
    Credentials C × Option C :=
  match cc.dynamicClient with
  | some client => (cc, some client)
  | none =>
    match clusterRESTConfig own answer cc with
    | (cc', none) => (cc', none)
    | (cc', some config) =>
      if built then ({ cc' with dynamicClient := some config }, some config) else (cc', none)

/-- `clusterDiscovery`; the request timeout it adds to a copy of the config is left out. -/
def clusterDiscovery (own : C) (answer : ProviderAnswer C) (built : Bool) (cc : Credentials C) :
    Credentials C × Option C :=
  match cc.discovery with
  | some client => (cc, some client)
  | none =>
    match clusterRESTConfig own answer cc with
    | (cc', none) => (cc', none)
    | (cc', some config) =>
      if built then ({ cc' with discovery := some config }, some config) else (cc', none)

def dropClusterClients (cc : Credentials C) : Credentials C × Bool :=
  match cc.restConfig with
  | none => (cc, false)
  | some _ =>
    ({ cc with restConfig := none, configVersion := "", dynamicClient := none,
               discovery := none }, true)

def Credentials.invalidateClusterWatches (cc : Credentials C) : Credentials C :=
  { cc with streams := [] }

def adoptConfig (config : C) (version : String) (inCluster : Bool) (cc : Credentials C) :
    Credentials C :=
  if cc.restConfig.isSome && version == cc.configVersion then { cc with inCluster := inCluster }
  else
    let cc' : Credentials C :=
      { cc with inCluster := inCluster, restConfig := some config, configVersion := version,
                dynamicClient := none, discovery := none }
    -- a config replaced under running watches takes them down with it
    if cc.restConfig.isSome then cc'.invalidateClusterWatches else cc'

def Credentials.refreshClusterCredentials (own : C) (answer : ProviderAnswer C) (cc : Credentials C) :
    Credentials C :=
  -- `isLocal`: the operator's own credentials are taken not to change
  if cc.inCluster then cc
  else
    match resolveSourceConfig own answer with
    | .ok (config, version, inCluster) => adoptConfig config version inCluster cc
    | .error e =>
      if isDefinitiveCredentialFailure e then
        match dropClusterClients cc with
        | (cc', true) => cc'.invalidateClusterWatches
        | (cc', false) => cc'
      else cc

/-- A refresh, or a use of one of the clients with what the resolver would answer it. -/
inductive CredentialInput (C : Type) where
  | refresh (answer : ProviderAnswer C)
  | list (answer : ProviderAnswer C) (built : Bool)
  | watch (answer : ProviderAnswer C) (built : Bool)
  | discover (answer : ProviderAnswer C) (built : Bool)

def credentialStep (own : C) (cc : Credentials C) : CredentialInput C → Credentials C
  | .refresh answer => cc.refreshClusterCredentials own answer
  | .list answer built => (clusterDynamicClient own answer built cc).1
  | .watch answer built =>
    match clusterDynamicClient own answer built cc with
    | (cc', none) => cc'
    | (cc', some client) => { cc' with streams := client :: cc'.streams }
  | .discover answer built => (clusterDiscovery own answer built cc).1

/-! ## 3. What is cached hangs together -/

/-- Clients and streams stand on the cached config, and an in-cluster config is the operator's. -/
structure Consistent (own : C) (cc : Credentials C) : Prop where
  dynamicClient : cc.dynamicClient = none ∨ cc.dynamicClient = cc.restConfig
  discovery : cc.discovery = none ∨ cc.discovery = cc.restConfig
  streams : ∀ c ∈ cc.streams, cc.restConfig = some c
  own : cc.inCluster = true → cc.restConfig = some own

variable {own : C} {cc : Credentials C}

theorem consistent_new : Consistent own (newCredentials : Credentials C) :=
  ⟨.inl rfl, .inl rfl, by simp [newCredentials], by simp [newCredentials]⟩

theorem Consistent.bare (h : Consistent own cc) (hnone : cc.restConfig = none) :
    cc.dynamicClient = none ∧ cc.discovery = none ∧ cc.streams = [] := by
  refine ⟨?_, ?_, ?_⟩
  · exact h.dynamicClient.elim id (fun heq => heq.trans hnone)
  · exact h.discovery.elim id (fun heq => heq.trans hnone)
  · refine List.eq_nil_iff_forall_not_mem.mpr (fun c hc => ?_)
    have hsome := h.streams c hc
    rw [hnone] at hsome
    cases hsome

variable {config : C} {version : String} {inCluster : Bool}

theorem resolveSourceConfig_own {answer : ProviderAnswer C}
    (h : resolveSourceConfig own answer = .ok (config, version, true)) : config = own := by
  cases answer with
  | inCluster ownRead =>
    cases ownRead with
    | true => cases h; rfl
    | false => cases h
  | remote config' version' | failed e => cases h

theorem Consistent.resolvedLazily (h : Consistent own cc) (answer : ProviderAnswer C) :
    Consistent own (clusterRESTConfig own answer cc).1 ∧
      (clusterRESTConfig own answer cc).2 = (clusterRESTConfig own answer cc).1.restConfig := by
  unfold clusterRESTConfig
  cases hrest : cc.restConfig with
  | some config => exact ⟨h, hrest.symm⟩
  | none =>
    obtain ⟨hdynamic, hdiscovery, hstream⟩ := h.bare hrest
    cases hres : resolveSourceConfig own answer with
    | error e => exact ⟨h, hrest.symm⟩
    | ok resolved =>
      obtain ⟨config, version, inCluster⟩ := resolved
      refine ⟨⟨.inl hdynamic, .inl hdiscovery, ?_, ?_⟩, rfl⟩
      · intro c hc
        rw [hstream] at hc
        cases hc
      · rintro rfl
        exact congrArg some (resolveSourceConfig_own hres)

theorem Consistent.dynamicUsed (h : Consistent own cc) (answer : ProviderAnswer C) (built : Bool) :
    Consistent own (clusterDynamicClient own answer built cc).1 ∧
      ∀ client, (clusterDynamicClient own answer built cc).2 = some client →
        (clusterDynamicClient own answer built cc).1.restConfig = some client := by
  unfold clusterDynamicClient
  cases hclient : cc.dynamicClient with
  | some client =>
    refine ⟨h, ?_⟩
    rintro _ ⟨⟩
    exact (h.dynamicClient.resolve_left (by simp [hclient])).symm.trans hclient
  | none =>
    obtain ⟨hres, hconsistent⟩ := h.resolvedLazily answer
    generalize clusterRESTConfig own answer cc = lazily at hres hconsistent ⊢
    obtain ⟨cc', config⟩ := lazily
    cases config with
    | none => exact ⟨hres, fun _ hsome => nomatch hsome⟩
    | some config =>
      cases built with
      | false => exact ⟨hres, fun _ hsome => nomatch hsome⟩
      | true =>
        refine ⟨⟨.inr hconsistent, hres.discovery, hres.streams, hres.own⟩, ?_⟩
        rintro _ ⟨⟩
        exact hconsistent.symm

theorem Consistent.discoveryUsed (h : Consistent own cc) (answer : ProviderAnswer C)
    (built : Bool) : Consistent own (clusterDiscovery own answer built cc).1 := by
  unfold clusterDiscovery
  cases hclient : cc.discovery with
  | some client => exact h
  | none =>
    obtain ⟨hres, hconsistent⟩ := h.resolvedLazily answer
    generalize clusterRESTConfig own answer cc = lazily at hres hconsistent ⊢
    obtain ⟨cc', config⟩ := lazily
    cases config with
    | none => exact hres
    | some config =>
      cases built with
      | false => exact hres
      | true => exact ⟨hres.dynamicClient, .inr hconsistent, hres.streams, hres.own⟩

/-! ## 4. A refresh follows the resolver -/

/-- Where the refresh keeps what is cached, it is what the resolver answers. It keeps it under an
unchanged version token, and for a cluster once resolved to be the operator's own. -/
def KeepsTheAnswer (own : C) (cc : Credentials C) : CredentialInput C → Prop
  | .refresh answer =>
    match resolveSourceConfig own answer with
    | .ok (config, version, _) => cc.inCluster = true ∨ version = cc.configVersion →
        cc.restConfig = none ∨ cc.restConfig = some config
    | .error e => isDefinitiveCredentialFailure e = true → cc.inCluster = false
  | _ => True

/-- A refresh caches what the resolver answers, fails closed, and sits out a transient error. -/
def FollowsTheAnswer (own : C) (cc : Credentials C) : CredentialInput C → Prop
  | .refresh answer =>
    let cc' := cc.refreshClusterCredentials own answer
    match resolveSourceConfig own answer with
    | .ok (config, _, _) => cc'.restConfig = some config ∧
        (∀ client, cc'.dynamicClient = some client → client = config) ∧
        ∀ client, cc'.discovery = some client → client = config
    | .error e =>
      if isDefinitiveCredentialFailure e then
        cc'.restConfig = none ∧ cc'.dynamicClient = none ∧ cc'.discovery = none ∧ cc'.streams = []
      else cc' = cc
  | _ => True

theorem Consistent.clients_of (h : Consistent own cc) (hrest : cc.restConfig = some config) :
    (∀ client, cc.dynamicClient = some client → client = config) ∧
      ∀ client, cc.discovery = some client → client = config := by
  refine ⟨fun client hclient => ?_, fun client hclient => ?_⟩
  · have heq := h.dynamicClient.resolve_left (by simp [hclient])
    rw [hclient, hrest] at heq
    exact Option.some.inj heq
  · have heq := h.discovery.resolve_left (by simp [hclient])
    rw [hclient, hrest] at heq
    exact Option.some.inj heq

theorem adoptConfig_of_same (hsome : cc.restConfig.isSome = true) (hversion : version = cc.configVersion) :
    adoptConfig config version inCluster cc = { cc with inCluster := inCluster } :=
  if_pos (by simp [hsome, hversion])

theorem Consistent.adoptConfig_of_new (h : Consistent own cc)
    (hnew : cc.restConfig = none ∨ version ≠ cc.configVersion) :
    adoptConfig config version inCluster cc = ⟨some config, version, inCluster, none, none, []⟩ := by
  have hnot : ¬ (cc.restConfig.isSome && version == cc.configVersion) = true := by
    rcases hnew with hnone | hversion
    · simp [hnone]
    · simp [hversion]
  refine (if_neg hnot).trans ?_
  cases hrest : cc.restConfig with
  | some cached => rfl
  | none =>
    obtain ⟨-, -, hstream⟩ := h.bare hrest
    simp [hstream]

theorem Consistent.adopted (h : Consistent own cc) (hown : inCluster = true → config = own)
    (hkeep : version = cc.configVersion → cc.restConfig = none ∨ cc.restConfig = some config) :
    Consistent own (adoptConfig config version inCluster cc) ∧
      (adoptConfig config version inCluster cc).restConfig = some config := by
  by_cases hnew : cc.restConfig = none ∨ version ≠ cc.configVersion
  · rw [h.adoptConfig_of_new hnew]
    exact ⟨⟨.inl rfl, .inl rfl, by simp, fun hloc => congrArg some (hown hloc)⟩, rfl⟩
  · obtain ⟨hsome, hversion⟩ := not_or.mp hnew
    have hversion := not_not.mp hversion
    have hcongr := (hkeep hversion).resolve_left hsome
    rw [adoptConfig_of_same (Option.isSome_iff_ne_none.mpr hsome) hversion]
    refine ⟨⟨h.dynamicClient, h.discovery, h.streams, fun hloc => ?_⟩, hcongr⟩
    exact hcongr.trans (congrArg some (hown hloc))

section Refresh

variable {answer : ProviderAnswer C}

theorem refresh_of_local (hloc : cc.inCluster = true) : cc.refreshClusterCredentials own answer = cc :=
  if_pos hloc

variable {inCluster : Bool} {version : String}

theorem refresh_of_resolved {config : C} (hloc : cc.inCluster = false)
    (hres : resolveSourceConfig own answer = .ok (config, version, inCluster)) :
    cc.refreshClusterCredentials own answer = adoptConfig config version inCluster cc := by
  refine (if_neg (by simp [hloc])).trans ?_
  rw [hres]

theorem refresh_of_transient {e : ResolveError} (hres : resolveSourceConfig own answer = .error e)
    (htransient : isDefinitiveCredentialFailure e = false) :
    cc.refreshClusterCredentials own answer = cc := by
  cases hloc : cc.inCluster with
  | true => exact refresh_of_local hloc
  | false =>
    refine (if_neg (by simp [hloc])).trans ?_
    simp only [hres, htransient]
    rfl

theorem Consistent.refresh_of_definitive (h : Consistent own cc) {e : ResolveError}
    (hloc : cc.inCluster = false) (hres : resolveSourceConfig own answer = .error e)
    (hdefinitive : isDefinitiveCredentialFailure e = true) :
    ∃ version, cc.refreshClusterCredentials own answer = ⟨none, version, false, none, none, []⟩ := by
  unfold Credentials.refreshClusterCredentials
  rw [if_neg (by simp [hloc]), hres]
  simp only [hdefinitive, if_true]
  unfold dropClusterClients
  cases hrest : cc.restConfig with
  | some config =>
    refine ⟨"", ?_⟩
    simp only [Credentials.invalidateClusterWatches, hloc]
  | none =>
    obtain ⟨hdynamic, hdiscovery, hstream⟩ := h.bare hrest
    obtain ⟨restConfig, configVersion, inCluster, dynamicClient, discovery, streams⟩ := cc
    exact ⟨configVersion, by simp_all⟩

theorem Consistent.refreshed_of_resolved (h : Consistent own cc) {config : C}
    (hres : resolveSourceConfig own answer = .ok (config, version, inCluster))
    (hkeep : cc.inCluster = true ∨ version = cc.configVersion →
      cc.restConfig = none ∨ cc.restConfig = some config) :
    Consistent own (cc.refreshClusterCredentials own answer) ∧
      (cc.refreshClusterCredentials own answer).restConfig = some config := by
  cases hloc : cc.inCluster with
  | true =>
    rw [refresh_of_local hloc]
    exact ⟨h, (hkeep (.inl hloc)).resolve_left (by simp [h.own hloc])⟩
  | false =>
    rw [refresh_of_resolved hloc hres]
    refine h.adopted ?_ (fun hversion => hkeep (.inr hversion))
    rintro rfl
    exact resolveSourceConfig_own hres

theorem kept_of_refreshed {config : C}
    (hres : resolveSourceConfig own answer = .ok (config, version, inCluster))
    (hnow : (cc.refreshClusterCredentials own answer).restConfig = some config)
    (hkeep : cc.inCluster = true ∨ version = cc.configVersion) :
    cc.restConfig = none ∨ cc.restConfig = some config := by
  cases hloc : cc.inCluster with
  | true =>
    rw [refresh_of_local hloc] at hnow
    exact .inr hnow
  | false =>
    have hversion := hkeep.resolve_left (by simp [hloc])
    rw [refresh_of_resolved hloc hres] at hnow
    by_cases hnone : cc.restConfig = none
    · exact .inl hnone
    · rw [adoptConfig_of_same (Option.isSome_iff_ne_none.mpr hnone) hversion] at hnow
      exact .inr hnow

/-- One refresh: it follows the resolver exactly when what it keeps is what the resolver answers. -/
theorem Consistent.follows_iff (h : Consistent own cc) (input : CredentialInput C) :
    KeepsTheAnswer own cc input ↔ FollowsTheAnswer own cc input := by
  cases input with
  | list answer built | watch answer built | discover answer built => exact Iff.rfl
  | refresh answer =>
    simp only [KeepsTheAnswer, FollowsTheAnswer]
    cases hres : resolveSourceConfig own answer with
    | ok resolved =>
      obtain ⟨config, version, inCluster⟩ := resolved
      constructor
      · intro hkeep
        obtain ⟨hconsistent, hrest⟩ := h.refreshed_of_resolved hres hkeep
        exact ⟨hrest, hconsistent.clients_of hrest⟩
      · rintro ⟨hrest, -, -⟩
        exact kept_of_refreshed hres hrest
    | error e =>
      cases hdefinitive : isDefinitiveCredentialFailure e with
      | false => simp [hdefinitive, refresh_of_transient hres hdefinitive]
      | true =>
        simp only [hdefinitive, if_true, true_implies]
        constructor
        · intro hloc
          obtain ⟨version, heq⟩ := h.refresh_of_definitive hloc hres hdefinitive
          rw [heq]
          exact ⟨rfl, rfl, rfl, rfl⟩
        · rintro ⟨hrest, -⟩
          cases hloc : cc.inCluster with
          | false => rfl
          | true =>
            rw [refresh_of_local hloc, h.own hloc] at hrest
            cases hrest

end Refresh

theorem Consistent.step {input : CredentialInput C} (hkeep : KeepsTheAnswer own cc input)
    (h : Consistent own cc) : Consistent own (credentialStep own cc input) := by
  cases input with
  | list answer built => exact (h.dynamicUsed answer built).1
  | discover answer built => exact h.discoveryUsed answer built
  | watch answer built =>
    obtain ⟨hused, hclient⟩ := h.dynamicUsed answer built
    simp only [credentialStep]
    generalize clusterDynamicClient own answer built cc = used at hused hclient ⊢
    obtain ⟨cc', client⟩ := used
    cases client with
    | none => exact hused
    | some client =>
      refine ⟨hused.dynamicClient, hused.discovery, ?_, hused.own⟩
      intro c hc
      rcases List.mem_cons.mp hc with rfl | hc
      · exact hclient c rfl
      · exact hused.streams c hc
  | refresh answer =>
    simp only [KeepsTheAnswer] at hkeep
    cases hres : resolveSourceConfig own answer with
    | ok resolved =>
      obtain ⟨config, version, inCluster⟩ := resolved
      rw [hres] at hkeep
      exact (h.refreshed_of_resolved hres hkeep).1
    | error e =>
      rw [hres] at hkeep
      cases hdefinitive : isDefinitiveCredentialFailure e with
      | false =>
        change Consistent own (cc.refreshClusterCredentials own answer)
        rw [refresh_of_transient hres hdefinitive]
        exact h
      | true =>
        obtain ⟨version, heq⟩ := h.refresh_of_definitive (hkeep hdefinitive) hres hdefinitive
        change Consistent own (cc.refreshClusterCredentials own answer)
        rw [heq]
        exact ⟨.inl rfl, .inl rfl, by simp, by simp⟩

/-! ## 5. Every run -/

/-- Along a run every refresh follows the resolver exactly when, at every refresh, what it keeps is
what the resolver answers: the cached config under an unchanged version token, and everything for
a cluster that once resolved to the operator's own. -/
theorem credentials_follow_iff (own : C) (inputs : List (CredentialInput C)) :
    AllSteps (credentialStep own) (KeepsTheAnswer own) newCredentials inputs ↔
      AllSteps (credentialStep own) (FollowsTheAnswer own) newCredentials inputs :=
  AllSteps.congr (fun _ _ hkeep h => h.step hkeep) (fun _ input h => h.follows_iff input)
    consistent_new inputs

/-- Credentials that do not follow the resolver: of a re-created provider, and of one that selects
another key of an unchanged Secret under the same generation. -/
theorem credentials_do_not_always_follow :
    ¬ AllSteps (credentialStep 0) (FollowsTheAnswer 0) newCredentials
        [.watch (.inCluster true) true, .refresh (.remote 1 "1/7")] ∧
      ¬ AllSteps (credentialStep 0) (FollowsTheAnswer 0) newCredentials
        [.watch (.inCluster true) true, .refresh (.failed .notFound)] ∧
      ¬ AllSteps (credentialStep 0) (FollowsTheAnswer 0) newCredentials
        [.watch (.remote 1 "1/7") true, .refresh (.remote 2 "1/7")] := by
  refine ⟨?_, ?_, ?_⟩
  · rintro ⟨-, ⟨hrest, -⟩, -⟩
    exact absurd hrest (by decide)
  · rintro ⟨-, ⟨hrest, -⟩, -⟩
    exact absurd hrest (by decide)
  · rintro ⟨-, ⟨hrest, -⟩, -⟩
    exact absurd hrest (by decide)

end GitopsReverser.Watch
