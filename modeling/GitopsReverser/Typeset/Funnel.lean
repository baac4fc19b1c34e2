import GitopsReverser.Types

/-!
# Funnel — is a served type followable?

Every served type is reduced to an observation, and every observation to one verdict by a fixed
list of checks.
-/

namespace GitopsReverser.Typeset

structure GroupVersionKind where
  group : String
  version : String
  kind : String
  deriving DecidableEq, Repr

structure GroupVersion where
  group : String
  version : String
  deriving DecidableEq, Repr

inductive Scope where
  | namespaced
  | cluster
  | unknown
  deriving DecidableEq, Repr

/-- The one name of a type; the registry keys its records by it. -/
structure Identity where
  gvk : GroupVersionKind
  gvr : GroupVersionResource
  scope : Scope
  deriving DecidableEq, Repr

inductive OriginKind where
  | builtin
  | crd
  | aggregated
  | unknown
  deriving DecidableEq, Repr

inductive Verdict where
  | followable
  /-- A transient check fails and the removal grace has not elapsed: still live. -/
  | retained
  | refused
  | unknown
  deriving DecidableEq, Repr

inductive Requirement where
  | served
  | trusted
  | stable
  | identity
  | scope
  | verbs
  | origin
  | policy
  | sensitivity
  | scale
  deriving DecidableEq, Repr

inductive Reason where
  | notServed
  | subresourceOnly
  | discoveryDegraded
  | catalogUnavailable
  | absenceExpired
  | gvkNotUnique
  | gvrNotUnique
  | scopeUnknown
  | missingVerb
  | originUnknown
  | deniedByPolicy
  | scalePathUnresolved
  deriving DecidableEq, Repr

inductive CheckResult where
  | pass
  | skip
  | fail (reason : Reason)
  deriving DecidableEq, Repr

structure Check where
  requirement : Requirement
  result : CheckResult
  deriving DecidableEq, Repr

structure Observation where
  identity : Identity
  origin : OriginKind
  preferred : Bool
  verbs : List String
  scaleEnabled : Bool
  scaleUsable : Bool
  served : Bool
  subresourceOnly : Bool
  trusted : Bool
  catalogReady : Bool
  absenceExpired : Bool
  gvkUnique : Bool
  gvrUnique : Bool
  denied : Bool
  deriving DecidableEq, Repr

/-! ## 1. Checks -/

def servedCheck (obs : Observation) : CheckResult :=
  if obs.served then .pass
  else if obs.subresourceOnly then .fail .subresourceOnly
  else .fail .notServed

def trustedCheck (obs : Observation) : CheckResult :=
  if obs.trusted then .pass
  else if !obs.catalogReady then .fail .catalogUnavailable
  else .fail .discoveryDegraded

def stableCheck (obs : Observation) : CheckResult :=
  if obs.absenceExpired then .fail .absenceExpired else .pass

def identityCheck (obs : Observation) : CheckResult :=
  if !obs.gvkUnique then .fail .gvkNotUnique
  else if !obs.gvrUnique then .fail .gvrNotUnique
  else .pass

def scopeCheck (obs : Observation) : CheckResult :=
  if obs.identity.scope = .unknown then .fail .scopeUnknown else .pass

def requiredVerbs : List String := ["get", "list", "watch"]

def missingVerbs (advertised : List String) : List String :=
  requiredVerbs.filter (fun verb => !advertised.contains verb)

def verbsCheck (obs : Observation) : CheckResult :=
  if missingVerbs obs.verbs ≠ [] then .fail .missingVerb else .pass

def originCheck (obs : Observation) : CheckResult :=
  if obs.origin = .unknown then .fail .originUnknown else .pass

def policyCheck (obs : Observation) : CheckResult :=
  if obs.denied then .fail .deniedByPolicy else .pass

def scaleCheck (obs : Observation) : CheckResult :=
  if !obs.scaleEnabled then .skip
  else if !obs.scaleUsable then .fail .scalePathUnresolved
  else .pass

/-- Sensitive types have a supported write path, so their check always passes. -/
def evaluate (obs : Observation) : List Check :=
  [⟨.served, servedCheck obs⟩, ⟨.trusted, trustedCheck obs⟩, ⟨.stable, stableCheck obs⟩,
    ⟨.identity, identityCheck obs⟩, ⟨.scope, scopeCheck obs⟩, ⟨.verbs, verbsCheck obs⟩,
    ⟨.origin, originCheck obs⟩, ⟨.policy, policyCheck obs⟩, ⟨.sensitivity, .pass⟩,
    ⟨.scale, scaleCheck obs⟩]

def failedChecks (checks : List Check) : List Check :=
  checks.filter (fun c => c.result matches .fail _)

def onlyTransientFailures (failures : List Check) : Bool :=
  failures.all (fun c => decide (c.requirement = .served) || decide (c.requirement = .trusted))

def deriveVerdict (checks : List Check) : Verdict :=
  let failures := failedChecks checks
  if failures = [] then .followable
  else if failures.any (fun c => decide (c.result = .fail .catalogUnavailable)) then .unknown
  else if onlyTransientFailures failures then .retained
  else .refused

/-- The part of a record that consumers read. -/
structure TypeRecord where
  identity : Identity
  preferred : Bool
  verdict : Verdict
  deriving DecidableEq, Repr

def TypeRecord.followable (rec : TypeRecord) : Bool :=
  decide (rec.verdict = .followable) || decide (rec.verdict = .retained)

def recordFromObservation (obs : Observation) : TypeRecord :=
  ⟨obs.identity, obs.preferred, deriveVerdict (evaluate obs)⟩

/-! ## 2. Scans -/

/-- One served API resource of a discovery scan, with the watch policy applied. -/
structure Entry where
  gvk : GroupVersionKind
  gvr : GroupVersionResource
  namespaced : Bool
  verbs : List String
  preferred : Bool
  subresource : Bool
  allowed : Bool
  /-- The group/version behind it is degraded: its facts are not trusted. -/
  degraded : Bool := false
  deriving DecidableEq, Repr

structure Scan where
  entries : List Entry
  scannedGroupVersions : List GroupVersion
  failedGroupVersions : List GroupVersion
  complete : Bool
  deriving DecidableEq, Repr

def distinctGVRsByGVK (entries : List Entry) (gvk : GroupVersionKind) : List GroupVersionResource :=
  ((entries.filter (fun e => !e.subresource && decide (e.gvk = gvk))).map (·.gvr)).dedup

def distinctGVKsByGVR (entries : List Entry) (gvr : GroupVersionResource) : List GroupVersionKind :=
  ((entries.filter (fun e => !e.subresource && decide (e.gvr = gvr))).map (·.gvk)).dedup

def splitSubresource (resource : String) : Option (String × String) :=
  match resource.toList.dropWhile (· ≠ '/') with
  | [] => none
  | _ :: sub => some (String.ofList (resource.toList.takeWhile (· ≠ '/')), String.ofList sub)

def subresourceParents (entries : List Entry) (name : String) : List GroupVersionResource :=
  entries.filterMap (fun e =>
    match splitSubresource e.gvr.resource with
    | some (parent, sub) => if sub = name then some { e.gvr with resource := parent } else none
    | none => none)

def builtinScalable (group resource : String) : Bool :=
  [("apps", "deployments"), ("apps", "statefulsets"), ("apps", "replicasets"),
    ("", "replicationcontrollers")].contains (group, resource)

def legacyBuiltinGroup (group : String) : Bool :=
  ["apps", "batch", "autoscaling", "policy", "extensions"].contains group

def classifyOrigin (group : String) : OriginKind :=
  if group = "" ∨ ".k8s.io".toList.isSuffixOf group.toList ∨ legacyBuiltinGroup group then .builtin
  else .crd

def observationFromEntry (entries : List Entry) (e : Entry) : Observation where
  identity := ⟨e.gvk, e.gvr, if e.namespaced then .namespaced else .cluster⟩
  origin := classifyOrigin e.gvr.group
  preferred := e.preferred
  verbs := e.verbs
  scaleEnabled := (subresourceParents entries "scale").contains e.gvr
  scaleUsable := (subresourceParents entries "scale").contains e.gvr &&
    builtinScalable e.gvr.group e.gvr.resource
  served := true
  subresourceOnly := false
  trusted := !e.degraded
  catalogReady := true
  absenceExpired := false
  gvkUnique := decide ((distinctGVRsByGVK entries e.gvk).length = 1)
  gvrUnique := decide ((distinctGVKsByGVR entries e.gvr).length = 1)
  denied := !e.allowed

def observationsFromEntries (entries : List Entry) : List Observation :=
  ((entries.filter (fun e => !e.subresource)).map (observationFromEntry entries)).insertionSort
    (fun a b => a.identity.gvr.toString ≤ b.identity.gvr.toString)

end GitopsReverser.Typeset
