import GitopsReverser.Authz.WildcardAgreement
import GitopsReverser.Reasoning.Lists
import GitopsReverser.Reasoning.Runs
import GitopsReverser.Watch.WatchedTypes

/-!
# WatchRuleCompile — the one path from a WatchRule to a compiled rule

A call resolves the source-namespace scope of the whole rule and compiles it only when every item
is admitted. A refusal takes the compiled rule away; a policy that cannot be evaluated yet leaves
it, and so does one that cannot be evaluated at all while a grant is retained.
-/

namespace GitopsReverser.Watch

open Reasoning Authz

/-! ## 1. Grants -/

/-- `sourceScopeGrant`: the scope last granted, with the hash of the spec that asked for it. -/
structure SourceScopeGrant where
  specHash : String
  namespaces : List (List String)

/-- The rule's own namespace, and what each item asks for, in order. -/
def sourceScopeSpecHash (rule : WatchRule) : String :=
  String.intercalate "\x00" (("own=" ++ rule.ns) ::
    rule.rules.zipIdx.map (fun p => toString p.2 ++ "=" ++ p.1.sourceNamespace))

/-! ## 2. Compiling -/

/-- A compiled rule, with the items it was compiled from for the proofs. -/
structure BuiltRule where
  compiled : CompiledRule
  items : List ResourceRule

/-- The rule store and the retained grants, by the rule's name. -/
structure CompileState where
  rules : Dict ResourceReference BuiltRule
  grants : Dict ResourceReference SourceScopeGrant

/-- What one call is given: a view of the control cluster, the Namespace snapshots (none when no
    service is wired), the rule, its resolved target and the target's Git provider. -/
structure CompileCall where
  reader : Reader
  snapshots : Option Snapshots
  rule : WatchRule
  target : GitTarget
  provider : ResourceReference

variable (api : ApiMachinery)

namespace CompileCall

def key (c : CompileCall) : ResourceReference := ⟨c.rule.name, c.rule.ns⟩

def targetRef (c : CompileCall) : ResourceReference := ⟨c.target.name, c.target.ns⟩

def gate (c : CompileCall) : ItemGate :=
  ⟨c.reader, c.rule, c.target, c.snapshots.map (sourceScope api)⟩

def resolved (c : CompileCall) : Except String ResolvedSourceScope :=
  resolveWatchRuleSourceScope api c.reader c.rule c.target (c.snapshots.map (sourceScope api))

end CompileCall

def compiledItem (item : ResourceRule) (namespaces : List String) : CompiledResourceRule where
  operations := item.operations
  apiGroups := item.apiGroups
  apiVersions := item.apiVersions
  resources := item.resources
  sourceNamespaces := namespaces

def CompileCall.compiled (c : CompileCall) (namespaces : List (List String)) : CompiledRule where
  gitTarget := c.targetRef
  dest := ⟨c.provider, c.target.branch, c.target.path⟩
  resourceRules := c.rule.rules.zipIdx.map (fun p => compiledItem p.1 ((namespaces[p.2]?).getD []))

/-- `RetainedSourceScope`: a grant of another spec is not reported. -/
def CompileState.retainsScope (st : CompileState) (c : CompileCall) : Bool :=
  c.snapshots.isSome &&
    match st.grants.lookup c.key with
    | none => false
    | some grant => decide (grant.specHash = sourceScopeSpecHash c.rule)

def CompileState.grant (st : CompileState) (c : CompileCall) (namespaces : List (List String)) :
    CompileState where
  rules := st.rules.insert c.key ⟨c.compiled namespaces, c.rule.rules⟩
  grants :=
    if c.snapshots.isSome then st.grants.insert c.key ⟨sourceScopeSpecHash c.rule, namespaces⟩
    else st.grants

def CompileState.refuse (st : CompileState) (c : CompileCall) : CompileState where
  rules := st.rules.erase c.key
  grants := if c.snapshots.isSome then st.grants.erase c.key else st.grants

def compileWatchRule (st : CompileState) (c : CompileCall) :
    CompileState × Except String ResolvedSourceScope :=
  match c.resolved api with
  | .error e => (st, .error e)
  | .ok resolved =>
    match resolved.verdict with
    | .admitted => (st.grant c (resolved.items.map (·.namespaces)), .ok resolved)
    | .unavailable =>
      if st.retainsScope c then (st, .ok { resolved with verdict := .unknown })
      else (st.refuse c, .ok resolved)
    | .denied => (st.refuse c, .ok resolved)
    | .unknown => (st, .ok resolved)

def compileStep (st : CompileState) (c : CompileCall) : CompileState := (compileWatchRule api st c).1

/-! ## 3. What the policy grants -/

namespace CompileCall

def snapshot (c : CompileCall) : Option NamespaceSnapshot :=
  c.snapshots.bind (fun snapshots => snapshots.lookup c.target.sourceCluster)

def Delegated (c : CompileCall) : Prop :=
  ∃ provider, c.reader.clusterProvider c.target.sourceCluster = .ok (some provider) ∧
    gitTargetAdmitted api c.reader c.target = .ok .allowed ∧
    provider.allowSourceNamespaceOverride = true

/-- The policy admits a namespace by name, or by the labels observed in the source cluster. -/
def Admits (c : CompileCall) (policy : NamespaceMatcher) (n : String) : Prop :=
  n ∈ policy.names ∨ policy.selector.isSome = true ∧ ∃ snapshot, c.snapshot = some snapshot ∧
    snapshot.synced = true ∧ policy.selectorAdmits api (snapshot.labelsOf n) = .ok true

/-- The policy admits a namespace by name, or by the labels it exists with. -/
def AdmitsExisting (c : CompileCall) (policy : NamespaceMatcher) (n : String) : Prop :=
  n ∈ policy.names ∨ policy.selector.isSome = true ∧ ∃ snapshot, c.snapshot = some snapshot ∧
    snapshot.synced = true ∧ ∃ labels, snapshot.labels.lookup n = some labels ∧
      policy.selectorAdmits api labels = .ok true

/-- The namespaces of an item are what the target grants it: without a policy the rule's own
    namespace, else the admitted namespace it names, or all that the policy admits. Whatever
    is not the rule's own needs the provider. -/
structure Granted (c : CompileCall) (item : ResourceRule) (namespaces : List String) : Prop where
  delegated : item.overridesSourceNamespace c.rule.ns = true → c.Delegated api
  undeclared : c.target.allowedSourceNamespaces = none →
    namespaces = [c.rule.ns] ∧ item.overridesSourceNamespace c.rule.ns = false
  named : ∀ policy, c.target.allowedSourceNamespaces = some policy →
    item.isSourceNamespaceWildcard = false → namespaces = [item.effectiveSourceNamespace c.rule.ns] ∧
        c.Admits api policy (item.effectiveSourceNamespace c.rule.ns)
  wildcard : ∀ policy, c.target.allowedSourceNamespaces = some policy →
    item.isSourceNamespaceWildcard = true → ∀ n, n ∈ namespaces ↔ c.AdmitsExisting api policy n

end CompileCall

end GitopsReverser.Watch
