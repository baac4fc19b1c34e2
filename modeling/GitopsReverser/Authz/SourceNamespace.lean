import GitopsReverser.Reasoning.Accumulate
import GitopsReverser.Watch.Event

/-!
# SourceNamespace — which source namespaces a WatchRule's items may watch

A GitTarget bounds the namespaces mirrored into it by exact names and by a label selector over
the Namespaces of its source cluster; a ClusterProvider decides whether a rule may look beyond
its own namespace at all. Reads of the control cluster are answers of a reader, one view of it
for each evaluation.
-/

namespace GitopsReverser.Authz

open Reasoning

/-! ## 1. Namespace matchers -/

abbrev Labels := Dict String String

structure LabelSelectorRequirement where
  key : String
  operator : String
  values : List String
  deriving DecidableEq, Repr

structure LabelSelector where
  matchLabels : List (String × String)
  matchExpressions : List LabelSelectorRequirement
  deriving DecidableEq, Repr

/-- What the apimachinery packages and `%q` answer: the conversion of a selector, and what is
    wrong with a DNS-1123 label. -/
structure ApiMachinery where
  labelSelectorAsSelector : LabelSelector → Except String (Labels → Bool)
  isDNS1123Label : String → List String
  quote : String → String

structure NamespaceMatcher where
  names : List String
  selector : Option LabelSelector
  deriving DecidableEq, Repr

variable (api : ApiMachinery)

def matchesName (m : Option NamespaceMatcher) (ns : String) : Bool :=
  match m with
  | none => false
  | some m => m.names.contains ns

def NamespaceMatcher.validateNames (m : NamespaceMatcher) : Option String :=
  (m.names.find? (fun n => api.isDNS1123Label n ≠ [])).map (fun n =>
    "names[" ++ api.quote n ++ "] is not a namespace name: " ++
      String.intercalate "; " (api.isDNS1123Label n))

def NamespaceMatcher.hasSelector (m : NamespaceMatcher) : Bool := m.selector.isSome

def NamespaceMatcher.selectorAdmits (m : NamespaceMatcher) (labels : Labels) : Except String Bool :=
  match m.selector with
  | none => .ok false
  | some selector => (api.labelSelectorAsSelector selector).map (fun sel => sel labels)

/-- `Matches`: the names are asked before the selector. -/
def matchesNamespace (m : Option NamespaceMatcher) (ns : String) (labels : Labels) :
    Except String Bool :=
  match m with
  | none => .ok false
  | some m => if matchesName (some m) ns then .ok true else m.selectorAdmits api labels

/-! ## 2. The objects of the control cluster -/

def defaultClusterProviderName : String := "default"

structure GitTarget where
  name : String
  ns : String
  clusterProviderRef : Option String
  allowedSourceNamespaces : Option NamespaceMatcher
  branch : String
  path : String
  deriving DecidableEq, Repr

def GitTarget.sourceCluster (t : GitTarget) : String :=
  match t.clusterProviderRef with
  | none => defaultClusterProviderName
  | some name => if name = "" then defaultClusterProviderName else name

def GitTarget.describe (t : GitTarget) : String := t.ns ++ "/" ++ t.name

structure ClusterProvider where
  allowedNamespaces : Option NamespaceMatcher
  allowSourceNamespaceOverride : Bool
  deriving DecidableEq, Repr

structure ResourceRule where
  operations : List Watch.Operation
  apiGroups : List String
  apiVersions : List String
  resources : List String
  sourceNamespace : String
  deriving DecidableEq, Repr

structure WatchRule where
  name : String
  ns : String
  rules : List ResourceRule
  deriving DecidableEq, Repr

def sourceNamespaceWildcard : String := "*"

namespace ResourceRule

def effectiveSourceNamespace (item : ResourceRule) (ruleNamespace : String) : String :=
  if item.sourceNamespace ≠ "" then item.sourceNamespace else ruleNamespace

def isSourceNamespaceWildcard (item : ResourceRule) : Bool :=
  decide (item.sourceNamespace = sourceNamespaceWildcard)

def overridesSourceNamespace (item : ResourceRule) (ruleNamespace : String) : Bool :=
  item.isSourceNamespaceWildcard ||
    decide (item.effectiveSourceNamespace ruleNamespace ≠ ruleNamespace)

def describeSourceNamespace (item : ResourceRule) (ruleNamespace : String) : String :=
  if item.sourceNamespace = "" then
    api.quote ruleNamespace ++ " (omitted; the WatchRule's own namespace)"
  else api.quote item.sourceNamespace

end ResourceRule

/-- One view of the control cluster: an error, nothing found, or the object. -/
structure Reader where
  clusterProvider : String → Except String (Option ClusterProvider)
  namespaceLabels : String → Except String (Option Labels)

/-! ## 3. Admission by the ClusterProvider -/

/-- `Decision`; a denial has a reason and a message. -/
inductive Decision where
  | allowed
  | denied (reason message : String)
  deriving DecidableEq, Repr

def gitTargetAdmitted (reader : Reader) (target : GitTarget) : Except String Decision :=
  let provider := target.sourceCluster
  match reader.clusterProvider provider with
  | .error e => .error ("read ClusterProvider " ++ api.quote provider ++ ": " ++ e)
  | .ok none =>
    .ok (.denied "ClusterProviderNotFound"
      ("referenced ClusterProvider " ++ api.quote provider ++ " was not found; a GitTarget " ++
        "may mirror a source cluster only through an existing ClusterProvider. The " ++
        "operator never creates one: declare it yourself, or let the chart render " ++
        api.quote defaultClusterProviderName ++ " via clusterProvider.createDefault"))
  | .ok (some found) =>
    match reader.namespaceLabels target.ns with
    | .error e => .error ("read namespace " ++ api.quote target.ns ++ ": " ++ e)
    | .ok labels =>
      match matchesNamespace api found.allowedNamespaces target.ns (labels.getD ∅) with
      | .error e =>
        .ok (.denied "NamespaceNotAuthorized"
          ("ClusterProvider " ++ api.quote provider ++ " allowedNamespaces selector is " ++
            "invalid: " ++ e))
      | .ok false =>
        .ok (.denied "NamespaceNotAuthorized"
          ("namespace " ++ api.quote target.ns ++ " is not permitted to reference " ++
            "ClusterProvider " ++
            api.quote provider ++ " (spec.allowedNamespaces)"))
      | .ok true => .ok .allowed

/-! ## 4. Verdicts -/

inductive SourceScopeVerdict where
  | unknown
  | admitted
  | denied
  | unavailable
  deriving DecidableEq, Repr

structure SourceScopeResult where
  verdict : SourceScopeVerdict
  message : String
  deriving DecidableEq, Repr

/-- `SourceNamespaceResolver`: the candidate's answer, and the expansion of the selector. -/
structure SourceNamespaceResolver where
  resolve : GitTarget → String → SourceScopeResult
  enumerate : GitTarget → List String × SourceScopeResult

structure SourceNamespaceDecision where
  index : Nat
  requested : String
  namespaces : List String
  verdict : SourceScopeVerdict
  reason : String
  message : String
  deriving DecidableEq, Repr

structure ResolvedSourceScope where
  items : List SourceNamespaceDecision
  verdict : SourceScopeVerdict
  reason : String
  message : String
  deriving DecidableEq, Repr

def reasonLegacySourceNamespace : String := "LegacySourceNamespace"
def reasonSourceNamespaceAllowed : String := "SourceNamespaceAllowed"
def reasonNoAdmittedSourceNamespaces : String := "NoAdmittedSourceNamespaces"
def reasonSourceNamespaceNotAllowed : String := "SourceNamespaceNotAllowed"
def reasonSourceNamespacePolicyUnavailable : String := "SourceNamespacePolicyUnavailable"
def reasonCheckingSourceNamespacePolicy : String := "CheckingSourceNamespacePolicy"

def resolveWith (resolver : Option SourceNamespaceResolver) (target : GitTarget) (ns : String) :
    SourceScopeResult :=
  if matchesName target.allowedSourceNamespaces ns then
    ⟨.admitted, "admitted by an exact name entry"⟩
  else
    match target.allowedSourceNamespaces.bind (·.selector), resolver with
    | none, _ => ⟨.denied, "the policy lists no matching name and declares no selector"⟩
    | some _, none => ⟨.unknown, "no source-scope service is wired yet to evaluate the selector"⟩
    | some _, some resolver => resolver.resolve target ns

def enumerateWith (resolver : Option SourceNamespaceResolver) (target : GitTarget) :
    List String × SourceScopeResult :=
  match resolver with
  | none => ([], ⟨.unknown, "no source-scope service is wired yet to enumerate the selector"⟩)
  | some resolver => resolver.enumerate target

def sortedUnique (names : List String) : List String := names.dedup.insertionSort (· ≤ ·)

/-! ## 5. The gate of one item -/

/-- `itemGate`, with what does not change from item to item. -/
structure ItemGate where
  reader : Reader
  rule : WatchRule
  target : GitTarget
  resolver : Option SourceNamespaceResolver

namespace ItemGate

variable (g : ItemGate)

def describeItem (index : Nat) (item : ResourceRule) : String :=
  "spec.rules[" ++ toString index ++ "] (resources " ++ String.intercalate "," item.resources ++
    ", sourceNamespace " ++ item.describeSourceNamespace api g.rule.ns ++ ")"

def evaluateDelegation : Except String (Option String) :=
  let provider := g.target.sourceCluster
  match g.reader.clusterProvider provider with
  | .error e => .error ("read ClusterProvider " ++ api.quote provider ++ ": " ++ e)
  | .ok none =>
    .ok (some ("referenced ClusterProvider " ++ api.quote provider ++ " was not found, so " ++
      "it delegates nothing; a WatchRule may watch a namespace other than its own only " ++
      "through an existing provider that sets spec.allowSourceNamespaceOverride"))
  | .ok (some found) =>
    match gitTargetAdmitted api g.reader g.target with
    | .error e => .error e
    | .ok (.denied _ message) =>
      .ok (some ("GitTarget " ++ g.target.describe ++ " may not mirror through " ++
        "ClusterProvider " ++
        api.quote provider ++ " at all: " ++ message))
    | .ok .allowed =>
      if found.allowSourceNamespaceOverride then .ok none
      else
        .ok (some ("ClusterProvider " ++ api.quote provider ++ " does not set " ++
          "spec.allowSourceNamespaceOverride; a WatchRule may watch only its own namespace " ++
          api.quote g.rule.ns ++ " until a platform admin delegates that choice"))

def deniedMessage (item : ResourceRule) (candidate detail : String) : String :=
  if !item.overridesSourceNamespace g.rule.ns then
    "namespace " ++ candidate ++ " is not in the GitTarget's allowedSourceNamespaces; add it " ++
      "to keep watching this rule's own namespace (GitTarget " ++
      g.target.describe ++ " declares a policy, and a declared policy is exhaustive — there " ++
        "is no self-namespace exception)"
  else
    "source namespace " ++ api.quote candidate ++ " is not admitted by GitTarget " ++
      g.target.describe ++
      " spec.allowedSourceNamespaces; add it to that policy" ++
      (if detail ≠ "" then ": " ++ detail else "")

def evaluateCandidate (index : Nat) (item : ResourceRule) : SourceNamespaceDecision :=
  let candidate := item.effectiveSourceNamespace g.rule.ns
  let result := resolveWith g.resolver g.target candidate
  let label := g.describeItem api index item
  match result.verdict with
  | .admitted =>
    ⟨index, item.sourceNamespace, [candidate], .admitted, reasonSourceNamespaceAllowed,
      label ++ ": source namespace " ++ api.quote candidate ++ " is admitted by GitTarget " ++
        g.target.describe ++ " spec.allowedSourceNamespaces"⟩
  | .denied =>
    ⟨index, item.sourceNamespace, [], .denied, reasonSourceNamespaceNotAllowed,
      label ++ ": " ++ g.deniedMessage api item candidate result.message⟩
  | .unavailable =>
    ⟨index, item.sourceNamespace, [], .unavailable, reasonSourceNamespacePolicyUnavailable,
      label ++ ": GitTarget " ++ g.target.describe ++ " spec.allowedSourceNamespaces " ++
        "cannot be evaluated for " ++
        api.quote candidate ++ ": " ++ result.message⟩
  | .unknown =>
    ⟨index, item.sourceNamespace, [], .unknown, reasonCheckingSourceNamespacePolicy,
      label ++ ": still establishing whether source namespace " ++ api.quote candidate ++
        " is admitted by GitTarget " ++ g.target.describe ++ ": " ++ result.message⟩

def expandedTo (index : Nat) (item : ResourceRule) (admitted : List String) :
    SourceNamespaceDecision :=
  let label := g.describeItem api index item
  let namespaces := sortedUnique admitted
  if namespaces = [] then
    ⟨index, item.sourceNamespace, namespaces, .admitted, reasonNoAdmittedSourceNamespaces,
      label ++ ": GitTarget " ++ g.target.describe ++ " spec.allowedSourceNamespaces " ++
        "currently admits no source namespace, so this item watches nothing"⟩
  else
    ⟨index, item.sourceNamespace, namespaces, .admitted, reasonSourceNamespaceAllowed,
      label ++ ": expands to the " ++ toString namespaces.length ++ " source namespace(s) " ++
        "GitTarget " ++
        g.target.describe ++ " admits (" ++ String.intercalate ", " namespaces ++ ")"⟩

def expandWildcard (index : Nat) (item : ResourceRule) (policy : NamespaceMatcher) :
    SourceNamespaceDecision :=
  let label := g.describeItem api index item
  if policy.hasSelector then
    let (selected, result) := enumerateWith g.resolver g.target
    match result.verdict with
    | .admitted => g.expandedTo api index item (policy.names ++ selected)
    | .unavailable =>
      ⟨index, item.sourceNamespace, [], .unavailable, reasonSourceNamespacePolicyUnavailable,
        label ++ ": GitTarget " ++ g.target.describe ++ " spec.allowedSourceNamespaces " ++
          "cannot be enumerated for " ++
          api.quote sourceNamespaceWildcard ++ ": " ++ result.message⟩
    | .denied | .unknown =>
      ⟨index, item.sourceNamespace, [], .unknown, reasonCheckingSourceNamespacePolicy,
        label ++ ": still enumerating which source namespaces GitTarget " ++ g.target.describe ++
          " admits: " ++ result.message⟩
  else g.expandedTo api index item policy.names

/-- Steps 3 and 4 of `decide`, once the provider's side permits: a declared policy is exhaustive. -/
def decideByPolicy (index : Nat) (item : ResourceRule) : SourceNamespaceDecision :=
  match g.target.allowedSourceNamespaces with
  | none =>
    ⟨index, item.sourceNamespace, [], .denied, reasonSourceNamespaceNotAllowed,
      g.describeItem api index item ++ ": GitTarget " ++ g.target.describe ++ " declares " ++
        "no spec.allowedSourceNamespaces, so no source namespace other than this " ++
        "WatchRule's own may be mirrored into it; declare that policy and add " ++
        item.describeSourceNamespace api g.rule.ns ++ " to it"⟩
  | some policy =>
    match policy.validateNames api with
    | some e =>
      ⟨index, item.sourceNamespace, [], .unavailable, reasonSourceNamespacePolicyUnavailable,
        g.describeItem api index item ++ ": GitTarget " ++ g.target.describe ++
          " spec.allowedSourceNamespaces cannot be evaluated: " ++
          e ++ "; a policy admits namespaces by NAME or by selector, never by pattern — " ++
            "use `selector: \x7b\x7d` to admit every source namespace"⟩
    | none =>
      if item.isSourceNamespaceWildcard then g.expandWildcard api index item policy
      else g.evaluateCandidate api index item

def decide (index : Nat) (item : ResourceRule) : Except String SourceNamespaceDecision :=
  if !item.overridesSourceNamespace g.rule.ns then
    if g.target.allowedSourceNamespaces.isNone then
      let own := item.effectiveSourceNamespace g.rule.ns
      .ok ⟨index, item.sourceNamespace, [own], .admitted, reasonLegacySourceNamespace,
        g.describeItem api index item ++ " watches this WatchRule's own namespace " ++ api.quote own ++
          "; the GitTarget declares no allowedSourceNamespaces policy, so no authorization " ++
            "is required"⟩
    else .ok (g.decideByPolicy api index item)
  else
    match g.evaluateDelegation api with
    | .error e => .error e
    | .ok (some refusal) =>
      .ok ⟨index, item.sourceNamespace, [], .denied, reasonSourceNamespaceNotAllowed,
        g.describeItem api index item ++ ": " ++ refusal⟩
    | .ok none => .ok (g.decideByPolicy api index item)

end ItemGate

/-! ## 6. The verdict of a rule -/

def firstWithVerdict (items : List SourceNamespaceDecision) (verdict : SourceScopeVerdict) :
    Option SourceNamespaceDecision := items.find? (fun d => d.verdict = verdict)

def summariseAdmitted (items : List SourceNamespaceDecision) : String :=
  "all " ++ toString items.length ++ " rule item(s) are authorized; watching source " ++
    "namespace(s) " ++
    String.intercalate ", " (sortedUnique (items.flatMap (·.namespaces)))

def admittedAggregate (items : List SourceNamespaceDecision) : String × String :=
  if items.flatMap (·.namespaces) = [] then
    (reasonNoAdmittedSourceNamespaces,
      "every rule item is authorized, but the resolved source-namespace scope is empty, so " ++
        "this WatchRule currently mirrors nothing")
  else if items.all (fun d => d.reason = reasonLegacySourceNamespace) then
    (reasonLegacySourceNamespace, (items.head?.map (·.message)).getD "")
  else (reasonSourceNamespaceAllowed, summariseAdmitted items)

/-- Denied before unavailable before unknown before admitted. -/
def aggregateSourceScope (items : List SourceNamespaceDecision) : ResolvedSourceScope :=
  if items = [] then ⟨items, .admitted, reasonLegacySourceNamespace, "no rule items to authorize"⟩
  else
    match [SourceScopeVerdict.denied, .unavailable, .unknown].findSome? (firstWithVerdict items) with
    | some worst => ⟨items, worst.verdict, worst.reason, worst.message⟩
    | none => ⟨items, .admitted, (admittedAggregate items).1, (admittedAggregate items).2⟩

def ItemGate.decideAll (g : ItemGate) (index : Nat) :
    List ResourceRule → Except String (List SourceNamespaceDecision)
  | [] => .ok []
  | item :: items =>
    match g.decide api index item with
    | .error e => .error e
    | .ok decision => (g.decideAll (index + 1) items).map (decision :: ·)

def resolveWatchRuleSourceScope (reader : Reader) (rule : WatchRule) (target : GitTarget)
    (resolver : Option SourceNamespaceResolver) : Except String ResolvedSourceScope :=
  (ItemGate.decideAll api ⟨reader, rule, target, resolver⟩ 0 rule.rules).map aggregateSourceScope

/-! ## 7. The source-scope service -/

/-- A list that succeeded is never a forbidden one. -/
structure NamespaceSnapshot where
  labels : Dict String Labels
  synced : Bool
  forbidden : Bool
  err : Option String
  usable : synced = true → forbidden = false

inductive NamespaceListing where
  | listed (labels : Dict String Labels)
  | forbidden (err : String)
  | failed (err : String)

/-- What was seen last stays usable across a retryable error. -/
def listSourceNamespaces (previous : Option NamespaceSnapshot) : NamespaceListing → NamespaceSnapshot
  | .listed labels => ⟨labels, true, false, none, fun _ => rfl⟩
  | .forbidden err => ⟨∅, false, true, some err, fun h => nomatch h⟩
  | .failed err =>
    match previous with
    | none => ⟨∅, false, false, some err, fun _ => rfl⟩
    | some previous => ⟨previous.labels, previous.synced, false, some err, fun _ => rfl⟩

abbrev Snapshots := Dict String NamespaceSnapshot

def unusableSnapshot (cluster : String) (snapshot : Option NamespaceSnapshot) :
    Option SourceScopeResult :=
  match snapshot with
  | none => some ⟨.unknown, "the source-cluster Namespace cache has not synced yet"⟩
  | some snapshot =>
    if snapshot.forbidden then
      some ⟨.unavailable, "listing Namespaces in source cluster " ++ api.quote cluster ++
        " is forbidden for its credential, so a selector policy cannot be evaluated; grant " ++
        "that identity namespaces get/list/watch, or use exact names in allowedSourceNamespaces"⟩
    else if snapshot.synced then none
    else
      match snapshot.err with
      | none => some ⟨.unknown, "the source-cluster Namespace cache has not synced yet"⟩
      | some e =>
        some ⟨.unknown, "the source-cluster Namespace cache is not usable yet: " ++ e⟩

def invalidSelectorMessage (e : String) : String :=
  "spec.allowedSourceNamespaces selector is invalid: " ++ e

/-- A namespace the snapshot does not have is given no labels. -/
def resolveSourceNamespace (snapshots : Snapshots) (target : GitTarget) (ns : String) :
    SourceScopeResult :=
  let cluster := target.sourceCluster
  let snapshot := snapshots.lookup cluster
  match unusableSnapshot api cluster snapshot with
  | some result => result
  | none =>
    let known := (snapshot.map (·.labels)).bind (fun labels => labels.lookup ns)
    match matchesNamespace api target.allowedSourceNamespaces ns (known.getD ∅) with
    | .error e => ⟨.unavailable, invalidSelectorMessage e⟩
    | .ok false =>
      ⟨.denied,
        if known.isSome then
          "namespace " ++ api.quote ns ++ " does not match the policy's selector"
        else "namespace " ++ api.quote ns ++ " does not exist in source cluster " ++ api.quote cluster⟩
    | .ok true => ⟨.admitted, "admitted by the policy's selector"⟩

def admittedNames (policy : NamespaceMatcher) :
    List ((_ : String) × Labels) → Except String (List String)
  | [] => .ok []
  | entry :: entries =>
    match policy.selectorAdmits api entry.2 with
    | .error e => .error e
    | .ok admits =>
      (admittedNames policy entries).map (fun names => if admits then entry.1 :: names else names)

def enumerateSourceNamespaces (snapshots : Snapshots) (target : GitTarget) :
    List String × SourceScopeResult :=
  let cluster := target.sourceCluster
  match unusableSnapshot api cluster (snapshots.lookup cluster) with
  | some result => ([], result)
  | none =>
    match target.allowedSourceNamespaces, snapshots.lookup cluster with
    | some policy, some snapshot =>
      match admittedNames api policy snapshot.labels.entries with
      | .error e => ([], ⟨.unavailable, invalidSelectorMessage e⟩)
      | .ok names =>
        (names.insertionSort (· ≤ ·), ⟨.admitted, "the policy's selector matches " ++
          toString names.length ++ " source namespace(s)"⟩)
    | _, _ => ([], ⟨.admitted, "the policy's selector matches 0 source namespace(s)"⟩)

def sourceScope (snapshots : Snapshots) : SourceNamespaceResolver :=
  ⟨resolveSourceNamespace api snapshots, enumerateSourceNamespaces api snapshots⟩

end GitopsReverser.Authz
