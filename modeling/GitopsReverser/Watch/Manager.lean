import GitopsReverser.Reasoning.Separated
import GitopsReverser.Watch.WatchedTypes

/-!
# Manager — rules, clusters and the running watch sets

The watch manager keeps one watched-type table per GitTarget with rules, re-projected when a
fingerprint of its inputs moves, and one running watch set per declared GitTarget.
-/

namespace GitopsReverser.Watch

open Reasoning Typeset

/-- The hash of fingerprints and the quoting of `%q`. -/
structure ManagerConfig (X : Type) where
  sum64 : String → X
  quote : String → String

structure Fingerprints (X : Type) where
  registries : X
  rules : X
  clusters : X
  deriving DecidableEq

/-- What runs for a GitTarget: its specs, and the filter each stream was started with. -/
structure TargetWatchSet where
  specs : WatchSpecs
  streams : List (TargetWatchKey × OperationSet)
  spec_ne : ∀ key spec, specs.lookup key = some spec → spec ≠ ""
  started : ∀ key ∈ specs, ∃ ops, (key, ops) ∈ streams
  filter_spec : ∀ s ∈ streams, specs.lookup s.1 = some (operationSpec s.2)

/-- `resolved` has the fingerprints of the last projection. The rules it projected and the texts
    behind the fingerprints are kept as well, which the source does not do. -/
structure Manager (X : Type) where
  rules : Dict ResourceReference CompiledRule
  clusterRules : Dict String CompiledClusterRule
  gitTargetClusters : Dict String String
  clusters : String → ClusterContext
  tables : Dict String WatchedTypeTable
  resolved : Option (Fingerprints X)
  resolvedRules : List CompiledRule
  resolvedClusterRules : List CompiledClusterRule
  resolvedTexts : Option (Fingerprints String)
  targetWatches : Dict String TargetWatchSet

variable {X : Type} (cfg : ManagerConfig X)

def Manager.snapshotWatchRules (m : Manager X) : List CompiledRule := m.rules.entries.map (·.2)

def Manager.snapshotClusterWatchRules (m : Manager X) : List CompiledClusterRule :=
  m.clusterRules.entries.map (·.2)

/-! ## 1. Clusters -/

def configPlaneClusterID : String := ""

def clusterIDForGitTarget (m : Manager X) (key : String) : String :=
  (m.gitTargetClusters.lookup key).getD configPlaneClusterID

def activeClusterIDs (m : Manager X) : List String :=
  (configPlaneClusterID :: m.gitTargetClusters.entries.map (·.2)).dedup.insertionSort (· ≤ ·)

def isLocal (id : String) (cc : ClusterContext) : Bool :=
  decide (id = configPlaneClusterID) || cc.inCluster

def setCluster (id : String) (cc : ClusterContext) (m : Manager X) : Manager X :=
  { m with clusters := Function.update m.clusters id cc }

/-- What a source cluster answers when it is refreshed. -/
structure ClusterAnswer where
  /-- Its credentials changed or are gone, so that its watches are cancelled. -/
  invalidated : Bool
  inCluster : Bool
  scan : Except String Scan

def invalidateClusterWatches (id : String) (m : Manager X) : Manager X :=
  { m with targetWatches :=
      keepKeys (fun key => decide (m.gitTargetClusters.lookup key ≠ some id)) m.targetWatches }

def refreshClusterCredentials (id : String) (a : ClusterAnswer) (m : Manager X) : Manager X :=
  let m₁ := if a.invalidated then invalidateClusterWatches id m else m
  setCluster id { m₁.clusters id with inCluster := a.inCluster } m₁

def refreshCluster (now : Int) (id : String) (a : ClusterAnswer) (m : Manager X) :
    Manager X × Option String :=
  let m₁ := if isLocal id (m.clusters id) then m else refreshClusterCredentials id a m
  let (cc, err) := refreshClusterCatalog now a.scan (m₁.clusters id)
  (setCluster id cc m₁, err)

def refreshClusters (now : Int) (answers : String → ClusterAnswer) :
    List String → Manager X × Option String → Manager X × Option String
  | [], result => result
  | id :: ids, (m, _) => refreshClusters now answers ids (refreshCluster now id (answers id) m)

def localClusterIDs (m : Manager X) : List String :=
  (activeClusterIDs m).filter (fun id => isLocal id (m.clusters id))

def remoteClusterIDs (m : Manager X) : List String :=
  (activeClusterIDs m).filter (fun id => !isLocal id (m.clusters id))

/-- Only the error of a local cluster counts. -/
def refreshAPIResourceCatalog (now : Int) (answers : String → ClusterAnswer) (m : Manager X) :
    Manager X × Option String :=
  let (m₁, localErr) := refreshClusters now answers (localClusterIDs m) (m, none)
  ((refreshClusters now answers (remoteClusterIDs m) (m₁, none)).1, localErr)

def refreshClusterForDeclare (now : Int) (id : String) (a : ClusterAnswer) (m : Manager X) :
    Manager X × Option String :=
  let (m₁, err) := refreshCluster now id a m
  (m₁, if isLocal id (m₁.clusters id) then err else none)

/-! ## 2. Fingerprints -/

def activeRegistriesText (m : Manager X) : String :=
  separated '\x00' ((activeClusterIDs m).map (fun id =>
    id ++ "=" ++ toString (m.clusters id).registry.revision))

def clusterMappingText (m : Manager X) : String :=
  separated '\x00' ((m.gitTargetClusters.entries.map (fun e => e.1 ++ "\x1f" ++ e.2)).insertionSort
    (· ≤ ·))

def watchPlanDest (dest : Destination) : String :=
  "provider=" ++ dest.gitProvider.ns ++ "/" ++ dest.gitProvider.name ++ "|branch=" ++
    cfg.quote dest.branch ++ "|path=" ++ cfg.quote dest.path

def commaJoin (values : List String) : String := String.intercalate "," values

def itemText (rr : CompiledClusterResourceRule) : String :=
  "|rr[g=" ++ commaJoin rr.apiGroups ++ ";v=" ++ commaJoin rr.apiVersions ++ ";r=" ++
    commaJoin rr.resources ++ ";op=" ++ commaJoin (rr.operations.map Operation.toString)

def watchRuleFingerprint (rule : CompiledRule) : String :=
  "wr|gt=" ++ rule.gitTarget.key ++ "|dest=" ++ watchPlanDest cfg rule.dest ++
    String.join (rule.resourceRules.map (fun rr => itemText rr.toCompiledClusterResourceRule ++
      ";src=" ++ commaJoin rr.sourceNamespaces ++ "]"))

def clusterWatchRuleFingerprint (rule : CompiledClusterRule) : String :=
  "cwr|gt=" ++ rule.gitTarget.key ++ "|dest=" ++ watchPlanDest cfg rule.dest ++
    String.join (rule.rules.map (fun rr => itemText rr ++ "]"))

def ruleParts (m : Manager X) : List String :=
  m.snapshotWatchRules.map (watchRuleFingerprint cfg) ++
    m.snapshotClusterWatchRules.map (clusterWatchRuleFingerprint cfg)

def rulesText (m : Manager X) : String :=
  separated '\x00' ((ruleParts cfg m).insertionSort (· ≤ ·))

def fingerprintTexts (m : Manager X) : Fingerprints String :=
  ⟨activeRegistriesText m, rulesText cfg m, clusterMappingText m⟩

def fingerprints (m : Manager X) : Fingerprints X :=
  ⟨cfg.sum64 (activeRegistriesText m), cfg.sum64 (rulesText cfg m), cfg.sum64 (clusterMappingText m)⟩

/-! ## 3. Watched-type tables -/

structure TargetSelections where
  gitDest : ResourceReference
  selections : List WatchSelection

def collectSelections {ι : Type} (target : ι → ResourceReference)
    (selections : ι → List WatchSelection) (rules : List ι)
    (byTarget : Dict String TargetSelections) : Dict String TargetSelections :=
  accumulate (fun rule => (target rule).key) (fun ts rule => ⟨(ts.map (·.gitDest)).getD (target rule),
      (ts.map (·.selections)).getD [] ++ selections rule⟩) rules byTarget

def recordsFor (m : Manager X) (key : String) : List TypeRecord :=
  (m.clusters (clusterIDForGitTarget m key)).registry.followable

def collectWatchRuleSelections (m : Manager X) (byTarget : Dict String TargetSelections) :
    Dict String TargetSelections :=
  collectSelections (·.gitTarget)
    (fun rule => watchRuleSelections (recordsFor m rule.gitTarget.key) rule)
    m.snapshotWatchRules byTarget

def collectClusterWatchRuleSelections (m : Manager X) (byTarget : Dict String TargetSelections) :
    Dict String TargetSelections :=
  collectSelections (·.gitTarget)
    (fun rule => clusterWatchRuleSelections (recordsFor m rule.gitTarget.key) rule)
    m.snapshotClusterWatchRules byTarget

def resolveWatchedTypeTables (m : Manager X) : Dict String WatchedTypeTable :=
  mapValues (fun ts => buildWatchedTypeTable ts.gitDest ts.selections)
    (collectClusterWatchRuleSelections m (collectWatchRuleSelections m ∅))

/-- Publish what a catalog knows to a registry that has seen nothing. -/
def readyRegistries (now : Int) (m : Manager X) : Manager X :=
  { m with clusters := fun id =>
      if id ∈ activeClusterIDs m ∧ (m.clusters id).registry.ready = false then
        refreshClusterTypeRegistry now (m.clusters id)
      else m.clusters id }

def refreshWatchedTypeTables [DecidableEq X] (now : Int) (m : Manager X) : Manager X :=
  let m₁ := readyRegistries now m
  if m₁.resolved = some (fingerprints cfg m₁) then m₁
  else { m₁ with
    tables := resolveWatchedTypeTables m₁
    resolved := some (fingerprints cfg m₁)
    resolvedRules := m₁.snapshotWatchRules
    resolvedClusterRules := m₁.snapshotClusterWatchRules
    resolvedTexts := some (fingerprintTexts cfg m₁) }

def residentWatchedTypeTables (m : Manager X) : List WatchedTypeTable :=
  (m.tables.entries.map (·.2)).insertionSort (fun a b => a.gitDest.key ≤ b.gitDest.key)

/-- A target without a table reads the zero table, whose own target is the empty reference. -/
def residentWatchedTypeTable (m : Manager X) (key : String) : WatchedTypeTable :=
  (m.tables.lookup key).getD ⟨⟨"", ""⟩, [], List.nodup_nil⟩

/-! ## 4. Watch sets -/

def startWatches (table : WatchedTypeTable) : TargetWatchSet where
  specs := targetWatchSpecs table
  streams := (sortedTargetWatchSpecKeys (targetWatchSpecs table)).map (fun key =>
    (key, operationsFor key table.types))
  spec_ne := targetWatchSpecs_ne_empty table
  started := by
    intro key hkey
    exact ⟨_, List.mem_map.mpr ⟨key, (List.mem_insertionSort _).mpr (AList.mem_keys.mp hkey), rfl⟩⟩
  filter_spec := by
    intro s hs
    obtain ⟨key, hkey, rfl⟩ := List.mem_map.mp hs
    exact operationsFor_spec table key (AList.mem_keys.mpr ((List.mem_insertionSort _).mp hkey))

/-- `prepareTargetWatchSetReplacementLocked`: the running set is the wanted one. -/
def alreadyRuns (prior : Option TargetWatchSet) (specs : WatchSpecs) (force : Bool) : Bool :=
  prior.any (fun set => !force && equalTargetWatchSpecs set.specs specs)

/-- Start the table's streams, unless they already run. -/
def replaceGitTargetWatches (force : Bool) (m : Manager X) (table : WatchedTypeTable) : Manager X :=
  let key := table.gitDest.key
  if alreadyRuns (m.targetWatches.lookup key) (targetWatchSpecs table) force then m
  else { m with targetWatches := m.targetWatches.insert key (startWatches table) }

def refreshRunningTargetWatches (m : Manager X) : Manager X :=
  ((residentWatchedTypeTables m).filter
    (fun table => (m.targetWatches.lookup table.gitDest.key).isSome)).foldl (replaceGitTargetWatches false) m

def typeWobbling (reg : Registry) (gvr : GroupVersionResource) : Bool :=
  (reg.byGVR gvr).any (fun rec => decide (rec.verdict = .retained))

def retainedWatchedTypes (reg : Registry) (table : WatchedTypeTable) : List GroupVersionKind :=
  (table.types.filter (fun wt => typeWobbling reg wt.gvr)).map (·.gvk)

def GroupVersionKind.text (gvk : GroupVersionKind) : String :=
  gvk.group ++ "/" ++ gvk.version ++ ", Kind=" ++ gvk.kind

def gvkListSummary (gvks : List GroupVersionKind) : String :=
  match (gvks.map GroupVersionKind.text).insertionSort (· ≤ ·) with
  | [part] => "watched type " ++ part
  | parts => toString parts.length ++ " watched types [" ++ String.intercalate ", " parts ++ "]"

def ensureGitTargetWatches [DecidableEq X] (now : Int) (t : ResourceReference) (a : ClusterAnswer)
    (force : Bool) (m : Manager X) : Manager X × Option String :=
  match refreshClusterForDeclare now (clusterIDForGitTarget m t.key) a m with
  | (m₁, some e) => (m₁, some ("refresh API resource catalog for " ++ t.key ++ ": " ++ e))
  | (m₁, none) =>
    let m₂ := refreshWatchedTypeTables cfg now m₁
    let reg := (m₂.clusters (clusterIDForGitTarget m₂ t.key)).registry
    if reg.ready = false then
      (m₂, some ("aborting watch setup for " ++ t.key ++
        ": the cluster API surface has not been observed yet"))
    else
      let table := residentWatchedTypeTable m₂ t.key
      if retainedWatchedTypes reg table ≠ [] then
        (m₂, some ("aborting watch setup for " ++ t.key ++ ": " ++
          gvkListSummary (retainedWatchedTypes reg table) ++
          " within the removal grace (currently unserved)"))
      else (replaceGitTargetWatches force m₂ table, none)

def rememberGitTargetCluster (t : ResourceReference) (id : String) (m : Manager X) : Manager X :=
  { m with gitTargetClusters := m.gitTargetClusters.insert t.key id }

def reconcileForRuleChange [DecidableEq X] (now : Int) (answers : String → ClusterAnswer)
    (m : Manager X) : Manager X × Option String :=
  match refreshAPIResourceCatalog now answers m with
  | (m₁, some e) => (m₁, some e)
  | (m₁, none) => (refreshRunningTargetWatches (refreshWatchedTypeTables cfg now m₁), none)

/-! ## 5. Runs -/

inductive ManagerInput where
  | setRule (source : ResourceReference) (rule : CompiledRule)
  | deleteRule (source : ResourceReference)
  | setClusterRule (source : String) (rule : CompiledClusterRule)
  | deleteClusterRule (source : String)
  | scan (now : Int) (answers : String → ClusterAnswer)
  | republish (now : Int) (id : String)
  | ensure (now : Int) (t : ResourceReference) (a : ClusterAnswer) (force : Bool)
  | declare (now : Int) (t : ResourceReference) (id : String) (a : ClusterAnswer) (force : Bool)
  | reconcile (now : Int) (answers : String → ClusterAnswer)

def managerCall [DecidableEq X] (m : Manager X) : ManagerInput → Manager X × Option String
  | .setRule source rule => ({ m with rules := m.rules.insert source rule }, none)
  | .deleteRule source => ({ m with rules := m.rules.erase source }, none)
  | .setClusterRule source rule => ({ m with clusterRules := m.clusterRules.insert source rule }, none)
  | .deleteClusterRule source => ({ m with clusterRules := m.clusterRules.erase source }, none)
  | .scan now answers => refreshAPIResourceCatalog now answers m
  | .republish now id => (setCluster id (refreshClusterTypeRegistry now (m.clusters id)) m, none)
  | .ensure now t a force => ensureGitTargetWatches cfg now t a force m
  | .declare now t id a force =>
    ensureGitTargetWatches cfg now t a force (rememberGitTargetCluster t id m)
  | .reconcile now answers => reconcileForRuleChange cfg now answers m

def managerStep [DecidableEq X] (m : Manager X) (input : ManagerInput) : Manager X :=
  (managerCall cfg m input).1

def initialManager : Manager X :=
  ⟨∅, ∅, ∅, fun _ => newClusterContext, ∅, none, [], [], none, ∅⟩

end GitopsReverser.Watch
