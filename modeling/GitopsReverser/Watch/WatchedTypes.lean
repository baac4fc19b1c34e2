import GitopsReverser.Watch.ClusterContext
import GitopsReverser.Watch.Event

/-!
# WatchedTypes — from compiled rules to watch specs

Rules select followable records; the selections of one GitTarget become its watched-type table,
and the table one watch spec per (GVR, namespace).
-/

namespace GitopsReverser.Watch

open Reasoning Typeset

/-! ## 1. Compiled rules -/

structure CompiledClusterResourceRule where
  operations : List Operation
  apiGroups : List String
  apiVersions : List String
  resources : List String
  deriving DecidableEq, Repr

/-- The source namespaces are resolved to concrete names when the rule is compiled. -/
structure CompiledResourceRule extends CompiledClusterResourceRule where
  sourceNamespaces : List String
  deriving DecidableEq, Repr

structure Destination where
  gitProvider : ResourceReference
  branch : String
  path : String
  deriving DecidableEq, Repr

structure CompiledRule where
  gitTarget : ResourceReference
  dest : Destination
  resourceRules : List CompiledResourceRule
  deriving DecidableEq, Repr

structure CompiledClusterRule where
  gitTarget : ResourceReference
  dest : Destination
  rules : List CompiledClusterResourceRule
  deriving DecidableEq, Repr

/-! ## 2. Matching -/

inductive ResourceScope where
  | namespaced
  | cluster
  deriving DecidableEq, Repr

def matchesScope (namespaced : Bool) : ResourceScope → Bool
  | .namespaced => namespaced
  | .cluster => !namespaced

/-- `unicode.IsSpace`. -/
def isSpace (c : Char) : Bool :=
  c.isWhitespace || decide (0x2000 ≤ c.toNat ∧ c.toNat ≤ 0x200A) ||
    [0x0B, 0x0C, 0x85, 0xA0, 0x1680, 0x2028, 0x2029, 0x202F, 0x205F, 0x3000].contains c.toNat

/-- `unicode.ToLower`, as far as it ends at an ASCII letter: the Kelvin sign and the dotted capital
    I do, and the name of a resource has no letter that is not ASCII. -/
def toLower (c : Char) : Char :=
  if c.toNat = 0x212A then 'k' else if c.toNat = 0x130 then 'i' else c.toLower

def normalizeResource (r : String) : String :=
  String.ofList ((((r.toList.dropWhile isSpace).reverse.dropWhile isSpace).reverse).map toLower)

def matchLookupValue (selectors : List String) (value : String) : Bool :=
  selectors.isEmpty || selectors.any (fun s => decide (s = "*") || decide (s = value))

def matchesEntry (groups versions : List String) (resource : String) (scope : ResourceScope)
    (id : Identity) : Bool :=
  matchesScope (decide (id.scope = .namespaced)) scope &&
    (decide (resource = "*") || decide (id.gvr.resource = resource)) &&
    matchLookupValue groups id.gvr.group && matchLookupValue versions id.gvr.version

/-- A named resource without an `apiGroups` filter that several groups serve. -/
def ambiguousAcrossGroups (groups : List String) (resource : String) (matched : List TypeRecord) :
    Bool :=
  groups.isEmpty && decide (resource ≠ "*") &&
    decide ((matched.map (·.identity.gvr.group)).dedup.length > 1)

def preferredRecord (records : List TypeRecord) : Option TypeRecord :=
  let sorted := records.insertionSort (fun a b => a.identity.gvr.version ≤ b.identity.gvr.version)
  (sorted.find? (·.preferred)).or sorted.head?

/-- `groupResourceKey`; the source joins the two by a bar, which neither contains. -/
def groupResource (gvr : GroupVersionResource) : String × String := (gvr.group, gvr.resource)

/-- One version of each resource when none is named. -/
def choosePreferredRecordVersions (records : List TypeRecord) (versions : List String) :
    List TypeRecord :=
  if versions ≠ [] then records
  else (records.map (fun rec => groupResource rec.identity.gvr)).dedup.filterMap (fun gr =>
    preferredRecord (records.filter (fun rec => groupResource rec.identity.gvr = gr)))

def recordsForResourceEntry (records : List TypeRecord) (groups versions : List String)
    (resource : String) (scope : ResourceScope) : List TypeRecord :=
  let matched := records.filter (fun rec => matchesEntry groups versions resource scope rec.identity)
  -- an ambiguous name selects nothing
  if ambiguousAcrossGroups groups resource matched then []
  else choosePreferredRecordVersions matched versions

def firstOfEachGVR : List TypeRecord → List TypeRecord
  | [] => []
  | rec :: rest =>
    rec :: (firstOfEachGVR rest).filter (fun r => r.identity.gvr ≠ rec.identity.gvr)

def matchFollowableRecords (records : List TypeRecord) (rr : CompiledClusterResourceRule)
    (scope : ResourceScope) : List TypeRecord :=
  firstOfEachGVR (rr.resources.flatMap (fun resource =>
    recordsForResourceEntry records rr.apiGroups rr.apiVersions (normalizeResource resource) scope))

/-! ## 3. Tables -/

structure WatchSelection where
  record : TypeRecord
  ns : String
  ops : List Operation

def WatchSelection.key (sel : WatchSelection) : TargetWatchKey := ⟨sel.record.identity.gvr, sel.ns⟩

def watchRuleSelections (records : List TypeRecord) (rule : CompiledRule) : List WatchSelection :=
  rule.resourceRules.flatMap (fun rr =>
    (matchFollowableRecords records rr.toCompiledClusterResourceRule .namespaced).flatMap (fun rec =>
      rr.sourceNamespaces.map (fun ns => ⟨rec, ns, rr.operations⟩)))

def clusterWatchRuleSelections (records : List TypeRecord) (rule : CompiledClusterRule) :
    List WatchSelection :=
  rule.rules.flatMap (fun rr =>
    (matchFollowableRecords records rr .cluster).map (fun rec => ⟨rec, "", rr.operations⟩))

/-- No operations stand for all of them. -/
def OperationSet.add (s : OperationSet) (ops : List Operation) : OperationSet :=
  if ops = [] then insert .all s else s ∪ ops.toFinset

structure WatchedType where
  gvk : GroupVersionKind
  gvr : GroupVersionResource
  namespaceOps : Dict String OperationSet

/-- Every type of a table has its own GVR. -/
structure WatchedTypeTable where
  gitDest : ResourceReference
  types : List WatchedType
  distinct : (types.map (·.gvr)).Nodup

def addSelection (acc : Option WatchedType) (sel : WatchSelection) : WatchedType :=
  let wt := acc.getD ⟨sel.record.identity.gvk, sel.record.identity.gvr, ∅⟩
  let ops := OperationSet.add ((wt.namespaceOps.lookup sel.ns).getD ∅) sel.ops
  { wt with namespaceOps := wt.namespaceOps.insert sel.ns ops }

def typesByGVR (selections : List WatchSelection) : Dict GroupVersionResource WatchedType :=
  accumulate (·.record.identity.gvr) addSelection selections ∅

/-- A type of the table has the resource and the kind of a selected record. -/
theorem typesByGVR_first {sels : List WatchSelection} {gvr : GroupVersionResource} {wt : WatchedType}
    (h : (typesByGVR sels).lookup gvr = some wt) : wt.gvr = gvr ∧
      ∃ sel ∈ sels, sel.record.identity.gvr = gvr ∧ sel.record.identity.gvk = wt.gvk := by
  -- on the selections of one resource: the first one names it
  have hfold : ∀ same : List WatchSelection, same ⊆ sels →
      (∀ sel ∈ same, sel.record.identity.gvr = gvr) → ∀ acc : Option WatchedType,
      (∀ wt, acc = some wt → wt.gvr = gvr ∧
        ∃ sel ∈ sels, sel.record.identity.gvr = gvr ∧ sel.record.identity.gvk = wt.gvk) →
      ∀ wt, same.foldl (fun wt sel => some (addSelection wt sel)) acc = some wt → wt.gvr = gvr ∧
        ∃ sel ∈ sels, sel.record.identity.gvr = gvr ∧ sel.record.identity.gvk = wt.gvk := by
    intro same
    induction same with
    | nil => exact fun _ _ acc hacc wt hwt => hacc wt hwt
    | cons sel same ih =>
      intro hsub hsame acc hacc wt hwt
      obtain ⟨hselect, hsub⟩ := List.cons_subset.mp hsub
      refine ih hsub (fun s hs => hsame s (List.mem_cons_of_mem _ hs)) _ ?_ wt hwt
      intro wt' hwt'
      rw [← Option.some.inj hwt']
      cases acc with
      | none =>
        have hgvr := hsame sel List.mem_cons_self
        exact ⟨hgvr, sel, hselect, hgvr, rfl⟩
      | some prev => exact hacc prev rfl
  rw [typesByGVR, lookup_accumulate, AList.lookup_empty] at h
  exact hfold _ (List.filter_subset_self _)
    (fun sel hselect => by simpa using (List.mem_filter.mp hselect).2) none (by simp) wt h

theorem typesByGVR_gvr {sels : List WatchSelection} {gvr : GroupVersionResource} {wt : WatchedType}
    (h : (typesByGVR sels).lookup gvr = some wt) : wt.gvr = gvr := (typesByGVR_first h).1

def gvkSortKey (gvk : GroupVersionKind) : String :=
  gvk.group ++ "|" ++ gvk.version ++ "|" ++ gvk.kind

def buildWatchedTypeTable (gitDest : ResourceReference) (selections : List WatchSelection) :
    WatchedTypeTable where
  gitDest := gitDest
  types := ((typesByGVR selections).entries.map (·.2)).insertionSort
    (fun a b => gvkSortKey a.gvk ≤ gvkSortKey b.gvk)
  distinct := by
    have hkeys : (typesByGVR selections).entries.map (fun e => e.2.gvr) =
        (typesByGVR selections).entries.map (·.1) :=
      List.map_congr_left (fun e he => typesByGVR_gvr (mem_entries_iff.mp he))
    rw [((List.perm_insertionSort _ _).map _).nodup_iff, List.map_map]
    exact hkeys ▸ (typesByGVR selections).nodupKeys

/-! ## 4. Watch specs -/

def WatchedType.watchScopes (wt : WatchedType) : List String :=
  wt.namespaceOps.keys.insertionSort (· ≤ ·)

def OperationSet.sorted (ops : OperationSet) : List String :=
  if .all ∈ ops then ["*"]
  else ([Operation.create, .delete, .update].filter (· ∈ ops)).map Operation.toString

def operationSpec (ops : OperationSet) : String :=
  if ops = ∅ then "*" else "[" ++ String.intercalate " " ops.sorted ++ "]"

def watchSpecPairs (types : List WatchedType) : List (TargetWatchKey × String) :=
  types.flatMap (fun wt => wt.watchScopes.map (fun ns =>
    (⟨wt.gvr, ns⟩, operationSpec ((wt.namespaceOps.lookup ns).getD ∅))))

abbrev WatchSpecs := Dict TargetWatchKey String

def targetWatchSpecs (table : WatchedTypeTable) : WatchSpecs :=
  accumulate (·.1) (fun _ pair => pair.2) (watchSpecPairs table.types) ∅

def sortedTargetWatchSpecKeys (specs : WatchSpecs) : List TargetWatchKey :=
  specs.keys.insertionSort (fun a b =>
    if a.gvr.toString = b.gvr.toString then a.ns ≤ b.ns else a.gvr.toString ≤ b.gvr.toString)

def equalTargetWatchSpecs (a b : WatchSpecs) : Bool := sameEntries "" a b

def operationsFor (key : TargetWatchKey) : List WatchedType → OperationSet
  | [] => ∅
  | wt :: rest =>
    if wt.gvr ≠ key.gvr then operationsFor key rest
    else match wt.namespaceOps.lookup key.ns with
      | some ops => ops
      -- a stream of one namespace may be served by the cluster-wide filter
      | none => if key.ns ≠ "" then (wt.namespaceOps.lookup "").getD ∅ else operationsFor key rest

theorem mem_watchSpecPairs_iff (types : List WatchedType) (key : TargetWatchKey) (spec : String) :
    (key, spec) ∈ watchSpecPairs types ↔ ∃ wt ∈ types, wt.gvr = key.gvr ∧
      ∃ ops, wt.namespaceOps.lookup key.ns = some ops ∧ spec = operationSpec ops := by
  simp only [watchSpecPairs, List.mem_flatMap, List.mem_map, List.mem_insertionSort,
    WatchedType.watchScopes]
  constructor
  · rintro ⟨wt, hwt, ns, hns, heq⟩
    obtain ⟨rfl, rfl⟩ := Prod.mk.inj heq
    obtain ⟨ops, hops⟩ := Option.isSome_iff_exists.mp (AList.lookup_isSome.mpr (AList.mem_keys.mpr hns))
    exact ⟨wt, hwt, rfl, ops, hops,
      congrArg (fun o : Option OperationSet => operationSpec (o.getD ∅)) hops⟩
  · rintro ⟨wt, hwt, hgvr, ops, hops, rfl⟩
    refine ⟨wt, hwt, key.ns, ?_, ?_⟩
    · exact AList.mem_keys.mp (AList.lookup_isSome.mp (by rw [hops]; rfl))
    · rw [hgvr]
      exact congrArg (fun o : Option OperationSet => (key, operationSpec (o.getD ∅))) hops

variable (table : WatchedTypeTable)

theorem WatchedTypeTable.type_unique {wt wt' : WatchedType}
    (h : wt ∈ table.types) (h' : wt' ∈ table.types) (hgvr : wt.gvr = wt'.gvr) : wt = wt' :=
  List.inj_on_of_nodup_map table.distinct h h' hgvr

variable (key : TargetWatchKey)

theorem lookup_targetWatchSpecs_iff (spec : String) :
    (targetWatchSpecs table).lookup key = some spec ↔ ∃ wt ∈ table.types, wt.gvr = key.gvr ∧
      ∃ ops, wt.namespaceOps.lookup key.ns = some ops ∧ spec = operationSpec ops := by
  rw [← mem_watchSpecPairs_iff]
  constructor
  · intro h
    by_contra hmiss
    rw [targetWatchSpecs, lookup_overwrite, AList.lookup_empty, Option.or_none] at h
    obtain ⟨pair, hlast, rfl⟩ := Option.map_eq_some_iff.mp h
    have hpair := List.mem_filter.mp (List.mem_of_getLast? hlast)
    obtain rfl : pair.1 = key := by simpa using hpair.2
    exact hmiss hpair.1
  · intro hmem
    -- each (GVR, namespace) is written once, since types have distinct GVRs
    refine lookup_overwrite_of_unique ⟨_, hmem, rfl⟩ ?_
    rintro ⟨key', spec'⟩ hmem' hkey
    obtain rfl : key' = key := hkey
    obtain ⟨wt, hwt, hgvr, ops, hops, rfl⟩ := (mem_watchSpecPairs_iff _ _ _).mp hmem
    obtain ⟨wt', hwt', hgvr', ops', hops', rfl⟩ := (mem_watchSpecPairs_iff _ _ _).mp hmem'
    obtain rfl := table.type_unique hwt hwt' (hgvr.trans hgvr'.symm)
    rw [hops] at hops'
    rw [Option.some.inj hops']

theorem operationSpec_ne_empty (ops : OperationSet) : operationSpec ops ≠ "" := by
  unfold operationSpec
  split
  · decide
  · intro hempty
    have := congrArg String.toList hempty
    simp [String.toList_append] at this

/-- No running stream has the empty spec, which a missing one reads as. -/
theorem targetWatchSpecs_ne_empty (spec : String)
    (h : (targetWatchSpecs table).lookup key = some spec) : spec ≠ "" := by
  obtain ⟨wt, -, -, ops, -, rfl⟩ := (lookup_targetWatchSpecs_iff table key spec).mp h
  exact operationSpec_ne_empty ops

theorem operationsFor_eq {key : TargetWatchKey} {wt : WatchedType} {ops : OperationSet}
    (hgvr : wt.gvr = key.gvr) (hops : wt.namespaceOps.lookup key.ns = some ops) :
    ∀ types : List WatchedType, wt ∈ types → (types.map (·.gvr)).Nodup → operationsFor key types = ops := by
  intro types
  induction types with
  | nil => simp
  | cons first rest ih =>
    intro hmem hnodup
    rw [List.map_cons, List.nodup_cons] at hnodup
    rcases List.mem_cons.mp hmem with rfl | hrest
    · simp [operationsFor, hgvr, hops]
    -- another type cannot have the GVR of the stream
    · have hother : first.gvr ≠ key.gvr := by
        intro hsame
        exact hnodup.1 (List.mem_map.mpr ⟨wt, hrest, hgvr.trans hsame.symm⟩)
      rw [operationsFor, if_pos hother]
      exact ih hrest hnodup.2

theorem operationsFor_spec (h : key ∈ targetWatchSpecs table) :
    (targetWatchSpecs table).lookup key = some (operationSpec (operationsFor key table.types)) := by
  obtain ⟨spec, hspec⟩ := Option.isSome_iff_exists.mp (AList.lookup_isSome.mpr h)
  obtain ⟨wt, hwt, hgvr, ops, hops, rfl⟩ := (lookup_targetWatchSpecs_iff table key spec).mp hspec
  rw [hspec, operationsFor_eq hgvr hops table.types hwt table.distinct]

end GitopsReverser.Watch
