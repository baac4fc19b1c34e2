import GitopsReverser.Types
import GitopsReverser.Reasoning.Lists
import GitopsReverser.Manifest.RenderVerify
import GitopsReverser.Manifest.Scan

/-!
# Store — the managed documents of a folder

The store is built from one scan. A document is judged against facts of the whole scan (`Context`):
the kustomizations, the files they read as patches, the namespaces they hand down, and what the
cluster serves. Its manifest identity is the effective one, with an inherited namespace filled in.
-/

namespace GitopsReverser.Manifest

open Reasoning
open Git (Path trimSpace)

/-! ## 1. What a document is judged against -/

/-- One entry of the followability registry. -/
structure TypeRecord where
  gvr : GroupVersionResource
  namespaced : Bool
  followable : Bool
  deriving DecidableEq, Repr

/-- `typeset.Lookup`, asked by apiVersion and kind. -/
structure Lookup where
  ready : Bool
  byGVK : String → String → Option TypeRecord

/-- An entry of an override section, by the file that holds it and its place there. -/
structure OverrideEntry where
  source : Path
  index : Nat
  name : Path
  deriving DecidableEq, Repr

/-- `override_chain.go`, `overrideAssignment`: what the render roots say about one document. -/
structure Attribution where
  ambiguous : Bool := false
  overrides : Bool := false
  rendered : Option Object := none
  replicas : Option OverrideEntry := none

/-- Kustomize, as far as the operator asks it. -/
structure Kustomize where
  render : Renderer
  attribution : List FileContent → ChainKey → Attribution

structure Context where
  lookup : Lookup
  kusts : Kustomizations
  -- the YAML files that are no kustomization
  resourceFiles : List Path
  patchFiles : List Path
  attribution : ChainKey → Attribution

def allows (path : Path) : Bool :=
  decide (filepathBase path ∈
    ["kustomization.yaml".toList, "kustomization.yml".toList, ".sops.yaml".toList])

def reachedResourceFiles (kusts : Kustomizations) : List Path :=
  kusts.entries.flatMap (fun e =>
    (e.2.resources.map (cleanJoin e.1)).filter (fun t => t ≠ [] && t ∉ kusts))

def patchFilesOf (kusts : Kustomizations) : List Path :=
  ((kusts.entries.filter (fun e => !e.2.unsupported)).flatMap (fun e => e.2.patches)).filter
    (· ∉ reachedResourceFiles kusts)

def contextOf (tools : Kustomize) (lookup : Lookup) (files : List FileContent) : Context :=
  let kusts := parseKustomizations files
  { lookup := lookup
    kusts := kusts
    resourceFiles := (files.filter (fun f => !isKustomizationFile f.path)).map
      (fun f => filepathToSlash f.path)
    patchFiles := patchFilesOf kusts
    attribution := tools.attribution files }

/-! ## 2. Inherited namespaces -/

/-- `store.go`, the walk of `assignFromRoot`: the directories visited and the files reached. Every
    level visits a new directory of the index, which bounds the depth. -/
def assignWalk (kusts : Kustomizations) (resourceFiles : List Path) :
    Nat → Path → List Path × List Path → List Path × List Path
  | 0, _, acc => acc
  | depth + 1, dir, (visited, reached) =>
    match kusts.lookup dir with
    | none => (visited, reached)
    | some cur =>
      if cur.unsupported ∨ dir ∈ visited then (visited, reached)
      else (cur.resources.map (cleanJoin dir)).foldl (fun acc target =>
        if target = [] then acc
        else if target ∈ resourceFiles then (acc.1, target :: acc.2)
        else assignWalk kusts resourceFiles depth target acc) (dir :: visited, reached)

/-- `store.go`, `kustomizeNamespaceAssignments` at one file: the distinct namespaces handed down,
    each with a kustomization that does. `order` is the one the map is ranged over in. -/
def Context.assignmentsIn (ctx : Context) (order : List Path) (file : Path) : List (Path × Path) :=
  let roots := order.filterMap (fun dir =>
    match ctx.kusts.lookup dir with
    | none => none
    | some root =>
      if root.unsupported || root.ns = [] then none
      else if file ∈ (assignWalk ctx.kusts ctx.resourceFiles (ctx.kusts.keys.length + 1) dir
          ([], [])).2 then some (root.ns, root.path)
      else none)
  roots.foldl (fun kept a => if a.1 ∈ kept.map Prod.fst then kept else kept ++ [a]) []

inductive NamespaceSource where
  | explicit
  | kustomize (path : Path)
  | none
  deriving DecidableEq, Repr

/-- `store.go`, `resolveNamespaceContext`: the effective identity of a document of a file. -/
def Context.resolveNamespaceIn (ctx : Context) (order : List Path) (file : Path) (id : Identity) :
    Identity × NamespaceSource :=
  if id.ns ≠ "" then (id, .explicit)
  else if !ctx.lookup.ready then (id, .explicit)
  else match ctx.lookup.byGVK id.apiVersion id.kind with
    | Option.none => (id, .explicit)
    | some record =>
      if !record.followable || !record.namespaced then (id, .explicit)
      else match ctx.assignmentsIn order (filepathToSlash file) with
        | [(ns, source)] => ({ id with ns := String.ofList ns }, .kustomize source)
        | _ => (id, .none)

def Context.resolveNamespace (ctx : Context) (file : Path) (id : Identity) :
    Identity × NamespaceSource :=
  ctx.resolveNamespaceIn (sortPaths ctx.kusts.keys) file id

theorem mem_assignmentsIn {ctx : Context} {order : List Path} {file ns : Path} :
    ns ∈ (ctx.assignmentsIn order file).map Prod.fst ↔
      ∃ dir ∈ order, ∃ k, ctx.kusts.lookup dir = some k ∧ k.unsupported = false ∧ k.ns = ns ∧ ns ≠ [] ∧
        file ∈ (assignWalk ctx.kusts ctx.resourceFiles (ctx.kusts.keys.length + 1) dir ([], [])).2 := by
  refine ((foldl_keepFirst Prod.fst _ [] (by simp)).2 ns).trans ?_
  simp only [List.map_nil, List.not_mem_nil, false_or, List.mem_map, List.mem_filterMap]
  constructor
  · rintro ⟨_, ⟨dir, hdir, ha⟩, rfl⟩
    split at ha
    · cases ha
    · rename_i k hk
      split_ifs at ha with hskip hfile
      cases ha
      simp only [Bool.or_eq_true, decide_eq_true_eq, not_or, Bool.not_eq_true] at hskip
      exact ⟨dir, hdir, k, hk, hskip.1, rfl, hskip.2, hfile⟩
  · rintro ⟨dir, hdir, k, hk, hsupported, rfl, hns, hfile⟩
    exact ⟨(k.ns, k.path), ⟨dir, hdir, by simp [hk, hsupported, hns, hfile]⟩, rfl⟩

theorem resolveNamespace_cases (ctx : Context) (file : Path) (id : Identity) :
    ((ctx.resolveNamespace file id).1 = id ∧
      ∀ source, (ctx.resolveNamespace file id).2 ≠ .kustomize source) ∨
    ∃ ns source, id.ns = "" ∧ ns ≠ [] ∧
      ctx.resolveNamespace file id = ({ id with ns := String.ofList ns }, .kustomize source) := by
  unfold Context.resolveNamespace Context.resolveNamespaceIn
  split_ifs with hns hread
  · exact .inl ⟨rfl, by simp⟩
  · exact .inl ⟨rfl, by simp⟩
  · split
    · exact .inl ⟨rfl, by simp⟩
    · split_ifs
      · exact .inl ⟨rfl, by simp⟩
      · split
        · rename_i ns source hassign
          refine .inr ⟨ns, source, not_not.mp hns, ?_, rfl⟩
          obtain ⟨_, -, _, -, -, -, hne, -⟩ := mem_assignmentsIn.mp
            (List.mem_map_of_mem (a := (ns, source)) (by rw [hassign]; simp))
          exact hne
        · exact .inl ⟨rfl, by simp⟩

/-! ## 3. Managed documents -/

inductive MappingOutcome where
  | noSource | followable | notFollowable
  deriving DecidableEq, Repr

inductive DocumentCause where
  | none
  | encrypted
  | nonEditable (detail : String)
  deriving DecidableEq, Repr

/-- One managed document, with the place it was read from. -/
structure DocumentModel where
  file : Path
  index : Nat
  identity : Identity
  nsSource : NamespaceSource
  mapping : MappingOutcome
  resource : Option ResourceIdentifier
  editable : Bool
  cause : DocumentCause
  ambiguous : Bool
  overrides : Bool
  rendered : Option Object
  replicas : Option OverrideEntry
  deriving DecidableEq, Repr

def DocumentModel.namespaceInherited (dm : DocumentModel) : Bool :=
  match dm.nsSource with
  | .kustomize _ => true
  | _ => false

theorem DocumentModel.namespaceInherited_iff {dm : DocumentModel} :
    dm.namespaceInherited = true ↔ ∃ source, dm.nsSource = .kustomize source := by
  unfold DocumentModel.namespaceInherited
  cases dm.nsSource <;> simp

def DocumentModel.claimsIdentity (dm : DocumentModel) : Bool :=
  match dm.cause with
  | .nonEditable _ => false
  | _ => true

/-- `store.go`, `resolveMapping` and `resolvedIdentity`: a cluster-scoped resource is keyed without
    a namespace, whatever the manifest says. -/
def Context.resolveMapping (ctx : Context) (id : Identity) :
    MappingOutcome × Option ResourceIdentifier :=
  if !ctx.lookup.ready then (.noSource, none)
  else match ctx.lookup.byGVK id.apiVersion id.kind with
    | none => (.notFollowable, none)
    | some record =>
      if !record.followable then (.notFollowable, none)
      else (.followable, some ⟨record.gvr.group, record.gvr.version, record.gvr.resource,
        if record.namespaced then id.ns else "", id.name⟩)

def causeFor (r : DocumentRecord) : DocumentCause :=
  if r.encrypted then .encrypted
  else if !r.editable then .nonEditable r.reason
  else .none

def Context.materialize (ctx : Context) (r : DocumentRecord) : DocumentModel :=
  let effective := ctx.resolveNamespace r.location.path r.identity
  let mapped := ctx.resolveMapping effective.1
  let attribution := ctx.attribution ⟨filepathToSlash r.location.path, r.identity.kind, r.identity.name⟩
  { file := r.location.path
    index := r.location.documentIndex
    identity := effective.1
    nsSource := effective.2
    mapping := mapped.1
    resource := mapped.2
    editable := r.editable && !r.encrypted
    cause := causeFor r
    ambiguous := attribution.ambiguous
    overrides := !attribution.ambiguous && attribution.overrides
    rendered := if attribution.ambiguous then none else attribution.rendered
    replicas := if attribution.ambiguous then none else attribution.replicas }

/-! ## 4. The store -/

/-- A build directive kept outside the model; a named one is a managed resource in hiding. -/
structure RetainedDocument where
  location : Location
  identity : Option Identity := none
  unsupported : Bool := false
  deriving DecidableEq, Repr

structure ManifestStore where
  documents : List DocumentModel
  retained : List RetainedDocument
  diagnostics : List Diagnostic
  kusts : Kustomizations
  foreign : List ForeignEntry
  ignore : IgnoreMatcher
  ignoreIssues : List AcceptanceIssue
  valueFileRefs : List Path
  -- the files more than one render root reaches
  fanIn : List Path

/-- `scan_repo.go`, `reachedResourceFilesFrom`: the files a root reaches, cycles cut on the path. -/
def reachedFrom (kusts : Kustomizations) : Nat → List Path → Path → List Path
  | 0, _, _ => []
  | depth + 1, onPath, dir =>
    match kusts.lookup dir with
    | none => []
    | some cur =>
      if dir ∈ onPath then []
      else (cur.resources.map (cleanJoin dir)).flatMap (fun target =>
        if target = [] then []
        else if target ∈ kusts then reachedFrom kusts depth (dir :: onPath) target
        else [target])

def renderRootFanIn (kusts : Kustomizations) : List Path :=
  let reached := (renderRoots kusts).flatMap (fun root =>
    (reachedFrom kusts (kusts.keys.length + 1) [] root).dedup)
  reached.filter (fun file => 1 < reached.count file)

theorem mem_renderRootFanIn {kusts : Kustomizations} {file : Path} : file ∈ renderRootFanIn kusts ↔
    ∃ root ∈ renderRoots kusts, ∃ other ∈ renderRoots kusts, root ≠ other ∧
      file ∈ reachedFrom kusts (kusts.keys.length + 1) [] root ∧
      file ∈ reachedFrom kusts (kusts.keys.length + 1) [] other := by
  refine Iff.trans ?_ (one_lt_count_flatMap_dedup (nodup_renderRoots kusts))
  refine List.mem_filter.trans ⟨fun h => of_decide_eq_true h.2, fun h => ⟨?_, decide_eq_true h⟩⟩
  exact List.count_pos_iff.mp (Nat.zero_lt_of_lt h)

/-! ### Values files a release names -/

def looksLikeKRM (content : Content) : Bool :=
  match content.first with
  | some (.node n) => n.mapping && n.identity.apiVersion ≠ "" && n.identity.kind ≠ ""
  | _ => false

def existingNonKRM (tree : Tree) (p : Path) : Bool :=
  match tree.lookup p with
  | some content => p ≠ [] && !looksLikeKRM content
  | none => false

/-- Relative to the release, to the root, or beside it. -/
def resolveValueFilePath (tree : Tree) (dir entry : Path) : Option Path :=
  let entry := trimSpace entry
  if entry = [] ∨ isRemoteResource entry then none
  else
    let entry := if entry.head? = some '$' then (entry.dropWhile (· ≠ '/')).tail else entry
    if entry = [] then none
    else [cleanJoin dir entry, pathClean entry, cleanJoin dir (pathBase entry)].find?
      (existingNonKRM tree)

/-- What a document that does not parse hides, stays hidden. -/
def decodeReleases (content : Content) : List Node :=
  (content.takeWhile (fun | .invalid _ _ => false | _ => true)).filterMap
    (fun | .node n => some n | _ => none)

def helmValueFileRefs (files : List FileContent) : List Path :=
  files.flatMap (fun f => (decodeReleases f.content).flatMap (fun n =>
    n.valueFiles.filterMap (resolveValueFilePath (contentByPath files) (slashDir f.path))))

/-! ### Building -/

def renderFailures (tools : Kustomize) (files : List FileContent) (kusts : Kustomizations) :
    List Path :=
  (renderTargets kusts).filterMap (fun root =>
    match tools.render files root with
    | .ok _ => none
    | .error _ => (kusts.lookup root).map KustomizationDoc.path)

/-- A whole file kept outside the model, unsupported when it cannot be modelled or built. -/
def retainFile (kusts : Kustomizations) (failures : List Path) (path : Path) : RetainedDocument :=
  { location := ⟨path, 0⟩
    unsupported := isKustomizationFile path &&
      ((kusts.lookup (slashDir path)).any KustomizationDoc.unsupported ||
        decide (filepathToSlash path ∈ failures)) }

def Context.manages (ctx : Context) (path : Path) : Bool :=
  !allows path && decide (filepathToSlash path ∉ ctx.patchFiles)

def recordsOf (files : List FileContent) : List DocumentRecord :=
  files.flatMap (fun f => (indexOneFile f).1)

theorem recordsOf_sorted {files : List FileContent} (h : files.Pairwise Before) :
    (recordsOf files).Pairwise (fun r r' => r.location.path ≤ r'.location.path ∧
      (r.location.path = r'.location.path → r.location.documentIndex < r'.location.documentIndex)) := by
  rw [recordsOf, List.pairwise_flatMap]
  refine ⟨fun f _ => (records_sorted f).imp_of_mem (fun hr hr' hlt => ⟨?_, fun _ => hlt⟩),
    h.imp (fun hbefore r hr r' hr' => ?_)⟩
  · rw [path_of_mem_indexOneFile hr, path_of_mem_indexOneFile hr']
  · rw [path_of_mem_indexOneFile hr, path_of_mem_indexOneFile hr']
    exact ⟨hbefore.1, fun heq => absurd heq hbefore.2⟩

def buildStore (tools : Kustomize) (lookup : Lookup) (scan : FolderScan) : ManifestStore :=
  let files := scan.yamlFiles
  let ctx := contextOf tools lookup files
  let records := recordsOf files
  let failures := renderFailures tools files ctx.kusts
  let named := records.filter (fun r => allows r.location.path)
  let patches := (files.filter (fun f => !allows f.path && !ctx.manages f.path &&
    (indexOneFile f).1 ≠ [])).map (fun f => ({ location := ⟨f.path, 0⟩ } : RetainedDocument))
  let whole := (files.filter (fun f => allows f.path &&
    named.all (fun r => r.location.path ≠ f.path))).map (fun f => retainFile ctx.kusts failures f.path)
  { documents := (records.filter (fun r => ctx.manages r.location.path)).map ctx.materialize
    retained := named.map (fun r => { location := r.location, identity := some r.identity }) ++
      patches ++ whole
    diagnostics := (files.filter (fun f => !allows f.path)).flatMap (fun f => (indexOneFile f).2)
    kusts := ctx.kusts
    foreign := scan.foreign
    ignore := scan.ignore
    ignoreIssues := scan.ignoreIssues
    valueFileRefs := helmValueFileRefs files
    fanIn := renderRootFanIn ctx.kusts }

namespace ManifestStore

variable (store : ManifestStore)

def fileDocuments (path : Path) : List DocumentModel :=
  store.documents.filter (fun dm => dm.file = path)

def byManifestIdentity (id : Identity) : Option DocumentModel :=
  store.documents.find? (fun dm => dm.claimsIdentity && dm.identity = id)

def isDuplicate (dm : DocumentModel) : Bool :=
  dm.claimsIdentity && decide (store.byManifestIdentity dm.identity ≠ some dm)

def byResourceIdentity (r : ResourceIdentifier) : Option DocumentModel :=
  (store.documents.filter (fun dm => dm.claimsIdentity && !store.isDuplicate dm &&
    dm.resource = some r)).getLast?

def overridesAmbiguousAt (rel : Path) : Bool :=
  store.documents.any (fun dm => dm.ambiguous && filepathToSlash dm.file = filepathToSlash rel)

def reachedByMultipleRenderRoots (rel : Path) : Bool := decide (filepathToSlash rel ∈ store.fanIn)

/-! ## 5. The acceptance gate -/

def duplicateRefusals : List AcceptanceIssue :=
  (store.documents.filter store.isDuplicate).map (fun dm => ⟨.duplicate, dm.file, dm.index⟩)

/-- What a document without a record means for its file. -/
def recordlessRefusal (d : Diagnostic) : Option AcceptanceIssue :=
  let managed := store.fileDocuments d.location.path ≠ []
  let issue (kind : IssueKind) : AcceptanceIssue := ⟨kind, d.location.path, d.location.documentIndex⟩
  match d.reason with
  | .emptyDocument => if managed then some (issue .impureManagedFile) else none
  | .notKRM =>
    if managed then some (issue .impureManagedFile)
    else if filepathToSlash d.location.path ∈ store.valueFileRefs then none
    else some (issue .nonKRM)
  | .invalidYAML | .missingSopsKey =>
    if managed then some (issue .impureManagedFile) else some (issue .invalidYAML)
  | .nonEditable | .duplicateIdentity => none

def mixedFileRefusals : List AcceptanceIssue :=
  (store.retained.filter (fun rd => rd.identity.any (fun id => id.name ≠ ""))).map
    (fun rd => ⟨.mixedFile, rd.location.path, rd.location.documentIndex⟩)

def unsupportedKustomizeRefusals : List AcceptanceIssue :=
  (store.retained.filter RetainedDocument.unsupported).map
    (fun rd => ⟨.unsupportedKustomize, rd.location.path, rd.location.documentIndex⟩)

def foreignContentRefusals : List AcceptanceIssue :=
  store.foreign.map (fun f => ⟨if f.symlink then .foreignSymlink else .foreignFile, f.path, 0⟩)

/-- The refusals; none is an accepted folder. -/
def acceptStructureOnly : List AcceptanceIssue :=
  store.duplicateRefusals ++ store.diagnostics.filterMap store.recordlessRefusal ++
    store.mixedFileRefusals ++ store.unsupportedKustomizeRefusals ++
    store.foreignContentRefusals ++ store.ignoreIssues

def Accepted : Prop := store.acceptStructureOnly = [] deriving Decidable

variable {store}

theorem winner_of_not_isDuplicate {dm : DocumentModel} (hclaim : dm.claimsIdentity = true)
    (h : store.isDuplicate dm = false) : store.byManifestIdentity dm.identity = some dm := by
  simpa [isDuplicate, hclaim] using h

theorem duplicateRefusals_nil_iff : store.duplicateRefusals = [] ↔
    ∀ dm ∈ store.documents, ∀ dm' ∈ store.documents, dm.claimsIdentity = true →
      dm'.claimsIdentity = true → dm.identity = dm'.identity → dm = dm' := by
  simp only [duplicateRefusals, List.map_eq_nil_iff, List.filter_eq_nil_iff, Bool.not_eq_true]
  constructor
  · intro hunique dm hdm dm' hdm' hclaim hclaim' heq
    have hfirst := winner_of_not_isDuplicate hclaim (hunique dm hdm)
    rw [heq, winner_of_not_isDuplicate hclaim' (hunique dm' hdm')] at hfirst
    exact (Option.some.inj hfirst).symm
  · intro hunique dm hdm
    simp only [isDuplicate, Bool.and_eq_false_iff, decide_eq_false_iff_not, not_not]
    cases hclaim : dm.claimsIdentity with
    | false => exact .inl rfl
    | true =>
      right
      cases hfound : store.byManifestIdentity dm.identity with
      | none =>
        have hnone := List.find?_eq_none.mp hfound dm hdm
        simp [hclaim] at hnone
      | some dm' =>
        have hwins := List.find?_some hfound
        simp only [Bool.and_eq_true, decide_eq_true_eq] at hwins
        rw [hunique dm' (List.mem_of_find?_eq_some hfound) dm hdm hwins.1 hclaim hwins.2]

theorem Accepted.unique (h : store.Accepted) {dm dm' : DocumentModel} (hdm : dm ∈ store.documents)
    (hdm' : dm' ∈ store.documents) (hclaim : dm.claimsIdentity = true)
    (hclaim' : dm'.claimsIdentity = true) (heq : dm.identity = dm'.identity) : dm = dm' := by
  simp only [Accepted, acceptStructureOnly, List.append_eq_nil_iff] at h
  exact duplicateRefusals_nil_iff.mp h.1.1.1.1.1 dm hdm dm' hdm' hclaim hclaim' heq

end ManifestStore

end GitopsReverser.Manifest
