import GitopsReverser.Manifest.Store

/-!
# Placement — where a resource without a document goes

Four mechanisms are asked in turn: the declared template, the siblings, the only kustomization of
the folder, the canonical path. All of them end in `finishPlacement`, so what holds of every
placement is read off there (`locateNew_ok`).
-/

namespace GitopsReverser.Manifest

open Reasoning
open Git (Path trimSpace)

/-! ## 1. Requests and results -/

structure PlacementPolicy where
  byType : Dict Path Path := ∅
  default : Path := []

structure PlacementRequest where
  identifier : ResourceIdentifier
  kind : String
  sensitive : Bool
  writeScope : Path

structure PlacementResult where
  path : Path
  append : Bool := false
  kustomization : Option KustomizationDoc := none
  namespaceInherited : Bool := false
  deriving DecidableEq, Repr

/-- Why a placement cannot be honoured safely. -/
inductive PlacementError where
  | invalidPath (path : Path)
  | sensitiveAppend (path : Path)
  | plaintextIntoEncrypted (path : Path)
  deriving DecidableEq, Repr

/-! ## 2. Declared templates -/

def placementTypeKey (id : ResourceIdentifier) : Path :=
  (if id.group = "" then [] else id.group.toList ++ ['/']) ++
    id.version.toList ++ '/' :: id.resource.toList

def clusterSegment : Path := "_cluster".toList

def yamlSuffix (sensitive : Bool) : Path :=
  if sensitive then ".sops.yaml".toList else ".yaml".toList

/-- `placement.go`, `placementVars`; `none` is a name that is no variable. -/
def placementVar (req : PlacementRequest) (name : Path) : Option Path :=
  let id := req.identifier
  if name = "group".toList ∨ name = "groupPath".toList then some id.group.toList
  else if name = "version".toList then some id.version.toList
  else if name = "apiVersion".toList then
    some ((if id.group = "" then [] else id.group.toList ++ ['/']) ++ id.version.toList)
  else if name = "resource".toList then some id.resource.toList
  else if name = "kind".toList then some req.kind.toList
  else if name = "scope".toList then
    some (if id.ns = "" then "cluster".toList else "namespaced".toList)
  else if name = "namespace".toList then some id.ns.toList
  else if name = "namespaceOrCluster".toList then
    some (if id.ns = "" then clusterSegment else id.ns.toList)
  else if name = "name".toList then some id.name.toList
  else if name = "sensitiveSuffix".toList then some (yamlSuffix req.sensitive)
  else none

def sanitizePlacementSegment (v : Path) : Path :=
  v.flatMap (fun c =>
    if c = '%' then "%25".toList else if c = '/' then "%2F".toList
    else if c = '\\' then "%5C".toList else [c])

/-- The substitution of `RenderPlacementTemplate`. Every step consumes a character, so the length
    of the template is enough fuel. -/
def substitute (value : Path → Option Path) : Nat → Path → Option Path
  | 0, _ | _ + 1, [] => some []
  | fuel + 1, c :: rest =>
    let name := rest.takeWhile Char.isAlpha
    if c = '\x7b' ∧ name ≠ [] ∧ (rest.drop name.length).head? = some '\x7d' then
      match value name with
      | none => none
      | some v => (substitute value fuel (rest.drop (name.length + 1))).map
          (sanitizePlacementSegment v ++ ·)
    else (substitute value fuel rest).map (c :: ·)

def collapseEmptyPathSegments (p : Path) : Path := joinSlash ((splitSlash p).filter (· ≠ []))

def renderPlacementTemplate (req : PlacementRequest) (tmpl : Path) : Option Path :=
  (substitute (placementVar req) tmpl.length tmpl).map collapseEmptyPathSegments

def resolveDeclared (policy : Option PlacementPolicy) (req : PlacementRequest) : Option Path :=
  match policy with
  | none => none
  | some policy =>
    let tmpl := (policy.byType.lookup (placementTypeKey req.identifier)).getD []
    if trimSpace tmpl ≠ [] then renderPlacementTemplate req tmpl
    else if trimSpace policy.default ≠ [] then renderPlacementTemplate req policy.default
    else none

/-! ## 3. Siblings -/

namespace ManifestStore

variable (store : ManifestStore)

/-- The indexed documents of a type, optionally of one namespace, on the same side of the encryption
    boundary. -/
def cohortMembers (id : ResourceIdentifier) (matchNamespace sensitive : Bool) : List DocumentModel :=
  store.documents.filter (fun dm =>
    match dm.resource with
    | none => false
    | some r =>
      decide (store.byResourceIdentity r = some dm) &&
      decide (r.group = id.group ∧ r.version = id.version ∧ r.resource = id.resource) &&
      (!matchNamespace || decide (r.ns = id.ns)) &&
      (decide (dm.cause = .encrypted) == sensitive))

def fileIsAppendSafe (path : Path) : Bool :=
  decide (store.fileDocuments path ≠ []) && (store.fileDocuments path).all DocumentModel.claimsIdentity

def fileHoldsEncryptedDocument (path : Path) : Bool :=
  (store.fileDocuments path).any (fun dm => decide (dm.cause = .encrypted))

end ManifestStore

def spansMultipleNamespaces (ms : List DocumentModel) : Bool :=
  decide (1 < ((ms.filterMap DocumentModel.resource).map ResourceIdentifier.ns).dedup.length)

def allSameDir (dirs : List Path) : Bool := dirs.all (fun d => dirs.head? = some d)

def bestBundle (candidates : List (Path × Nat)) : Path × Nat :=
  candidates.foldl (fun best c => if best.2 < c.2 then c else best) ([], 0)

/-- `placement.go`, `classifyCohortLocations` and `cohortDestination`: join the bundle that holds
    most of the cohort, or a file of its own beside the singletons. -/
def cohortDestination (store : ManifestStore) (members : List DocumentModel)
    (req : PlacementRequest) (namespaceAgnostic : Bool) : Option (Path × Bool) :=
  let inFile (p : Path) := members.filter (fun dm => dm.file = p)
  let files := (sortPaths (members.map DocumentModel.file).dedup).filter store.fileIsAppendSafe
  let bundles := files.filter (fun p => 1 < (store.fileDocuments p).length &&
    (!namespaceAgnostic || spansMultipleNamespaces (inFile p)))
  let singles := files.filter (fun p => (store.fileDocuments p).length ≤ 1)
  let dirs := if namespaceAgnostic &&
      (!allSameDir (singles.map slashDir) || !spansMultipleNamespaces (singles.flatMap inFile))
    then [] else singles.map slashDir
  let best := bestBundle (bundles.map (fun p => (p, (inFile p).length)))
  if best.1 = [] ∧ dirs = [] then none
  else if dirs.length < best.2 then
    some (best.1, (inFile best.1).head?.any DocumentModel.namespaceInherited)
  else
    (sortPaths dirs).head?.map (fun dir =>
      (cleanJoin dir (req.identifier.name.toList ++ yamlSuffix req.sensitive),
        ((singles.filter (fun p => slashDir p = dir)).flatMap inFile).head?.any
          DocumentModel.namespaceInherited))

def resolveInferred (store : ManifestStore) (req : PlacementRequest) : Option (Path × Bool) :=
  let writable (dms : List DocumentModel) :=
    if req.writeScope = [] then dms else dms.filter (fun dm => pathWithin dm.file req.writeScope)
  (cohortDestination store (writable (store.cohortMembers req.identifier true req.sensitive))
    req false).or
    (cohortDestination store (writable (store.cohortMembers req.identifier false req.sensitive))
      req true)

/-! ## 4. The only kustomization, and the canonical path -/

def resolveKustomizeRoot (store : ManifestStore) (req : PlacementRequest) : Option (Path × Bool) :=
  match (store.kusts.entries.map Sigma.snd).filter (fun k => !k.unsupported &&
    (decide (req.writeScope = []) || pathWithin (slashDir k.path) req.writeScope)) with
  | [only] => some (cleanJoin (slashDir only.path)
      (req.identifier.name.toList ++ yamlSuffix req.sensitive), decide (only.ns ≠ []))
  | _ => none

def toGitPath (id : ResourceIdentifier) : Path :=
  (if id.ns = "" then clusterSegment else id.ns.toList) ++ '/' ::
    ((if id.group = "" then [] else id.group.toList ++ ['/']) ++
      id.resource.toList ++ '/' :: (id.name.toList ++ ".yaml".toList))

def canonicalPath (req : PlacementRequest) : Path :=
  let base := toGitPath req.identifier
  if req.sensitive then base.take (base.length - 5) ++ ".sops.yaml".toList else base

/-! ## 5. The gate every placement passes -/

def validateResolvedPlacementPath (p : Path) : Bool :=
  decide (p ≠ [] ∧ '\\' ∉ p ∧ p.head? ≠ some '/' ∧ pathClean p = p ∧ p ≠ dot) &&
    !escapes p && isYAMLFile p

def rebaseIntoWriteScope (scope path : Path) : Path :=
  if scope = [] ∨ pathWithin path scope then path else cleanJoin scope path

def governingKustomization (store : ManifestStore) (writeScope path : Path) : Option KustomizationDoc :=
  match store.kusts.lookup (slashDir path) with
  | some k => some k
  | none => if writeScope = [] then none else store.kusts.lookup writeScope

def kustomizationListsResource (k : KustomizationDoc) (path : Path) : Bool :=
  k.resources.any (fun entry => cleanJoin (slashDir k.path) entry = path)

def finishPlacement (store : ManifestStore) (req : PlacementRequest) (resolved : Path × Bool) :
    Except PlacementError PlacementResult :=
  let path := rebaseIntoWriteScope req.writeScope resolved.1
  if !validateResolvedPlacementPath path then .error (.invalidPath path)
  else
    let append := store.fileIsAppendSafe path
    if req.sensitive && append then .error (.sensitiveAppend path)
    else if append && !req.sensitive && store.fileHoldsEncryptedDocument path then
      .error (.plaintextIntoEncrypted path)
    else .ok
      { path := path
        append := append
        kustomization := (governingKustomization store req.writeScope path).filter
          (fun k => !k.unsupported && !kustomizationListsResource k path)
        namespaceInherited := resolved.2 }

def locateNew (store : ManifestStore) (policy : Option PlacementPolicy) (req : PlacementRequest) :
    Except PlacementError PlacementResult :=
  finishPlacement store req
    ((((resolveDeclared policy req).map (·, false)).or (resolveInferred store req)).or
      (resolveKustomizeRoot store req) |>.getD (canonicalPath req, false))

/-- Whatever mechanism answered, the path is valid, an append goes to a managed file whose
    documents all claim their identities, and the kustomization is one the store supports. -/
theorem locateNew_ok {store : ManifestStore} {policy : Option PlacementPolicy}
    {req : PlacementRequest} {placement : PlacementResult}
    (h : locateNew store policy req = .ok placement) :
    validateResolvedPlacementPath placement.path = true ∧
      placement.append = store.fileIsAppendSafe placement.path ∧
      (placement.append = true → req.sensitive = false ∧
        store.fileHoldsEncryptedDocument placement.path = false) ∧
      ∀ k, placement.kustomization = some k →
        k.unsupported = false ∧ ∃ dir, store.kusts.lookup dir = some k := by
  rw [locateNew] at h
  generalize ((((resolveDeclared policy req).map (·, false)).or (resolveInferred store req)).or
    (resolveKustomizeRoot store req) |>.getD (canonicalPath req, false)) = resolved at h
  simp only [finishPlacement] at h
  generalize rebaseIntoWriteScope req.writeScope resolved.1 = path at h
  split at h
  · cases h
  · rename_i hval
    split at h
    · cases h
    · rename_i hsensitive
      split at h
      · cases h
      · rename_i hencrypted
        cases h
        refine ⟨by simpa using hval, rfl, ?_, ?_⟩
        · intro (happend : store.fileIsAppendSafe path = true)
          have hplain : req.sensitive = false := by simpa [happend] using hsensitive
          exact ⟨hplain, by simpa [happend, hplain] using hencrypted⟩
        · intro k hk
          obtain ⟨hgovern, hkeep⟩ := Option.filter_eq_some_iff.mp hk
          simp only [Bool.and_eq_true, Bool.not_eq_true'] at hkeep
          refine ⟨hkeep.1, ?_⟩
          simp only [governingKustomization] at hgovern
          split at hgovern
          · rename_i k' hk'
            cases hgovern
            exact ⟨_, hk'⟩
          · split at hgovern
            · cases hgovern
            · exact ⟨_, hgovern⟩

end GitopsReverser.Manifest
