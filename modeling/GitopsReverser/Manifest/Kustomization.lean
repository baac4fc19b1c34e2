import GitopsReverser.Reasoning.Accumulate
import GitopsReverser.Manifest.Document

/-!
# Kustomization — the build directives of a folder and the graph they span

`parseKustomizations` is the one place where a `kustomization.yaml` is judged. The index is keyed
by directory; a directory with both spellings of the file name keeps the one that sorts last.
-/

namespace GitopsReverser.Manifest

open Reasoning
open Git (Path trimSpace)

/-! ## 1. Parsing -/

structure KustomizationDoc where
  path : Path
  ns : Path := []
  resources : List Path := []
  images : List ImageEntry := []
  replicas : List ReplicaEntry := []
  patches : List Path := []
  features : List String := []
  unsupported : Bool := false
  deriving DecidableEq, Repr

abbrev Kustomizations := Dict Path KustomizationDoc

abbrev Tree := Dict Path Content

def contentByPath (files : List FileContent) : Tree :=
  accumulate (fun f => filepathToSlash f.path) (fun _ f => f.content) files ∅

/-- What kustomize's decoder makes of a file: it reads the first document only, and an empty one
    is a kustomization without any field. -/
def Content.kustomization (content : Content) : Option KustomizationFile :=
  match content.first with
  | some (.node n) => n.kustomization
  | some _ => none
  | none => some {}

def trimmedEntries (entries : List Path) : List Path :=
  (entries.map trimSpace).filter (· ≠ [])

def isRemoteResource (entry : Path) : Bool :=
  let e := trimSpace entry
  decide ("://".toList <:+: e ∨ "git@".toList <:+: e ∨
    ∃ host ∈ ["github.com/".toList, "gitlab.com/".toList, "bitbucket.org/".toList], host <+: e)

def resolvePatchPath (entryPath dir : Path) (tree : Tree) : Path :=
  let entryPath := trimSpace entryPath
  if entryPath = [] ∨ isRemoteResource entryPath then []
  else
    let resolved := cleanJoin dir entryPath
    if resolved = [] ∨ resolved ∉ tree then [] else resolved

def patchFileIsSparseKRM (entryPath dir : Path) (tree : Tree) : Bool :=
  let resolved := resolvePatchPath entryPath dir tree
  if resolved = [] then false
  else match (tree.lookup resolved).bind Content.first with
    | some (.node n) => n.mapping && n.identity.apiVersion ≠ "" && n.identity.kind ≠ ""
    | _ => false

def patchRefusal (dir : Path) (tree : Tree) (entry : PatchEntry) : Option String :=
  if trimSpace entry.patch ≠ [] then some "patches-inline"
  else if patchFileIsSparseKRM entry.path dir tree then none
  else if resolvePatchPath entry.path dir tree = [] then some "patches-outside-tree"
  else some "patches-json6902"

def patchPaths (entries : List PatchEntry) (dir : Path) (tree : Tree) : List Path :=
  sortPaths ((entries.filter
    (fun e => trimSpace e.patch = [] && patchFileIsSparseKRM e.path dir tree)).map
    (fun e => resolvePatchPath e.path dir tree))

def imagesWellFormed (entries : List ImageEntry) : Bool :=
  entries.all (fun e => trimSpace e.name ≠ [] && trimSpace e.tagSuffix = [])

def replicasWellFormed (entries : List ReplicaEntry) : Bool :=
  entries.all (fun e => trimSpace e.name ≠ [] && 0 ≤ e.count)

/-- A file with a feature outside the modelled subset is kept, marked unsupported. -/
def parseKustomization (content : Content) (path : Path) (tree : Tree) : KustomizationDoc :=
  match Content.kustomization content with
  | none => { path := path, features := ["unparseable"], unsupported := true }
  | some k =>
    let resources := trimmedEntries (k.resources.getD [] ++ k.bases)
    let features := (k.unmodelled ++
      (if resources.any isRemoteResource then ["remote-base"] else []) ++
      (if imagesWellFormed k.images then [] else ["malformed-images"]) ++
      (if replicasWellFormed k.replicas then [] else ["malformed-replicas"]) ++
      k.patches.filterMap (patchRefusal (slashDir path) tree)).dedup.insertionSort (· ≤ ·)
    { path := path
      ns := trimSpace k.ns
      resources := resources
      images := if imagesWellFormed k.images then k.images else []
      replicas := if replicasWellFormed k.replicas then k.replicas else []
      patches := patchPaths k.patches (slashDir path) tree
      features := features
      unsupported := features ≠ [] }

def parseKustomizations (files : List FileContent) : Kustomizations :=
  accumulate (fun f => slashDir f.path)
    (fun _ f => parseKustomization f.content (filepathToSlash f.path) (contentByPath files))
    (files.filter (fun f => isKustomizationFile f.path)) ∅

@[simp] theorem parseKustomization_path (content : Content) (path : Path) (tree : Tree) :
    (parseKustomization content path tree).path = path := by
  unfold parseKustomization
  split <;> rfl

theorem exists_of_lookup_parseKustomizations {files : List FileContent} {dir : Path}
    {k : KustomizationDoc} (h : (parseKustomizations files).lookup dir = some k) :
    ∃ f ∈ files, isKustomizationFile f.path = true ∧ slashDir f.path = dir ∧
      parseKustomization f.content (filepathToSlash f.path) (contentByPath files) = k := by
  obtain ⟨f, hf, hdir, hk⟩ := exists_of_lookup_overwrite h
  obtain ⟨hmem, hname⟩ := List.mem_filter.mp hf
  exact ⟨f, hmem, hname, hdir, hk⟩

/-! ## 2. The graph of directories -/

def directoryTargets (kusts : Kustomizations) (dir : Path) : List Path :=
  match kusts.lookup dir with
  | none => []
  | some doc => (doc.resources.map (cleanJoin dir)).filter (fun t => t ≠ [] && t ∈ kusts)

def renderRoots (kusts : Kustomizations) : List Path :=
  let referenced := kusts.keys.flatMap (directoryTargets kusts)
  sortPaths (kusts.keys.filter (· ∉ referenced))

theorem mem_renderRoots {kusts : Kustomizations} {dir : Path} : dir ∈ renderRoots kusts ↔
    dir ∈ kusts.keys ∧ ∀ other ∈ kusts.keys, dir ∉ directoryTargets kusts other := by
  simp [renderRoots, mem_sortPaths]

theorem nodup_renderRoots (kusts : Kustomizations) : (renderRoots kusts).Nodup :=
  (List.perm_insertionSort (· ≤ ·) _).nodup_iff.mpr (kusts.keys_nodup.filter _)

/-- A chain of new directories is no longer than the index, which bounds the depth. -/
def markReachable (kusts : Kustomizations) : Nat → Path → List Path → List Path
  | 0, _, covered => covered
  | depth + 1, dir, covered =>
    if dir ∈ covered then covered
    else (directoryTargets kusts dir).foldl
      (fun covered target => markReachable kusts depth target covered) (dir :: covered)

def renderTargets (kusts : Kustomizations) : List Path :=
  let depth := kusts.keys.length + 1
  let roots := renderRoots kusts
  let covered := roots.foldl (fun covered root => markReachable kusts depth root covered) []
  let rest := sortPaths (kusts.keys.filter (· ∉ covered))
  (rest.foldl (fun (targets, covered) dir =>
    if dir ∈ covered then (targets, covered)
    else (targets ++ [dir], markReachable kusts depth dir covered)) (roots, covered)).1

end GitopsReverser.Manifest
