import GitopsReverser.Flush.Steps

/-!
# Scope — from a folder on disk to a batch, and back

Paths are relative to the scanned root. A self-contained folder is its own root; an overlay that
reads a base outside spec.path is scanned from their common ancestor, and `writeSubdir` is where
spec.path lies below it.
-/

namespace GitopsReverser.Flush

open Reasoning Manifest
open Git (Path PruneMode)

/-! ## 1. Scanning -/

/-- `render_scope.go`, `renderScopeResult`: the write jail, and the files the build reads outside
    it. -/
structure Scope where
  writeSubdir : Path := []
  outside : List Path := []

namespace Scope

variable (scope : Scope) (nameMatch : NameMatch) (folder : Folder)

def inJail (p : Path) : Bool := pathWithin p scope.writeSubdir

def rel (p : Path) : Path := relUnder scope.writeSubdir p

/-- spec.path as its own scan sees it; the ignore file is the one at its root. -/
def specFolder : Folder :=
  { symlinks := (folder.symlinks.filter scope.inJail).map scope.rel
    ignoreFile := folder.ignoreFile }

def readsSpec (p : Path) : Bool :=
  scope.inJail p && decide (p ∉ folder.symlinks) &&
    (scope.specFolder folder).reads nameMatch (scope.rel p)

def reads (p : Path) : Bool :=
  scope.readsSpec nameMatch folder p || (decide (p ∈ scope.outside) && !scope.inJail p)

def foreignAmong (type : EntryType) (role : EntryRole) (paths : List Path) : List Path :=
  paths.filter (fun p => scope.inJail p && (scope.specFolder folder).visits nameMatch (scope.rel p) &&
    decide (classifyEntry nameMatch (scope.specFolder folder).ignore.1 (scope.rel p) type = role))

def scan : FolderScan :=
  { yamlFiles := sortFiles ((folder.yaml.entries.filter
      (fun e => scope.reads nameMatch folder e.1)).map (fun e => ⟨e.1, e.2⟩))
    foreign :=
      (scope.foreignAmong nameMatch folder .file .foreignFile folder.others).map (⟨·, false⟩) ++
      (scope.foreignAmong nameMatch folder .symlink .foreignSymlink folder.symlinks).map (⟨·, true⟩)
    ignore := (scope.specFolder folder).ignore.1
    ignoreIssues := (scope.specFolder folder).ignore.2 }

end Scope

def newWriteBatch (tools : Tools) (lookup : Lookup) (scope : Scope) (folder : Folder)
    (policy : Option PlacementPolicy) (pruneMode : PruneMode) : Setting :=
  let scan := scope.scan tools.nameMatch folder
  { tools := tools
    store := buildStore tools.kustomize lookup scan
    contentByPath := accumulate FileContent.path (fun _ f => f.content) scan.yamlFiles ∅
    policy := policy
    pruneMode := pruneMode
    writeSubdir := scope.writeSubdir }

def scanContext (tools : Tools) (lookup : Lookup) (scope : Scope) (folder : Folder) : Context :=
  contextOf tools.kustomize lookup (scope.scan tools.nameMatch folder).yamlFiles

section Setting

variable {tools : Tools} {lookup : Lookup} {scope : Scope} {folder : Folder}
  {policy : Option PlacementPolicy} {pruneMode : PruneMode} {p : Path} {c : Content}

variable {f : FileContent} {s : Setting} {dm : DocumentModel}

theorem mem_scope_yamlFiles : f ∈ (scope.scan tools.nameMatch folder).yamlFiles ↔
      folder.yaml.lookup f.path = some f.content ∧
        scope.reads tools.nameMatch folder f.path = true := by
  simp only [Scope.scan, mem_sortFiles, List.mem_map, List.mem_filter]
  constructor
  · rintro ⟨e, ⟨he, hr⟩, rfl⟩
    exact ⟨mem_entries_iff.mp he, hr⟩
  · rintro ⟨he, hr⟩
    exact ⟨⟨f.path, f.content⟩, ⟨mem_entries_iff.mpr he, hr⟩, rfl⟩

theorem scan_sorted : (scope.scan tools.nameMatch folder).yamlFiles.Pairwise Before := by
  refine sortFiles_sorted (List.pairwise_map.mpr ?_)
  exact (List.nodupKeys_iff_pairwise.mp folder.yaml.nodupKeys).filter _

theorem lookup_contentByPath :
    (newWriteBatch tools lookup scope folder policy pruneMode).contentByPath.lookup p =
      if scope.reads tools.nameMatch folder p then folder.yaml.lookup p else none := by
  simp only [newWriteBatch]
  have hfound : ∀ f ∈ (scope.scan tools.nameMatch folder).yamlFiles, f.path = p →
      folder.yaml.lookup p = some f.content ∧ scope.reads tools.nameMatch folder p = true := by
    rintro f hf rfl
    exact mem_scope_yamlFiles.mp hf
  by_cases hex : ∃ f ∈ (scope.scan tools.nameMatch folder).yamlFiles, f.path = p
  · obtain ⟨f, hf, hfp⟩ := hex
    obtain ⟨hlook, hread⟩ := hfound f hf hfp
    rw [if_pos hread, hlook]
    refine lookup_overwrite_of_unique ⟨f, hf, hfp⟩ (fun g hg hgp => ?_)
    exact Option.some.inj ((hfound g hg hgp).1.symm.trans hlook)
  · have hnil : (scope.scan tools.nameMatch folder).yamlFiles.filter (fun f => f.path = p) = [] :=
      List.filter_eq_nil_iff.mpr (fun f hf hfp => hex ⟨f, hf, of_decide_eq_true hfp⟩)
    rw [lookup_overwrite, hnil]
    split_ifs with hread
    · cases hl : folder.yaml.lookup p with
      | none => rfl
      | some c => exact absurd ⟨⟨p, c⟩, mem_scope_yamlFiles.mpr ⟨hl, hread⟩, rfl⟩ hex
    · rfl

section

variable (hs : s = newWriteBatch tools lookup scope folder policy pruneMode)

include hs

theorem yaml_of_contentByPath
    (h : s.contentByPath.lookup p = some c) : folder.yaml.lookup p = some c := by
  rw [hs, lookup_contentByPath] at h
  split_ifs at h
  exact h

theorem mem_yamlFiles_iff : f ∈ (scope.scan tools.nameMatch folder).yamlFiles ↔
      s.contentByPath.lookup f.path = some f.content := by
  rw [mem_scope_yamlFiles, hs, lookup_contentByPath]
  split_ifs with hread <;> simp [hread]

end

theorem mem_documents :
    dm ∈ (newWriteBatch tools lookup scope folder policy pruneMode).store.documents ↔
      ∃ f r, (newWriteBatch tools lookup scope folder policy pruneMode).contentByPath.lookup f.path =
          some f.content ∧
        r ∈ (indexOneFile f).1 ∧ (scanContext tools lookup scope folder).manages f.path = true ∧
        (scanContext tools lookup scope folder).materialize r = dm := by
  have hunfold : (newWriteBatch tools lookup scope folder policy pruneMode).store.documents =
      ((recordsOf (scope.scan tools.nameMatch folder).yamlFiles).filter
        (fun r => (scanContext tools lookup scope folder).manages r.location.path)).map
        (scanContext tools lookup scope folder).materialize := rfl
  simp only [hunfold, List.mem_map, List.mem_filter, recordsOf, List.mem_flatMap,
    mem_yamlFiles_iff (s := newWriteBatch tools lookup scope folder policy pruneMode) rfl]
  constructor
  · rintro ⟨r, ⟨⟨f, hf, hr⟩, hmanage⟩, rfl⟩
    rw [path_of_mem_indexOneFile hr] at hmanage
    exact ⟨f, r, hf, hr, hmanage, rfl⟩
  · rintro ⟨f, r, hf, hr, hmanage, rfl⟩
    rw [← path_of_mem_indexOneFile hr] at hmanage
    exact ⟨r, ⟨⟨f, hf, hr⟩, hmanage⟩, rfl⟩

theorem documents_read
    (h : dm ∈ (newWriteBatch tools lookup scope folder policy pruneMode).store.documents) :
    ((newWriteBatch tools lookup scope folder policy pruneMode).contentByPath.lookup
      dm.file).isSome = true := by
  obtain ⟨f, r, hread, hr, -, rfl⟩ := mem_documents.mp h
  have hsome : ∀ q, q = f.path → ((newWriteBatch tools lookup scope folder policy
      pruneMode).contentByPath.lookup q).isSome = true := by
    rintro _ rfl
    rw [hread]
    rfl
  exact hsome _ (path_of_mem_indexOneFile hr)

theorem newWriteBatch_sound : StoreSound (newWriteBatch tools lookup scope folder policy pruneMode) where
  files := fun _ => documents_read
  complete := by
    intro dm hdm
    obtain ⟨f, r, -, hr, -, rfl⟩ := mem_documents.mp hdm
    obtain ⟨d, i, -, r₀, hr₀, rfl⟩ := mem_indexOneFile.mp hr
    have hcomplete := complete_of_mem_indexDocument (List.mem_of_mem_head? hr₀)
    rcases resolveNamespace_cases (scanContext tools lookup scope folder) f.path r₀.identity with
      ⟨hsame, -⟩ | ⟨ns, source, -, -, heq⟩
    · rwa [← hsame] at hcomplete
    · simp only [Context.materialize, heq]
      exact hcomplete

theorem not_allows_of_document (hs : s = newWriteBatch tools lookup scope folder policy pruneMode)
    (h : dm ∈ s.store.documents) : allows dm.file = false := by
  subst hs
  obtain ⟨f, r, -, hr, hmanage, rfl⟩ := mem_documents.mp h
  simp only [Context.manages, Bool.and_eq_true, Bool.not_eq_true'] at hmanage
  rw [← path_of_mem_indexOneFile hr] at hmanage
  exact hmanage.1

theorem allows_of_isKustomizationFile (hname : isKustomizationFile p = true)
    (hslash : filepathToSlash p = p) : allows p = true := by
  simp only [isKustomizationFile, hslash, decide_eq_true_eq, List.mem_cons, List.not_mem_nil,
    or_false] at hname
  rcases hname with hname | hname <;> simp [allows, hname]

theorem kusts_path {dir : Path} {k : KustomizationDoc}
    (hs : s = newWriteBatch tools lookup scope folder policy pruneMode)
    (h : s.store.kusts.lookup dir = some k) :
    isKustomizationFile k.path = true ∧ allows k.path = true := by
  subst hs
  obtain ⟨f, -, hname, -, rfl⟩ := exists_of_lookup_parseKustomizations h
  rw [← isKustomizationFile_filepathToSlash] at hname
  rw [parseKustomization_path]
  exact ⟨hname, allows_of_isKustomizationFile hname (filepathToSlash_filepathToSlash _)⟩

end Setting

/-! ## 2. Flushing -/

section Flushing

variable {s : Setting} {b : Batch} {folder folder' : Folder} {p : Path}

theorem mem_planned : p ∈ s.planned b ↔ s.current b p ≠ s.contentByPath.lookup p := by
  simp only [Setting.planned, List.mem_filter, mem_sortPaths, Bool.or_eq_true]
  have htouched : (s.dirty b p = true ∨ s.deleted b p = true) ↔
      s.current b p ≠ s.contentByPath.lookup p := by
    simp only [Setting.dirty, Setting.deleted]
    cases s.current b p with
    | none => cases s.contentByPath.lookup p <;> simp
    | some c => simp
  rw [htouched]
  refine ⟨And.right, fun h => ⟨?_, h⟩⟩
  by_contra hkey
  have hnone : b.buffers.lookup p = none :=
    AList.lookup_eq_none.mpr (fun hm => hkey (AList.mem_keys.mp hm))
  exact h (by simp only [Setting.current, hnone])

/-- The four preconditions of a flush that was not refused. -/
structure Permitted (s : Setting) (b : Batch) : Prop where
  visible : ∀ p, s.current b p ≠ s.contentByPath.lookup p →
    s.store.ignore.matches s.tools.nameMatch (relUnder s.writeSubdir p) false = false
  inside : ∀ p, s.current b p ≠ s.contentByPath.lookup p → s.writePathEscapesScope p = false
  owned : ∀ p, s.current b p ≠ s.contentByPath.lookup p →
    (s.store.overridesAmbiguousAt p || s.store.reachedByMultipleRenderRoots p) = false
  vouched : b.putToKustomize = true →
    verifyBatchRenders s.tools.kustomize.render s.before (s.files b) b.intents = []

theorem refusal_nil_iff : s.refusal b = [] ↔ Permitted s b := by
  have hfour : s.refusal b = [] ↔ s.ignoreShadowPrecondition b = [] ∧
      s.pathScopePrecondition b = [] ∧ s.fanInPrecondition b = [] ∧
      s.renderPrecondition b = [] := by
    unfold Setting.refusal
    split_ifs with h₁ h₂ h₃
    · simp [h₁]
    · simp [h₂]
    · simp [h₃]
    · simp only [ne_eq, not_not] at h₁ h₂ h₃
      simp [h₁, h₂, h₃]
  have hrender : s.renderPrecondition b = [] ↔ (b.putToKustomize = true →
      verifyBatchRenders s.tools.kustomize.render s.before (s.files b) b.intents = []) := by
    unfold Setting.renderPrecondition
    cases b.putToKustomize <;> simp
  rw [hfour, hrender]
  simp only [Setting.ignoreShadowPrecondition, Setting.pathScopePrecondition,
    Setting.fanInPrecondition, List.map_eq_nil_iff, List.filter_eq_nil_iff, mem_planned,
    Bool.not_eq_true]
  exact ⟨fun ⟨h₁, h₂, h₃, h₄⟩ => ⟨h₁, h₂, h₃, h₄⟩,
    fun h => ⟨h.visible, h.inside, h.owned, h.vouched⟩⟩

theorem foldl_writeBuffer (ps : List Path) (folder : Folder) :
    (ps.foldl (s.writeBuffer b) folder).symlinks = folder.symlinks ∧
      (ps.foldl (s.writeBuffer b) folder).others = folder.others ∧
      (ps.foldl (s.writeBuffer b) folder).ignoreFile = folder.ignoreFile ∧
      ∀ p, (ps.foldl (s.writeBuffer b) folder).yaml.lookup p =
        if p ∈ ps then s.current b p else folder.yaml.lookup p := by
  induction ps generalizing folder with
  | nil => simp
  | cons q ps ih =>
    obtain ⟨hsymlink, hother, hignore, hlook⟩ := ih (s.writeBuffer b folder q)
    have hq : ∀ p, (s.writeBuffer b folder q).yaml.lookup p =
        if p = q then s.current b q else folder.yaml.lookup p := by
      intro p
      unfold Setting.writeBuffer
      by_cases hpq : p = q
      · subst hpq
        cases s.current b p <;> simp
      · cases s.current b q <;>
          simp [hpq, AList.lookup_insert_ne hpq, AList.lookup_erase_ne hpq]
    have hrest : (s.writeBuffer b folder q).symlinks = folder.symlinks ∧
        (s.writeBuffer b folder q).others = folder.others ∧
        (s.writeBuffer b folder q).ignoreFile = folder.ignoreFile := by
      unfold Setting.writeBuffer
      cases s.current b q <;> exact ⟨rfl, rfl, rfl⟩
    refine ⟨hsymlink.trans hrest.1, hother.trans hrest.2.1, hignore.trans hrest.2.2, fun p => ?_⟩
    rw [List.foldl_cons, hlook p, hq p]
    by_cases hpq : p = q
    · subst hpq
      simp
    · simp [hpq]

/-- The file a flush of the batch leaves: the planned bytes, or what is there. -/
def Setting.leaves (s : Setting) (b : Batch) (folder : Folder) (p : Path) : Option Content :=
  if s.current b p = s.contentByPath.lookup p then folder.yaml.lookup p else s.current b p

theorem leaves_of_same (h : s.current b p = s.contentByPath.lookup p) :
    s.leaves b folder p = folder.yaml.lookup p := if_pos h

theorem leaves_of_changed (h : s.current b p ≠ s.contentByPath.lookup p) :
    s.leaves b folder p = s.current b p := if_neg h

variable {lookup : Lookup} {policy : Option PlacementPolicy} {pruneMode : PruneMode} {scope : Scope}

theorem leaves_of_read {tools : Tools}
    (hs : s = newWriteBatch tools lookup scope folder policy pruneMode)
    (hread : (s.contentByPath.lookup p).isSome = true) : s.leaves b folder p = s.current b p := by
  by_cases hsame : s.current b p = s.contentByPath.lookup p
  · obtain ⟨c, hc⟩ := Option.isSome_iff_exists.mp hread
    rw [leaves_of_same hsame, hsame, hc, yaml_of_contentByPath hs hc]
  · exact leaves_of_changed hsame

theorem flush_ok (h : s.flush b folder = .ok folder') :
    Permitted s b ∧ folder'.symlinks = folder.symlinks ∧ folder'.others = folder.others ∧
      folder'.ignoreFile = folder.ignoreFile ∧
      ∀ p, folder'.yaml.lookup p = s.leaves b folder p := by
  unfold Setting.flush at h
  split_ifs at h with href
  cases h
  obtain ⟨hsymlink, hother, hignore, hlook⟩ := foldl_writeBuffer (s.planned b) folder (s := s) (b := b)
  refine ⟨refusal_nil_iff.mp (not_not.mp href), hsymlink, hother, hignore, fun p => ?_⟩
  rw [hlook p]
  by_cases hp : s.current b p = s.contentByPath.lookup p
  · rw [leaves_of_same hp, if_neg (fun hm => mem_planned.mp hm hp)]
  · rw [leaves_of_changed hp, if_pos (mem_planned.mpr hp)]

theorem flush_eq_ok_iff : (∃ folder', s.flush b folder = .ok folder') ↔ Permitted s b := by
  rw [← refusal_nil_iff]
  unfold Setting.flush
  split_ifs with href
  · simp [href]
  · simp [not_not.mp href]

/-- The folder with the buffers of the batch in place: what a flush leaves that is let through. -/
def Setting.plannedFolder (s : Setting) (b : Batch) (folder : Folder) : Folder :=
  (s.planned b).foldl (s.writeBuffer b) folder

theorem eq_plannedFolder (h : s.flush b folder = .ok folder') : folder' = s.plannedFolder b folder := by
  unfold Setting.flush at h
  split_ifs at h
  exact (Except.ok.inj h).symm

/-! ### The next scan -/

theorem readsSpec_congr {nameMatch : NameMatch} (hsymlink : folder'.symlinks = folder.symlinks)
    (hignore : folder'.ignoreFile = folder.ignoreFile) :
    scope.readsSpec nameMatch folder' p = scope.readsSpec nameMatch folder p := by
  simp only [Scope.readsSpec, Scope.specFolder, hsymlink, hignore]

/-- The next scan of the folder reads the same paths, with the bytes of the batch. -/
theorem lookup_rescan {tools : Tools} {s' : Setting}
    (hs : s = newWriteBatch tools lookup scope folder policy pruneMode)
    (hflush : s.flush b folder = .ok folder')
    (hs' : s' = newWriteBatch tools lookup scope folder' policy pruneMode) :
    s'.contentByPath.lookup p =
      if scope.reads tools.nameMatch folder p then s.current b p else none := by
  obtain ⟨-, hsymlink, -, hignore, hleft⟩ := flush_ok hflush
  have hreads : scope.reads tools.nameMatch folder' p = scope.reads tools.nameMatch folder p := by
    simp only [Scope.reads, readsSpec_congr hsymlink hignore]
  rw [hs', lookup_contentByPath, hreads]
  split_ifs with hread
  · rw [hleft]
    by_cases hsame : s.current b p = s.contentByPath.lookup p
    · rw [leaves_of_same hsame, hsame, hs, lookup_contentByPath, if_pos hread]
    · exact leaves_of_changed hsame
  · rfl

end Flushing

/-! ## 3. One flush after another -/

def Setting.run (s : Setting) (work : Setting.Work) (folder : Folder) : Except FlushError Folder :=
  match s.perform work with
  | .error e => .error e
  | .ok b => s.flush b folder

/-- The batch that a run flushes: none when the work cannot be applied or the batch is refused. -/
def Setting.plan (s : Setting) (work : Setting.Work) : Option Batch :=
  (s.perform work).toOption.filter (fun b => s.refusal b = [])

theorem mem_plan_iff {s : Setting} {work : Setting.Work} {b : Batch} :
    b ∈ s.plan work ↔ s.perform work = .ok b ∧ Permitted s b := by
  rw [← refusal_nil_iff, Setting.plan]
  cases s.perform work with
  | error e => simp [Except.toOption]
  | ok b' =>
    simp only [Except.toOption, Option.mem_def, Option.filter_eq_some_iff, Option.some.injEq,
      decide_eq_true_eq, Except.ok.injEq]

theorem run_eq_ok_iff {s : Setting} {work : Setting.Work} {folder folder' : Folder} :
    s.run work folder = .ok folder' ↔ ∃ b ∈ s.plan work, s.flush b folder = .ok folder' := by
  simp only [mem_plan_iff, Setting.run]
  cases s.perform work with
  | error e => simp
  | ok b =>
    constructor
    · exact fun h => ⟨b, ⟨rfl, (flush_ok h).1⟩, h⟩
    · rintro ⟨b', ⟨hb, -⟩, h⟩
      exact Except.ok.inj hb ▸ h

def Setting.worktree (s : Setting) (work : Setting.Work) (folder : Folder) : Folder :=
  match s.run work folder with
  | .error _ => folder
  | .ok folder' => folder'

theorem worktree_cases (s : Setting) (work : Setting.Work) (folder : Folder) :
    s.worktree work folder = folder ∨
      ∃ b, s.perform work = .ok b ∧ s.flush b folder = .ok (s.worktree work folder) := by
  unfold Setting.worktree Setting.run
  cases hperform : s.perform work with
  | error e => exact .inl rfl
  | ok b =>
    dsimp only
    cases hflush : s.flush b folder with
    | error e => exact .inl rfl
    | ok folder' => exact .inr ⟨b, rfl, hflush⟩

/-- A flush that is asked for, with what it finds outside the folder. -/
structure Request where
  tools : Tools
  lookup : Lookup
  scope : Scope := {}
  policy : Option PlacementPolicy := none
  pruneMode : PruneMode := .unset
  work : Setting.Work

def Request.setting (r : Request) (folder : Folder) : Setting :=
  newWriteBatch r.tools r.lookup r.scope folder r.policy r.pruneMode

def flushed (folder : Folder) (r : Request) : Folder := (r.setting folder).worktree r.work folder

/-! ## 4. Tools for small folders -/

def literalTools : Tools where
  kustomize := { render := fun _ _ => .ok [], attribution := fun _ _ => {} }
  nameMatch := fun pattern name => some (pattern = name)
  sensitive := fun _ _ => false
  project := fun o => o
  marshal := fun o => { identity := identityOfObject o }
  encrypt := fun _ => .error "no encryptor is configured"
  semanticallyEqual := fun a b => decide (a = b)
  editInPlace := fun _ _ _ _ => .ok (none, [])
  patchFields := fun _ _ => none

def configMapLookup : Lookup where
  ready := true
  byGVK := fun apiVersion kind =>
    if apiVersion = "v1" ∧ kind = "ConfigMap" then some ⟨⟨"", "v1", "configmaps"⟩, true, true⟩
    else none

def configMap (ns name : String) : Object := ⟨"", "v1", "ConfigMap", ns, name, ""⟩

def configMapDocument (ns name : String) : Document :=
  .node { identity := ⟨"v1", "ConfigMap", ns, name⟩ }

def kustomizationDocument (k : KustomizationFile) : Document :=
  .node { identity := ⟨"", "", "", ""⟩, kustomization := some k }

def configMapId (ns name : String) : ResourceIdentifier := ⟨"", "v1", "configmaps", ns, name⟩

end GitopsReverser.Flush
