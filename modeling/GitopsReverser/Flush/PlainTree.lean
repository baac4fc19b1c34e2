import GitopsReverser.Flush.Acceptance
import GitopsReverser.Flush.DurableIdentity
import GitopsReverser.Reasoning.Shelf

/-!
# PlainTree — folders whose manifests stand for themselves

Without a kustomization no document takes a namespace, an override or a rendered form from another
file. The managed documents of such a folder are a shelf (`identityAt`): what a scan finds under an
identity is the one document that claims it, wherever it stands.
-/

namespace GitopsReverser.Flush

open Reasoning Manifest
open Git (Path PruneMode)

/-! ## 1. Documents and files -/

/-- The identity a document claims at a path: the index records it there, and the editor refuses
    nothing in it. -/
def claimAt (p : Path) : Document → Option Identity
  | .node n =>
    if n.disallowed.isNone && (!isSOPSFile p || n.sops) then identityFromNode n else none
  | _ => none

def identityAt (p : Path) (d : Document) : Option Identity :=
  if allows p then none else claimAt p d

def properPath (p : Path) : Bool :=
  decide (p ≠ [] ∧ p.head? ≠ some '/' ∧ pathClean p = p ∧ p ≠ dot) && !escapes p

/-- A file that is no kustomization, with nothing but manifests that claim their identity. -/
structure PlainFile (p : Path) (c : Content) : Prop where
  direct : isKustomizationFile p = false
  proper : properPath p = true
  claimed : allows p = false → c ≠ [] ∧ ∀ d ∈ c, claimAt p d ≠ none
  retained : allows p = true → ∀ d ∈ c, diagnosis p d ≠ none

def PlainFiles (files : Path → Option Content) : Prop := ∀ p c, files p = some c → PlainFile p c

instance (p : Path) (c : Content) : Decidable (PlainFile p c) :=
  decidable_of_iff (isKustomizationFile p = false ∧ properPath p = true ∧
      (allows p = false → c ≠ [] ∧ ∀ d ∈ c, claimAt p d ≠ none) ∧
      (allows p = true → ∀ d ∈ c, diagnosis p d ≠ none))
    ⟨fun h => ⟨h.1, h.2.1, h.2.2.1, h.2.2.2⟩, fun h => ⟨h.direct, h.proper, h.claimed, h.retained⟩⟩

theorem plainFiles_of_entries {tree : Tree} (h : ∀ e ∈ tree.entries, PlainFile e.1 e.2) :
    PlainFiles (fun p => tree.lookup p) :=
  fun p c hc => h ⟨p, c⟩ (mem_entries_iff.mpr hc)

/-- The managed documents of a scan, each with its identity and what it holds. -/
def Setting.held (s : Setting) : List (Identity × Document) :=
  s.store.documents.filterMap (fun dm =>
    ((s.contentByPath.lookup dm.file).bind (fun docs => docs[dm.index]?)).map (dm.identity, ·))

def standing (files : Path → Option Content) (p : Path) : Content := (files p).getD []

/-- Kustomize has nothing to say about a folder without a kustomization. -/
def Unattributed (kustomize : Kustomize) : Prop :=
  ∀ files, (∀ f ∈ files, isKustomizationFile f.path = false) →
    ∀ key, kustomize.attribution files key = {}

def servedAs (lookup : Lookup) (id : Identity) : Option ResourceIdentifier :=
  (Context.resolveMapping ⟨lookup, ∅, [], [], fun _ => {}⟩ id).2

variable {d : Document} {p : Path}

theorem claimAt_eq_some {id : Identity} (h : claimAt p d = some id) :
    ∃ n, d = .node n ∧ n.identity = id ∧ id.Complete ∧ n.mapping = true ∧ n.disallowed = none ∧
      (isSOPSFile p = true → n.sops = true) := by
  cases d with
  | blank text | comment text | invalid error text => cases h
  | node n =>
    simp only [claimAt] at h
    split_ifs at h with hopen
    obtain ⟨hid, hcomplete⟩ := identityFromNode_eq_some h
    have hmap : n.mapping = true := by
      simp only [identityFromNode] at h
      split_ifs at h with hheader
      simp only [Bool.and_eq_true] at hheader
      exact hheader.1.1.1
    simp only [Bool.and_eq_true, Option.isNone_iff_eq_none, Bool.or_eq_true, Bool.not_eq_true'] at hopen
    refine ⟨n, rfl, hid, hcomplete, hmap, hopen.1, fun hsops => ?_⟩
    exact hopen.2.resolve_left (by simp [hsops])

theorem claimAt_of_node (hmap : n.mapping = true) (hcomplete : n.identity.Complete)
    (hdisallow : n.disallowed = none)
    (hsops : isSOPSFile p = true → n.sops = true) : claimAt p (.node n) = some n.identity := by
  have hopen : (n.disallowed.isNone && (!isSOPSFile p || n.sops)) = true := by
    cases hpath : isSOPSFile p with
    | false => simp [hdisallow]
    | true => simp [hdisallow, hsops hpath]
  rw [claimAt, if_pos hopen]
  exact identityFromNode_of_complete hmap hcomplete

def recordAt (p : Path) (i : Nat) (id : Identity) : DocumentRecord :=
  ⟨id, ⟨p, i⟩, true, "", isSOPSFile p⟩

theorem indexDocument_of_claimAt {id : Identity} (h : claimAt p d = some id)
    (i : Nat) : indexDocument p i d = ([recordAt p i id], []) := by
  obtain ⟨n, rfl, rfl, hcomplete, hmap, hdisallow, hsops⟩ := claimAt_eq_some h
  simp only [indexDocument, identityFromNode_of_complete hmap hcomplete, hdisallow]
  cases hpath : isSOPSFile p with
  | false => simp [recordAt, hpath]
  | true => simp [recordAt, hpath, hsops hpath]

theorem diagnosis_of_claimAt {id : Identity} (h : claimAt p d = some id) : diagnosis p d = none :=
  diagnosis_of_head (r := recordAt p 0 id) (i := 0) (by rw [indexDocument_of_claimAt h]; rfl)

theorem carries_iff_claimAt {id id' : Identity}
    (h : claimAt p d = some id) : carries p id' d = true ↔ id = id' := by
  rw [carries, indexDocument_of_claimAt h]
  simp [recordAt]

/-! ### Paths and placements -/

theorem properPath_iff : properPath p = true ↔
    p ≠ [] ∧ p.head? ≠ some '/' ∧ pathClean p = p ∧ p ≠ dot ∧ escapes p = false := by
  simp [properPath, and_assoc]

theorem properPath_of_valid (h : validateResolvedPlacementPath p = true) : properPath p = true := by
  simp only [validateResolvedPlacementPath, Bool.and_eq_true, decide_eq_true_eq, Bool.not_eq_true'] at h
  obtain ⟨⟨⟨hne, -, hhead, hclean, hdot⟩, hescape⟩, -⟩ := h
  exact properPath_iff.mpr ⟨hne, hhead, hclean, hdot, hescape⟩

theorem relUnder_nil (h : properPath p = true) : relUnder [] p = p := by
  obtain ⟨-, -, hclean, hdot, -⟩ := properPath_iff.mp h
  have hroot : cleanSlash [] = [] := by decide
  have hpath : cleanSlash p = p := by simp [cleanSlash, hclean, hdot]
  simp [relUnder, hroot, hpath]

theorem not_ignored_of_reads
    (hproper : properPath p = true) (hread : ({} : Scope).reads nameMatch folder p = true)
    (hall : allows p = false) :
    (({} : Scope).scan nameMatch folder).ignore.matches nameMatch p false = false := by
  have hspec : ({} : Scope).readsSpec nameMatch folder p = true := by
    simpa [Scope.reads] using hread
  simp only [Scope.readsSpec, Folder.reads, Scope.rel, relUnder_nil hproper, Bool.and_eq_true,
    decide_eq_true_eq] at hspec
  have hrole := hspec.2.2
  -- the artifacts that are YAML files are kustomizations, which `allows` rules out
  have hartifact : isRecognizedArtifact p = true → isYAMLFile p = false := by
    intro hname
    simp only [isRecognizedArtifact, decide_eq_true_eq, List.mem_cons, List.not_mem_nil,
      or_false] at hname
    simp only [allows, decide_eq_false_iff_not, List.mem_cons, List.not_mem_nil, or_false,
      not_or] at hall
    rcases hname with hname | hname | hname | hname
    · rw [← isYAMLFile_filepathBase, hname]
      decide
    · exact absurd hname hall.2.2
    · exact absurd hname hall.1
    · exact absurd hname hall.2.1
  show (({} : Scope).specFolder folder).ignore.1.matches nameMatch p false = false
  simp only [classifyEntry] at hrole
  split_ifs at hrole with _ hname hyaml hmatch
  · rw [hartifact hname] at hyaml
    cases hyaml
  · simpa using hmatch

theorem cohortDestination_uninherited (hmem : ∀ dm ∈ members, dm.namespaceInherited = false)
    (h : cohortDestination store members req namespaceAgnostic = some x) : x.2 = false := by
  have hhead : ∀ l : List DocumentModel, (∀ dm ∈ l, dm ∈ members) →
      l.head?.any DocumentModel.namespaceInherited = false := by
    intro l hl
    cases l with
    | nil => rfl
    | cons dm rest => exact hmem dm (hl dm List.mem_cons_self)
  unfold cohortDestination at h
  extract_lets inFile files bundles singles dirs best at h
  split_ifs at h
  · cases h
    exact hhead _ (fun dm hdm => (List.mem_filter.mp hdm).1)
  · obtain ⟨dir, -, rfl⟩ := Option.map_eq_some_iff.mp h
    refine hhead _ (fun dm hdm => ?_)
    obtain ⟨p, -, hp⟩ := List.mem_flatMap.mp hdm
    exact (List.mem_filter.mp hp).1

theorem locateNew_uninherited
    (hdocs : ∀ dm ∈ store.documents, dm.namespaceInherited = false) (hkust : store.kusts = ∅)
    (h : locateNew store policy req = .ok placement) : placement.namespaceInherited = false := by
  have hinfer : ∀ x, resolveInferred store req = some x → x.2 = false := by
    intro x hx
    have hcohort : ∀ matchNamespace dm, dm ∈ (if req.writeScope = [] then
        store.cohortMembers req.identifier matchNamespace req.sensitive
        else (store.cohortMembers req.identifier matchNamespace req.sensitive).filter
          (fun dm => pathWithin dm.file req.writeScope)) → dm.namespaceInherited = false := by
      intro matchNamespace dm hdm
      refine hdocs dm ?_
      split_ifs at hdm
      · exact (List.mem_filter.mp hdm).1
      · exact (List.mem_filter.mp (List.mem_filter.mp hdm).1).1
    rcases Option.or_eq_some_iff.mp hx with hx | ⟨-, hx⟩
    · exact cohortDestination_uninherited (hcohort true) hx
    · exact cohortDestination_uninherited (hcohort false) hx
  have hroot : resolveKustomizeRoot store req = none := by
    rw [resolveKustomizeRoot, hkust]
    rfl
  -- the four mechanisms in turn
  have hres : ((((resolveDeclared policy req).map (·, false)).or
      (resolveInferred store req)).or (resolveKustomizeRoot store req) |>.getD
        (canonicalPath req, false)).2 = false := by
    rw [hroot, Option.or_none]
    cases hdeclare : resolveDeclared policy req with
    | some path => rfl
    | none =>
      cases hsibling : resolveInferred store req with
      | some x => exact hinfer x hsibling
      | none => rfl
  rw [locateNew, finishPlacement] at h
  dsimp only at h
  split_ifs at h
  cases h
  exact hres

/-! ## 2. Scanning -/

section Scanning

variable {tools : Tools} {lookup : Lookup} {folder : Folder} {policy : Option PlacementPolicy}
  {pruneMode : PruneMode} {s : Setting}
  (hs : s = newWriteBatch tools lookup {} folder policy pruneMode)
  (hplain : PlainFiles (fun p => s.contentByPath.lookup p)) (hnone : Unattributed tools.kustomize)

def Setting.shelf (s : Setting) : Path → Content := standing (fun p => s.contentByPath.lookup p)

def modelAt (tools : Tools) (lookup : Lookup) (folder : Folder) (p : Path) (i : Nat)
    (id : Identity) : DocumentModel :=
  (scanContext tools lookup {} folder).materialize (recordAt p i id)

section Context

include hs hplain

theorem yamlFiles_direct (hf : f ∈ (({} : Scope).scan tools.nameMatch folder).yamlFiles) :
    isKustomizationFile f.path = false :=
  (hplain f.path f.content ((mem_yamlFiles_iff hs).mp hf)).direct

theorem scanContext_kusts : (scanContext tools lookup {} folder).kusts = ∅ := by
  have hfile : ((({} : Scope).scan tools.nameMatch folder).yamlFiles.filter
      (fun f => isKustomizationFile f.path)) = [] :=
    List.filter_eq_nil_iff.mpr (fun f hf => by simp [yamlFiles_direct hs hplain hf])
  simp only [scanContext, contextOf, parseKustomizations, hfile]
  rfl

theorem kusts_eq_empty : s.store.kusts = ∅ := by
  have h := scanContext_kusts hs hplain
  subst hs
  exact h

theorem manages_iff_plain : (scanContext tools lookup {} folder).manages p = !allows p := by
  have hpatch : (scanContext tools lookup {} folder).patchFiles = [] := by
    show patchFilesOf (scanContext tools lookup {} folder).kusts = []
    rw [scanContext_kusts hs hplain]
    rfl
  simp [Context.manages, hpatch]

theorem resolveNamespace_plain (p : Path) (id : Identity) :
    ((scanContext tools lookup {} folder).resolveNamespace p id).1 = id ∧
      ∀ source, ((scanContext tools lookup {} folder).resolveNamespace p id).2 ≠ .kustomize source := by
  rcases resolveNamespace_cases (scanContext tools lookup {} folder) p id with
    h | ⟨ns, source, hns, hne, h⟩
  · exact h
  · -- there is no kustomization to hand one down
    have hassign : (scanContext tools lookup {} folder).assignmentsIn
        (sortPaths (scanContext tools lookup {} folder).kusts.keys) (filepathToSlash p) = [] := by
      simp only [Context.assignmentsIn, scanContext_kusts hs hplain]
      rfl
    have hsource := congrArg Prod.snd h
    simp only [Context.resolveNamespace, Context.resolveNamespaceIn, hassign] at hsource
    split_ifs at hsource
    split at hsource
    · cases hsource
    · split_ifs at hsource

theorem modelAt_identity (p : Path) (i : Nat) (id : Identity) :
    (modelAt tools lookup folder p i id).identity = id ∧
      (modelAt tools lookup folder p i id).namespaceInherited = false := by
  obtain ⟨hid, hsource⟩ := resolveNamespace_plain hs hplain p id
  refine ⟨hid, ?_⟩
  rw [Bool.eq_false_iff]
  intro hinherit
  obtain ⟨source, h⟩ := DocumentModel.namespaceInherited_iff.mp hinherit
  exact hsource source h

theorem modelAt_resource (p : Path) (i : Nat) (id : Identity) :
    (modelAt tools lookup folder p i id).resource = servedAs lookup id := by
  have hmap : ∀ ctx : Context, ctx.lookup = lookup →
      (ctx.resolveMapping id).2 = servedAs lookup id := by
    rintro ctx rfl
    rfl
  simp only [modelAt, Context.materialize, recordAt, (resolveNamespace_plain hs hplain p id).1]
  exact hmap _ rfl

include hnone in
theorem modelAt_ungoverned (p : Path) (i : Nat) (id : Identity) :
    (modelAt tools lookup folder p i id).overrides = false ∧
      (modelAt tools lookup folder p i id).rendered = none ∧
      (modelAt tools lookup folder p i id).ambiguous = false := by
  have hattribution : ∀ key, (scanContext tools lookup {} folder).attribution key = {} :=
    hnone _ (fun f hf => yamlFiles_direct hs hplain hf)
  simp only [modelAt, Context.materialize, hattribution]
  simp

end Context

theorem modelAt_claims (p : Path) (i : Nat) (id : Identity) :
    (modelAt tools lookup folder p i id).claimsIdentity = true := by
  by_cases hpath : isSOPSFile p = true <;>
    simp [modelAt, Context.materialize, DocumentModel.claimsIdentity, causeFor, recordAt, hpath]

include hs hplain

theorem mem_documents_plain {dm : DocumentModel} :
    dm ∈ s.store.documents ↔ ∃ p i d id, (s.shelf p)[i]? = some d ∧ identityAt p d = some id ∧
      dm = modelAt tools lookup folder p i id := by
  have hmem : dm ∈ (newWriteBatch tools lookup {} folder policy pruneMode).store.documents ↔ _ :=
    mem_documents
  rw [← hs] at hmem
  rw [hmem]
  constructor
  · rintro ⟨f, r, hread, hr, hmanage, rfl⟩
    rw [manages_iff_plain hs hplain, Bool.not_eq_true'] at hmanage
    obtain ⟨d, i, hd, r₀, hr₀, rfl⟩ := mem_indexOneFile.mp hr
    rw [List.mem_zipIdx_iff_getElem?] at hd
    obtain ⟨id, hid⟩ := Option.ne_none_iff_exists'.mp
      (((hplain f.path f.content hread).claimed hmanage).2 d (List.mem_of_getElem? hd))
    rw [indexDocument_of_claimAt hid] at hr₀
    obtain rfl := Option.some.inj hr₀
    refine ⟨f.path, i, d, id, ?_, by rw [identityAt, hmanage]; exact hid, rfl⟩
    simp only [Setting.shelf, standing, hread, Option.getD_some]
    exact hd
  · rintro ⟨p, i, d, id, hd, hid, rfl⟩
    cases hread : s.contentByPath.lookup p with
    | none => simp [Setting.shelf, standing, hread] at hd
    | some c =>
      simp only [Setting.shelf, standing, hread, Option.getD_some] at hd
      rw [identityAt] at hid
      split_ifs at hid with hall
      refine ⟨⟨p, c⟩, recordAt p i id, hread, ?_, ?_, rfl⟩
      · refine mem_indexOneFile.mpr
          ⟨d, i, List.mem_zipIdx_iff_getElem?.mpr hd, recordAt p 0 id, ?_, rfl⟩
        rw [indexDocument_of_claimAt hid]
        rfl
      · rw [manages_iff_plain hs hplain]
        simp [hall]

variable {id : Identity}

theorem mem_held_plain : (id, d) ∈ s.held ↔ Holds identityAt s.shelf id d := by
  simp only [Setting.held, List.mem_filterMap]
  constructor
  · rintro ⟨dm, hdm, hx⟩
    obtain ⟨p, i, d', id', hd', hid', rfl⟩ := (mem_documents_plain hs hplain).mp hdm
    rw [Option.map_eq_some_iff] at hx
    obtain ⟨d'', hd'', hx⟩ := hx
    obtain ⟨hid, hd⟩ := Prod.mk.inj hx
    rw [(modelAt_identity hs hplain p i id').1] at hid
    subst hid hd
    have hsame : (s.shelf p)[i]? = some d'' := by
      cases hread : s.contentByPath.lookup p with
      | none => simp [modelAt, Context.materialize, recordAt, hread] at hd''
      | some c =>
        simp only [modelAt, Context.materialize, recordAt, hread, Option.bind_some] at hd''
        simp only [Setting.shelf, standing, hread, Option.getD_some]
        exact hd''
    obtain rfl := Option.some.inj (hd'.symm.trans hsame)
    exact ⟨p, List.mem_of_getElem? hd', hid'⟩
  · rintro ⟨p, hd, hid⟩
    obtain ⟨i, hi⟩ := List.mem_iff_getElem?.mp hd
    refine ⟨modelAt tools lookup folder p i id,
      (mem_documents_plain hs hplain).mpr ⟨p, i, d, id, hi, hid, rfl⟩, ?_⟩
    rw [(modelAt_identity hs hplain p i id).1]
    cases hread : s.contentByPath.lookup p with
    | none => simp [Setting.shelf, standing, hread] at hd
    | some c =>
      simp only [Setting.shelf, standing, hread, Option.getD_some] at hi
      simp [modelAt, Context.materialize, recordAt, hread, hi]

/-! ### Acceptance -/

theorem single_iff_unique : Single identityAt s.shelf ↔
    ∀ dm ∈ s.store.documents, ∀ dm' ∈ s.store.documents, dm.claimsIdentity = true →
      dm'.claimsIdentity = true → dm.identity = dm'.identity → dm = dm' := by
  constructor
  · intro hsingle dm hdm dm' hdm' _ _ heq
    obtain ⟨p, i, d, id, hd, hid, rfl⟩ := (mem_documents_plain hs hplain).mp hdm
    obtain ⟨p', i', d', id', hd', hid', rfl⟩ := (mem_documents_plain hs hplain).mp hdm'
    rw [(modelAt_identity hs hplain p i id).1, (modelAt_identity hs hplain p' i' id').1] at heq
    subst heq
    obtain rfl := (hsingle id).place p p' (countP_pos_of_mem (List.mem_of_getElem? hd) hid)
      (countP_pos_of_mem (List.mem_of_getElem? hd') hid')
    obtain rfl := countP_le_one_iff.mp ((hsingle id).once p) i i' d d' hd hd' (by simpa using hid)
      (by simpa using hid')
    rfl
  · intro hunique id
    -- two places would be the places of two models
    have hplace : ∀ (p p' : Path) (i i' : Nat) (d d' : Document),
        (s.shelf p)[i]? = some d → (s.shelf p')[i']? = some d' →
        identityAt p d = some id → identityAt p' d' = some id → p = p' ∧ i = i' := by
      intro p p' i i' d d' hd hd' hid hid'
      have hsame := hunique _ ((mem_documents_plain hs hplain).mpr ⟨p, i, d, id, hd, hid, rfl⟩) _
        ((mem_documents_plain hs hplain).mpr ⟨p', i', d', id, hd', hid', rfl⟩)
        (modelAt_claims p i id) (modelAt_claims p' i' id)
        ((modelAt_identity hs hplain p i id).1.trans (modelAt_identity hs hplain p' i' id).1.symm)
      exact ⟨congrArg DocumentModel.file hsame, congrArg DocumentModel.index hsame⟩
    refine ⟨fun p => countP_le_one_iff.mpr (fun i j a b ha hb hpa hpb => ?_), fun p q hp hq => ?_⟩
    · exact (hplace p p i j a b ha hb (by simpa using hpa) (by simpa using hpb)).2
    · obtain ⟨a, ha, hpa⟩ := List.countP_pos_iff.mp hp
      obtain ⟨b, hb, hpb⟩ := List.countP_pos_iff.mp hq
      obtain ⟨i, hi⟩ := List.mem_iff_getElem?.mp ha
      obtain ⟨j, hj⟩ := List.mem_iff_getElem?.mp hb
      exact (hplace p q i j a b hi hj (by simpa using hpa) (by simpa using hpb)).1

theorem accepted_plain_iff : s.store.Accepted ↔
    Single identityAt s.shelf ∧ s.store.foreign = [] ∧ s.store.ignoreIssues = [] := by
  rw [accepted_iff hs]
  constructor
  · intro h
    exact ⟨(single_iff_unique hs hplain).mpr h.unique, h.native, h.ignore⟩
  · rintro ⟨hsingle, hforeign, hissue⟩
    refine ⟨(single_iff_unique hs hplain).mp hsingle, ?_, ?_, ?_, hforeign, hissue⟩
    · intro p c hc hall d hd r hr
      obtain ⟨id, hid⟩ := Option.ne_none_iff_exists'.mp (((hplain p c hc).claimed hall).2 d hd)
      rw [diagnosis_of_claimAt hid] at hr
      cases hr
    · intro p c hc hall
      exact (hplain p c hc).retained hall
    · intro p c hc _
      simp [retainFile, (hplain p c hc).direct]

/-! ### Finding a document -/

theorem byManifestIdentity_of_standing (hsingle : Single identityAt s.shelf)
    (hd : (s.shelf p)[i]? = some d) (hid : identityAt p d = some id) :
    s.store.byManifestIdentity id = some (modelAt tools lookup folder p i id) := by
  have hmem := (mem_documents_plain hs hplain).mpr ⟨p, i, d, id, hd, hid, rfl⟩
  have hmod := (modelAt_identity hs hplain p i id).1
  cases hfound : s.store.byManifestIdentity id with
  | none =>
    have hmiss := List.find?_eq_none.mp hfound _ hmem
    simp [modelAt_claims, hmod] at hmiss
  | some dm =>
    have hdm := List.find?_some hfound
    simp only [Bool.and_eq_true, decide_eq_true_eq] at hdm
    rw [(single_iff_unique hs hplain).mp hsingle dm (List.mem_of_find?_eq_some hfound) _ hmem hdm.1
      (modelAt_claims p i id) (hdm.2.trans hmod.symm)]

theorem byManifestIdentity_of_free (hfree : ∀ d, ¬ Holds identityAt s.shelf id d) :
    s.store.byManifestIdentity id = none := by
  refine List.find?_eq_none.mpr (fun dm hdm hmatch => ?_)
  obtain ⟨p, i, d, id', hd, hid, rfl⟩ := (mem_documents_plain hs hplain).mp hdm
  simp only [Bool.and_eq_true, decide_eq_true_eq, (modelAt_identity hs hplain p i id').1] at hmatch
  obtain ⟨-, rfl⟩ := hmatch
  exact hfree d ⟨p, List.mem_of_getElem? hd, hid⟩

theorem not_isDuplicate (hsingle : Single identityAt s.shelf)
    (hdm : dm ∈ s.store.documents) : s.store.isDuplicate dm = false := by
  obtain ⟨p, i, d, id, hd, hid, rfl⟩ := (mem_documents_plain hs hplain).mp hdm
  simp only [ManifestStore.isDuplicate, (modelAt_identity hs hplain p i id).1,
    byManifestIdentity_of_standing hs hplain hsingle hd hid]
  simp

theorem planDelete_plain (hsole : ∀ dm ∈ s.store.documents, dm.resource = some r → dm.identity = id)
    (h : s.store.planDelete r = some a) :
    ∃ (p : Path) (i : Nat) (d : Document), (s.shelf p)[i]? = some d ∧ identityAt p d = some id ∧
      a.file = p ∧ a.identity = id := by
  simp only [ManifestStore.planDelete] at h
  split at h
  · cases h
  · rename_i dm hfound
    split_ifs at h
    cases h
    have hmem := List.mem_filter.mp (List.mem_of_getLast? hfound)
    simp only [Bool.and_eq_true, decide_eq_true_eq] at hmem
    have hidentity := hsole dm hmem.1 hmem.2.2
    obtain ⟨p, i, d, id', hd, hid, rfl⟩ := (mem_documents_plain hs hplain).mp hmem.1
    rw [(modelAt_identity hs hplain p i id').1] at hidentity
    subst hidentity
    exact ⟨p, i, d, hd, hid, rfl, (modelAt_identity hs hplain p i id').1⟩

theorem planDelete_of_standing (hsingle : Single identityAt s.shelf) (hd : (s.shelf p)[i]? = some d)
    (hid : identityAt p d = some id) (hr : (modelAt tools lookup folder p i id).resource = some r) :
    s.store.planDelete r ≠ none := by
  have hmem := (mem_documents_plain hs hplain).mpr ⟨p, i, d, id, hd, hid, rfl⟩
  have hwin : modelAt tools lookup folder p i id ∈ s.store.documents.filter (fun dm =>
      dm.claimsIdentity && !s.store.isDuplicate dm && dm.resource = some r) := by
    refine List.mem_filter.mpr ⟨hmem, ?_⟩
    simp [modelAt_claims, not_isDuplicate hs hplain hsingle hmem, hr]
  simp only [ManifestStore.planDelete, ManifestStore.byResourceIdentity]
  split
  · rename_i hnil
    rw [List.getLast?_eq_none_iff] at hnil
    rw [hnil] at hwin
    cases hwin
  · rename_i dm hfound
    have hcollide : s.store.collided dm.identity = false := by
      refine List.any_eq_false.mpr (fun dm' hdm' => ?_)
      simp [not_isDuplicate hs hplain hsingle hdm']
    simp [hcollide]

/-! ### Placing a document -/

theorem fileIsAppendSafe_plain (hallowed : allows p = false) :
    s.store.fileIsAppendSafe p = (s.contentByPath.lookup p).isSome := by
  have hmod : ∀ dm ∈ s.store.fileDocuments p, dm.claimsIdentity = true ∧
      (s.contentByPath.lookup p).isSome = true := by
    intro dm hdm
    obtain ⟨hdm, hfile⟩ := List.mem_filter.mp hdm
    obtain ⟨q, i, d, id, hd, -, rfl⟩ := (mem_documents_plain hs hplain).mp hdm
    obtain rfl : q = p := of_decide_eq_true hfile
    refine ⟨modelAt_claims q i id, ?_⟩
    cases hread : s.contentByPath.lookup q with
    | none => simp [Setting.shelf, standing, hread] at hd
    | some c => rfl
  cases hread : s.contentByPath.lookup p with
  | none =>
    have hnil : s.store.fileDocuments p = [] := by
      refine List.eq_nil_iff_forall_not_mem.mpr (fun dm hdm => ?_)
      have := (hmod dm hdm).2
      rw [hread] at this
      cases this
    simp [ManifestStore.fileIsAppendSafe, hnil]
  | some c =>
    -- every file holds a document
    obtain ⟨hne, hclaim⟩ := (hplain p c hread).claimed hallowed
    obtain ⟨d, rest, rfl⟩ := List.exists_cons_of_ne_nil hne
    obtain ⟨id, hid⟩ := Option.ne_none_iff_exists'.mp (hclaim d List.mem_cons_self)
    have hmem : modelAt tools lookup folder p 0 id ∈ s.store.fileDocuments p := by
      refine List.mem_filter.mpr ⟨(mem_documents_plain hs hplain).mpr ⟨p, 0, d, id, ?_, ?_, rfl⟩, ?_⟩
      · simp [Setting.shelf, standing, hread]
      · simp [identityAt, hallowed, hid]
      · simp [modelAt, Context.materialize, recordAt]
    have hall : (s.store.fileDocuments p).all DocumentModel.claimsIdentity = true :=
      List.all_eq_true.mpr (fun dm hdm => (hmod dm hdm).1)
    simp [ManifestStore.fileIsAppendSafe, hall, List.ne_nil_of_mem hmem]

/-- A document is placed by itself: no kustomization is to list it or to name its namespace. -/
theorem locateNew_plain (h : locateNew s.store policy req = .ok placement) :
    placement.kustomization = none ∧ placement.namespaceInherited = false := by
  have hkust := kusts_eq_empty hs hplain
  constructor
  · cases hk : placement.kustomization with
    | none => rfl
    | some k =>
      obtain ⟨-, dir, hdir⟩ := (locateNew_ok h).2.2.2 k hk
      rw [hkust] at hdir
      cases hdir
  · refine locateNew_uninherited (fun dm hdm => ?_) hkust h
    obtain ⟨p, i, d, id, -, -, rfl⟩ := (mem_documents_plain hs hplain).mp hdm
    exact (modelAt_identity hs hplain p i id).2

/-! ### Flushing -/

include hnone in
theorem permitted_plain (hflag : b.putToKustomize = false)
    (hchange : ∀ p, s.current b p ≠ s.contentByPath.lookup p →
      properPath p = true ∧ ({} : Scope).reads tools.nameMatch folder p = true ∧ allows p = false) :
    Permitted s b := by
  have hsub : s.writeSubdir = [] := by
    subst hs
    rfl
  refine ⟨fun p hp => ?_, fun p hp => ?_, fun p hp => ?_, fun hput => ?_⟩
  · obtain ⟨hproper, hread, hall⟩ := hchange p hp
    rw [hsub, relUnder_nil hproper]
    have hmatch := not_ignored_of_reads hproper hread hall
    subst hs
    exact hmatch
  · obtain ⟨hproper, -⟩ := hchange p hp
    obtain ⟨hne, hhead, hclean, -, hescape⟩ := properPath_iff.mp hproper
    simp [Setting.writePathEscapesScope, hne, hhead, hclean, hescape, hsub]
  · have hfan : s.store.fanIn = [] := by
      have hctx := scanContext_kusts hs hplain
      subst hs
      show renderRootFanIn (scanContext tools lookup {} folder).kusts = []
      rw [hctx]
      rfl
    have hambiguous : s.store.overridesAmbiguousAt p = false := by
      refine List.any_eq_false.mpr (fun dm hdm => ?_)
      obtain ⟨q, i, d, id, -, -, rfl⟩ := (mem_documents_plain hs hplain).mp hdm
      simp [(modelAt_ungoverned hs hplain hnone q i id).2.2]
    simp [ManifestStore.reachedByMultipleRenderRoots, hfan, hambiguous]
  · rw [hflag] at hput
    cases hput

end Scanning

end GitopsReverser.Flush
