import GitopsReverser.Reasoning.Erasure
import GitopsReverser.Flush.Scope

/-!
# ResyncDeletion — whether a sweep removes what its plan names

The plan names a document by its effective identity; `dropDocument` looks for that identity in the
bytes of the file, and takes the first document that carries it. Per file the sweep is one erasure
after another, so the general result about such erasures (`eraseEach_faithful_iff`) settles what is
removed and what stays.
-/

namespace GitopsReverser.Flush

open Reasoning Manifest
open Git (Path PruneMode)

/-! ## 1. The sweep of one file -/

section Sweep

variable {s : Setting} {b : Batch}

def Setting.documentsAt (s : Setting) (b : Batch) (p : Path) : Content :=
  decoded ((s.current b p).getD [])

theorem current_dropDocument_of_ne {id : Identity} (h : q ≠ p) :
    s.current (s.dropDocument b p id) q = s.current b q := by
  unfold Setting.dropDocument
  split
  · rfl
  · split
    · rfl
    · rw [current_set, if_neg h]

theorem documentsAt_dropDocument (p : Path) (id : Identity) :
    s.documentsAt (s.dropDocument b p id) p = (s.documentsAt b p).eraseP (carries p id) := by
  unfold Setting.documentsAt Setting.dropDocument
  cases hcur : s.current b p with
  | none => simp [hcur, decoded]
  | some cur =>
    rw [Option.getD_some, ← decoded_eraseP, List.eraseP_eq_eraseIdx]
    simp only [currentDocIndex_eq]
    cases content : cur.findIdx? (carries p id) with
    | none => simp [hcur]
    | some i => simp [decoded_deleteDocument]

theorem current_dropAll_of_notMem {p : Path}
    (h : ∀ a ∈ drops, a.file ≠ p) : s.current (s.dropAll b drops) p = s.current b p := by
  induction drops generalizing b with
  | nil => rfl
  | cons a drops ih =>
    refine (ih (fun a' ha' => h a' (List.mem_cons_of_mem a ha'))).trans ?_
    exact current_dropDocument_of_ne (h a (by simp)).symm

def sought (drops : List PlanAction) (p : Path) : List (Document → Bool) :=
  (drops.filter (fun a => a.file = p)).map (fun a => carries p a.identity)

theorem documentsAt_dropAll (drops : List PlanAction) (p : Path) :
    s.documentsAt (s.dropAll b drops) p = eraseEach (sought drops p) (s.documentsAt b p) := by
  induction drops generalizing b with
  | nil => rfl
  | cons a drops ih =>
    refine ih.trans ?_
    by_cases hp : a.file = p
    · subst hp
      rw [documentsAt_dropDocument]
      simp [sought, eraseEach]
    · have hsame : s.documentsAt (s.dropDocument b a.file a.identity) p = s.documentsAt b p := by
        rw [Setting.documentsAt, current_dropDocument_of_ne (Ne.symm hp), Setting.documentsAt]
      rw [hsame]
      simp [sought, hp]

end Sweep

/-! ## 2. The drops of a plan -/

section Drops

variable {tools : Tools} {lookup : Lookup} {scope : Scope} {folder : Folder}
  {policy : Option PlacementPolicy} {pruneMode : PruneMode} {s : Setting}

variable (hs : s = newWriteBatch tools lookup scope folder policy pruneMode)

include hs

theorem documents_nodup :
    s.store.documents.Nodup := by
  subst hs
  simp only [newWriteBatch, buildStore]
  -- the files have different paths, and the records of a file different indexes
  refine List.pairwise_map.mpr (((recordsOf_sorted scan_sorted).filter _).imp (fun hbefore heq => ?_))
  have hfile := congrArg DocumentModel.file heq
  exact absurd (congrArg DocumentModel.index heq) (hbefore.2 hfile).ne

theorem dropOrphans_pairwise
    (desired : List DesiredResource) (inScope : ResourceIdentifier → Bool) (sweeps : Bool) :
    (s.store.dropOrphans desired inScope sweeps).Pairwise (fun a a' => a.identity ≠ a'.identity) := by
  rw [ManifestStore.dropOrphans, List.pairwise_filterMap]
  refine (documents_nodup hs).imp_of_mem (fun hmem hmem' hne a ha a' ha' heq => ?_)
  obtain ⟨hfree, hclaim, -, rfl⟩ := ManifestStore.planGitOnly_eq_some ha
  obtain ⟨hfree', hclaim', -, rfl⟩ := ManifestStore.planGitOnly_eq_some ha'
  -- each of the two wins its identity
  have hwins : ∀ dm ∈ s.store.documents, s.store.collided dm.identity = false →
      dm.claimsIdentity = true → s.store.byManifestIdentity dm.identity = some dm := by
    intro dm hdm hcollide hclaims
    refine ManifestStore.winner_of_not_isDuplicate hclaims ?_
    simpa using List.any_eq_false.mp hcollide dm hdm
  have hfirst := hwins _ hmem hfree hclaim
  have hsecond := hwins _ hmem' hfree' hclaim'
  dsimp only at heq
  rw [heq, hsecond] at hfirst
  exact hne (Option.some.inj hfirst).symm

end Drops

/-! ## 3. The documents the next scan finds -/

/-- The resource of a document in this file, if it has one: `materialize` asks the header only. -/
def documentResource (ctx : Context) (p : Path) (d : Document) : Option ResourceIdentifier :=
  (indexDocument p 0 d).1.head?.bind (fun r => (ctx.materialize r).resource)

theorem documentResource_of_carries {id : Identity} (h : carries p id d = true) :
    documentResource ctx p d = (ctx.resolveMapping (ctx.resolveNamespace p id).1).2 := by
  obtain ⟨r, hr, -, hid⟩ := exists_record_of_carries h
  simp only [documentResource, hr, Option.bind_some, Context.materialize,
    path_of_head_indexDocument hr, hid]

theorem carries_exclusive {id id' : Identity} (hne : id ≠ id')
    (h : carries p id d = true) : carries p id' d = false := by
  obtain ⟨r, hr, -, hid⟩ := exists_record_of_carries h
  by_contra h'
  obtain ⟨r', hr', -, hid'⟩ := exists_record_of_carries (by simpa using h')
  rw [hr, Option.some.injEq] at hr'
  exact hne (by rw [← hid, ← hid', hr'])

section Rescan

variable (tools : Tools) (lookup : Lookup) (scope : Scope) (folder : Folder)

def doomed (drops : List PlanAction) (p : Path) (d : Document) : Bool :=
  scope.reads tools.nameMatch folder p && (scanContext tools lookup scope folder).manages p &&
    drops.any (fun a => documentResource (scanContext tools lookup scope folder) p d = some a.resource)

variable {tools lookup scope folder}

/-- A managed document is judged by its header, wherever in its file it stands. -/
def Placeless (ctx : Context) (Q : DocumentModel → Bool) : Prop :=
  ∀ r i, Q (ctx.materialize { r with location := ⟨r.location.path, i⟩ }) = Q (ctx.materialize r)

def judged (tools : Tools) (lookup : Lookup) (scope : Scope) (folder : Folder)
    (Q : DocumentModel → Bool) (p : Path) (d : Document) : Bool :=
  scope.reads tools.nameMatch folder p && (scanContext tools lookup scope folder).manages p &&
    (indexDocument p 0 d).1.head?.any (fun r => Q ((scanContext tools lookup scope folder).materialize r))

theorem no_document_iff (policy : Option PlacementPolicy) (pruneMode : PruneMode)
    (hQ : Placeless (scanContext tools lookup scope folder) Q) :
    (∀ dm ∈ (newWriteBatch tools lookup scope folder policy pruneMode).store.documents, Q dm = false) ↔
      ∀ p, ∀ d ∈ decoded ((folder.yaml.lookup p).getD []),
        judged tools lookup scope folder Q p d = false := by
  constructor
  · intro hnone p d hd
    by_contra hjudge
    simp only [judged, Bool.not_eq_false, Bool.and_eq_true, Option.any_eq_true] at hjudge
    obtain ⟨⟨hreads, hmanage⟩, r, hr, hQr⟩ := hjudge
    cases hc : folder.yaml.lookup p with
    | none => simp [hc, decoded] at hd
    | some c =>
      rw [hc, Option.getD_some] at hd
      obtain ⟨i, hi⟩ := List.mem_iff_getElem?.mp (List.mem_filter.mp hd).1
      have hpath := path_of_head_indexDocument hr
      have hdm := hnone ((scanContext tools lookup scope folder).materialize
        { r with location := ⟨r.location.path, i⟩ })
        (mem_documents.mpr ⟨⟨p, c⟩, _, by rw [lookup_contentByPath, if_pos hreads, hc],
          mem_indexOneFile.mpr ⟨d, i, List.mem_zipIdx_iff_getElem?.mpr hi, r, hr, by rw [hpath]⟩,
          hmanage, rfl⟩)
      rw [hQ r i, hQr] at hdm
      cases hdm
  · intro hclean dm hdm
    obtain ⟨f, r, hread, hr, hmanage, rfl⟩ := mem_documents.mp hdm
    obtain ⟨d, i, hd, r₀, hr₀, rfl⟩ := mem_indexOneFile.mp hr
    rw [lookup_contentByPath] at hread
    split_ifs at hread with hreads
    have hmem : d ∈ decoded ((folder.yaml.lookup f.path).getD []) := by
      rw [hread, Option.getD_some]
      refine List.mem_filter.mpr ⟨List.mem_of_getElem? (List.mem_zipIdx_iff_getElem?.mp hd), ?_⟩
      cases d with
      | blank text => simp [indexDocument] at hr₀
      | comment text | invalid error text | node n => rfl
    have hjudge := hclean f.path d hmem
    simp only [judged, hreads, hmanage, hr₀, Bool.true_and, Option.any_some] at hjudge
    have hplain := hQ r₀ i
    rw [path_of_head_indexDocument hr₀] at hplain
    rw [hplain, hjudge]

theorem no_managed_document_iff :
    (∀ a ∈ drops, ∀ dm ∈ (newWriteBatch tools lookup scope folder policy pruneMode).store.documents,
      dm.resource ≠ some a.resource) ↔
    ∀ p, ∀ d ∈ decoded ((folder.yaml.lookup p).getD []),
      doomed tools lookup scope folder drops p d = false := by
  have hjudge : ∀ p d, doomed tools lookup scope folder drops p d = judged tools lookup scope folder
      (fun dm => drops.any (fun a => dm.resource = some a.resource)) p d := by
    intro p d
    simp only [doomed, judged, documentResource]
    rcases Option.eq_none_or_eq_some (indexDocument p 0 d).1.head? with h | ⟨r, h⟩ <;> simp [h]
  simp only [hjudge]
  rw [← no_document_iff policy pruneMode (fun r i => rfl)]
  simp only [List.any_eq_false, decide_eq_true_eq]
  exact ⟨fun h dm hdm a ha => h a ha dm hdm, fun h a ha dm hdm => h dm hdm a ha⟩

end Rescan

/-! ## 4. Faithful deletion -/

/-- No managed document with the resource of a drop remains, and of the files as the upserts leave
    them every other document is still there, in its order. -/
structure FaithfulDeletion (tools : Tools) (lookup : Lookup) (scope : Scope)
    (policy : Option PlacementPolicy) (pruneMode : PruneMode) (drops : List PlanAction)
    (upserted : Path → Option Content) (folder' : Folder) : Prop where
  gone : ∀ a ∈ drops, ∀ dm ∈ (newWriteBatch tools lookup scope folder' policy pruneMode).store.documents,
    dm.resource ≠ some a.resource
  kept : ∀ p, (decoded ((folder'.yaml.lookup p).getD [])).filter
      (fun d => !doomed tools lookup scope folder' drops p d) =
    (decoded ((upserted p).getD [])).filter (fun d => !doomed tools lookup scope folder' drops p d)

/-- The documents to remove, with the kustomizations as planned, are the ones that carry the identity
    of a drop in their own bytes, in the file of the drop, and each drop finds one at most. -/
structure FoundByBytes (tools : Tools) (lookup : Lookup) (scope : Scope) (drops : List PlanAction)
    (upserted : Path → Option Content) (planned : Folder) : Prop where
  described : ∀ p, ∀ d ∈ decoded ((upserted p).getD []),
    doomed tools lookup scope planned drops p d = true ↔
      ∃ a ∈ drops, a.file = p ∧ carries p a.identity d = true
  once : ∀ a ∈ drops, (decoded ((upserted a.file).getD [])).countP (carries a.file a.identity) ≤ 1

section Deletion

variable {tools : Tools} {lookup : Lookup} {scope : Scope} {folder folder' : Folder}
  {policy : Option PlacementPolicy} {pruneMode : PruneMode} {s : Setting} {b b₁ : Batch}
  {desired : List DesiredResource} {inScope : ResourceIdentifier → Bool} {drops : List PlanAction}

theorem sought_exclusive (h : drops.Pairwise (fun a a' => a.identity ≠ a'.identity)) (p : Path) :
    Exclusive (sought drops p) :=
  List.pairwise_map.mpr ((h.filter _).imp (fun hne _ hx => carries_exclusive hne hx))

theorem doomed_of_sought (tools : Tools) (lookup : Lookup) (scope : Scope) (folder' : Folder)
    (p : Path) : ∀ q ∈ sought drops p, ∀ x y, q x = true → q y = true →
    doomed tools lookup scope folder' drops p x = doomed tools lookup scope folder' drops p y := by
  intro q hq x y hx hy
  obtain ⟨a, -, rfl⟩ := List.mem_map.mp hq
  simp only [doomed, documentResource_of_carries hx, documentResource_of_carries hy]

theorem forall_leaves {P : Path → Document → Prop}
    (h : ∀ p ∈ b.buffers.keys ++ folder.yaml.keys, ∀ d ∈ decoded ((s.leaves b folder p).getD []), P p d)
    (p : Path) : ∀ d ∈ decoded ((s.leaves b folder p).getD []), P p d := by
  by_cases hp : p ∈ b.buffers.keys ++ folder.yaml.keys
  · exact h p hp
  · simp only [List.mem_append, not_or, ← AList.mem_keys, ← AList.lookup_eq_none] at hp
    have hsame : s.current b p = s.contentByPath.lookup p := by simp only [Setting.current, hp.1]
    rw [leaves_of_same hsame, hp.2]
    simp [decoded]

section

variable (hs : s = newWriteBatch tools lookup scope folder policy pruneMode)

include hs

theorem decoded_leaves_dropAll
    (hdrop : ∀ a ∈ drops, (s.contentByPath.lookup a.file).isSome = true) (p : Path) :
    decoded ((s.leaves (s.dropAll b₁ drops) folder p).getD []) =
      eraseEach (sought drops p) (decoded ((s.leaves b₁ folder p).getD [])) := by
  cases hread : s.contentByPath.lookup p with
  | none =>
    -- a file that was not read is not swept
    have hother : ∀ a ∈ drops, a.file ≠ p := by
      rintro a ha rfl
      have := hdrop a ha
      rw [hread] at this
      cases this
    have hnone : sought drops p = [] := by
      simpa [sought, List.filter_eq_nil_iff] using hother
    simp only [Setting.leaves, current_dropAll_of_notMem hother, hnone]
    rfl
  | some c =>
    have hsome : (s.contentByPath.lookup p).isSome = true := by rw [hread]; rfl
    rw [leaves_of_read hs hsome, leaves_of_read hs hsome]
    exact documentsAt_dropAll drops p

/-- The files after a resync, by the files as its upserts leave them. -/
theorem decoded_of_resync (hdrop : drops = s.store.dropOrphans desired inScope true)
    (hup : s.applyUpserts {} desired = .ok b₁) (hrun : s.applyResyncPlan {} desired drops = .ok b)
    (hflush : s.flush b folder = .ok folder') (p : Path) :
    decoded ((folder'.yaml.lookup p).getD []) =
      eraseEach (sought drops p) (decoded ((s.leaves b₁ folder p).getD [])) := by
  obtain rfl : s.dropAll b₁ drops = b := by
    rw [Setting.applyResyncPlan, hup] at hrun
    exact Except.ok.inj hrun
  have hread : ∀ a ∈ drops, (s.contentByPath.lookup a.file).isSome = true := by
    subst hs hdrop
    intro a ha
    obtain ⟨dm, hdm, hplan⟩ := List.mem_filterMap.mp ha
    obtain ⟨-, -, -, rfl⟩ := ManifestStore.planGitOnly_eq_some hplan
    exact documents_read hdm
  rw [(flush_ok hflush).2.2.2.2 p]
  exact decoded_leaves_dropAll hs hread p

/-- A resync deletes faithfully exactly when its drops are found by the bytes of the documents. -/
theorem resync_deletion_faithful_iff (hdrops : drops = s.store.dropOrphans desired inScope true)
    (hup : s.applyUpserts {} desired = .ok b₁) (hrun : s.applyResyncPlan {} desired drops = .ok b)
    (hflush : s.flush b folder = .ok folder') :
    FaithfulDeletion tools lookup scope policy pruneMode drops (s.leaves b₁ folder) folder' ↔
      FoundByBytes tools lookup scope drops (s.leaves b₁ folder) (s.plannedFolder b folder) := by
  rw [← eq_plannedFolder hflush]
  have hfiles := decoded_of_resync hs hdrops hup hrun hflush
  have hdistinct := dropOrphans_pairwise hs desired inScope true
  rw [← hdrops] at hdistinct
  have hfile := fun p => eraseEach_faithful_iff (sought_exclusive hdistinct p)
    (doomed_of_sought tools lookup scope folder' p)
    (decoded ((s.leaves b₁ folder p).getD []))
  constructor
  · rintro ⟨hgone, hkept⟩
    rw [no_managed_document_iff] at hgone
    have hswept := fun p => (hfile p).mp ⟨hfiles p ▸ hgone p, hfiles p ▸ hkept p⟩
    refine ⟨fun p d hd => ((hswept p).1 d hd).trans ?_, fun a ha => (hswept a.file).2 _ ?_⟩
    · simp [sought, and_assoc]
    · exact List.mem_map.mpr ⟨a, by simp [ha], rfl⟩
  · rintro ⟨hdescribed, honce⟩
    have hswept := fun p => (hfile p).mpr
      ⟨fun d hd => (hdescribed p d hd).trans (by simp [sought, and_assoc]),
      fun q hq => by
        obtain ⟨a, ha, rfl⟩ := List.mem_map.mp hq
        obtain ⟨hmem, hp⟩ := List.mem_filter.mp ha
        obtain rfl : a.file = p := of_decide_eq_true hp
        exact honce a hmem⟩
    refine ⟨no_managed_document_iff.mpr (fun p => hfiles p ▸ (hswept p).1), fun p => ?_⟩
    rw [hfiles p]
    exact (hswept p).2

end

end Deletion

/-! ## 5. A namespace from the kustomization, and one from the document -/

def sweptFolder (kustomizationNs documentNs : String) : Folder where
  yaml := ((∅ : Tree).insert "x.yaml".toList [configMapDocument documentNs "x"]).insert
    "kustomization.yaml".toList [kustomizationDocument
      { ns := kustomizationNs.toList, resources := some ["x.yaml".toList] }]

def sweptSetting (kustomizationNs documentNs : String) : Setting :=
  newWriteBatch literalTools configMapLookup {} (sweptFolder kustomizationNs documentNs) none .always

def sweepOf (s : Setting) : List PlanAction := s.store.dropOrphans [] (fun _ => true) true

/-- The plan names `prod/x`; the bytes say `x`, and the document stays. -/
theorem inherited_namespace_survives_sweep : (sweptSetting "prod" "").store.Accepted ∧
      (sweepOf (sweptSetting "prod" "")).map PlanAction.resource = [configMapId "prod" "x"] ∧
      ∃ b folder', (sweptSetting "prod" "").applyResyncPlan {} [] (sweepOf (sweptSetting "prod" "")) =
          .ok b ∧
        (sweptSetting "prod" "").flush b (sweptFolder "prod" "") = .ok folder' ∧
        ¬ FaithfulDeletion literalTools configMapLookup {} none .always
          (sweepOf (sweptSetting "prod" "")) ((sweptSetting "prod" "").leaves {} (sweptFolder "prod" ""))
          folder' := by
  refine ⟨by decide, by decide, _, sweptFolder "prod" "", rfl, rfl, fun h => ?_⟩
  obtain ⟨a, ha, dm, hdm, hres⟩ : ∃ a ∈ sweepOf (sweptSetting "prod" ""),
      ∃ dm ∈ (sweptSetting "prod" "").store.documents, dm.resource = some a.resource := by decide
  exact h.gone a ha dm hdm hres

theorem explicit_namespace_is_swept :
    ∃ b folder', (sweptSetting "" "prod").applyResyncPlan {} [] (sweepOf (sweptSetting "" "prod")) =
        .ok b ∧
      (sweptSetting "" "prod").flush b (sweptFolder "" "prod") = .ok folder' ∧
      folder'.yaml.lookup "x.yaml".toList = none ∧
      FaithfulDeletion literalTools configMapLookup {} none .always
        (sweepOf (sweptSetting "" "prod")) ((sweptSetting "" "prod").leaves {} (sweptFolder "" "prod"))
        folder' := by
  refine ⟨_, { yaml := (sweptFolder "" "prod").yaml.erase "x.yaml".toList }, rfl, rfl, by decide, ?_⟩
  refine (resync_deletion_faithful_iff (s := sweptSetting "" "prod")
    (b := (sweptSetting "" "prod").dropAll {} (sweepOf (sweptSetting "" "prod")))
    rfl rfl rfl rfl rfl).mpr ⟨?_, by decide⟩
  exact forall_leaves (by decide)

end GitopsReverser.Flush
