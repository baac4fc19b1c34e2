import GitopsReverser.Manifest.Store

/-!
# StoreIndex — what the indexes of a store say

A document of a store is known by its place alone. The places are not stored: `documentLocations`
counts them again, past the positions that left a diagnostic instead of a record.
-/

namespace GitopsReverser.Manifest

open Reasoning
open Git (Path)

/-! ## 1. The store of a list of files, and the places of its documents -/

/-- `IndexFiles` sorts the files; the rest of the scan is read in the order it comes in. -/
def buildStoreFromFiles (tools : Kustomize) (lookup : Lookup) (files : List FileContent) :
    ManifestStore :=
  let ctx := contextOf tools lookup files
  { buildStore tools lookup { yamlFiles := files } with
    documents := ((recordsOf (sortFiles files)).filter
      (fun r => ctx.manages r.location.path)).map ctx.materialize }

def gapIndices (diags : List Diagnostic) : List Nat :=
  (diags.filter (fun d => decide (d.reason ∈
    [.emptyDocument, .notKRM, .invalidYAML, .missingSopsKey]))).map (fun d => d.location.documentIndex)

/-- The loop over the gaps, of which there are no more than `gaps` has elements. -/
def nextFree (gaps : List Nat) (pos : Nat) : Nat :=
  ((List.range' pos (gaps.length + 1)).find? (fun p => decide (p ∉ gaps))).getD pos

def reconstructManagedIndices (gaps : List Nat) : Nat → List DocumentModel → List Nat
  | _, [] => []
  | pos, _ :: documents =>
    nextFree gaps pos :: reconstructManagedIndices gaps (nextFree gaps pos + 1) documents

def ManifestStore.documentLocations (store : ManifestStore) : List (DocumentModel × Location) :=
  (store.documents.map DocumentModel.file).dedup.flatMap (fun path =>
    let gaps := gapIndices (store.diagnostics.filter (fun d => d.location.path = path))
    (store.fileDocuments path).zip
      ((reconstructManagedIndices gaps 0 (store.fileDocuments path)).map (fun i => ⟨path, i⟩)))

/-! ## 2. What the indexes should say -/

def DocumentModel.Precedes (dm dm' : DocumentModel) : Prop :=
  dm.file ≤ dm'.file ∧ (dm.file = dm'.file → dm.index < dm'.index)

/-- The document was made of the one at this place. -/
def StandsAt (ctx : Context) (files : List FileContent) (dm : DocumentModel) (loc : Location) :
    Prop :=
  ∃ f ∈ files, f.path = loc.path ∧ ctx.manages f.path = true ∧
    ∃ d, f.content[loc.documentIndex]? = some d ∧
      ∃ r ∈ (indexDocument f.path loc.documentIndex d).1, ctx.materialize r = dm

structure Consistent (ctx : Context) (files : List FileContent) (store : ManifestStore) : Prop where
  first : ∀ id dm, store.byManifestIdentity id = some dm ↔
    dm ∈ store.documents ∧ dm.claimsIdentity = true ∧ dm.identity = id ∧
      ∀ dm' ∈ store.documents, dm'.claimsIdentity = true → dm'.identity = id →
        dm' = dm ∨ dm.Precedes dm'
  duplicates : ∀ dm ∈ store.documents, store.isDuplicate dm = true ↔
    dm.claimsIdentity = true ∧ ∃ dm' ∈ store.documents, dm'.claimsIdentity = true ∧
      dm'.identity = dm.identity ∧ dm'.Precedes dm
  resources : ∀ r dm, store.byResourceIdentity r = some dm ↔
    dm ∈ store.documents ∧ dm.mapping = .followable ∧ store.isDuplicate dm = false ∧
      dm.resource = some r
  locations : ∀ dm loc, (dm, loc) ∈ store.documentLocations ↔ StandsAt ctx files dm loc

/-- Every document of a served type is editable, and the identities of two are those of two
    resources. -/
structure OneResourceEach (ctx : Context) (files : List FileContent) : Prop where
  editable : ∀ dm loc, StandsAt ctx files dm loc → dm.mapping = .followable → dm.claimsIdentity = true
  apart : ∀ dm loc dm' loc', StandsAt ctx files dm loc → StandsAt ctx files dm' loc' →
    dm.claimsIdentity = true → dm'.claimsIdentity = true → ∀ r, dm.resource = some r →
    dm'.resource = some r → dm.identity = dm'.identity

/-! ## 3. Documents in the order of their places -/

variable {tools : Kustomize} {lookup : Lookup} {files : List FileContent} {dm dm' : DocumentModel}
  {loc : Location}

theorem standsAt_place {ctx : Context} (h : StandsAt ctx files dm loc) : loc = ⟨dm.file, dm.index⟩ := by
  obtain ⟨f, -, hpath, -, d, -, r, hr, rfl⟩ := h
  have hplace : r.location = loc := by
    rw [location_of_mem_indexDocument hr, hpath]
  rw [← hplace]
  rfl

theorem mem_buildStoreFromFiles : dm ∈ (buildStoreFromFiles tools lookup files).documents ↔
    ∃ loc, StandsAt (contextOf tools lookup files) files dm loc := by
  simp only [buildStoreFromFiles, List.mem_map, List.mem_filter, recordsOf, List.mem_flatMap,
    mem_sortFiles, mem_indexOneFile_iff.1]
  constructor
  · rintro ⟨r, ⟨⟨f, hf, i, d, hd, hr⟩, hmanage⟩, rfl⟩
    rw [location_of_mem_indexDocument hr] at hmanage
    exact ⟨⟨f.path, i⟩, f, hf, rfl, hmanage, d, hd, r, hr, rfl⟩
  · rintro ⟨loc, f, hf, -, hmanage, d, hd, r, hr, rfl⟩
    refine ⟨r, ⟨⟨f, hf, _, d, hd, hr⟩, ?_⟩, rfl⟩
    rw [location_of_mem_indexDocument hr]
    exact hmanage

theorem documents_sorted (hnodup : (files.map FileContent.path).Nodup) :
    (buildStoreFromFiles tools lookup files).documents.Pairwise DocumentModel.Precedes := by
  have hrec := recordsOf_sorted (sortFiles_sorted (List.pairwise_map.mp hnodup))
  exact List.pairwise_map.mpr (hrec.filter _)

theorem DocumentModel.Precedes.asymm (h : dm.Precedes dm') : ¬ dm'.Precedes dm := by
  intro h'
  have hfile := le_antisymm h.1 h'.1
  exact Nat.lt_asymm (h.2 hfile) (h'.2 hfile.symm)

/-! ## 4. The first of an identity -/

section Indexes

variable {store : ManifestStore} (hsorted : store.documents.Pairwise DocumentModel.Precedes)
include hsorted

theorem byManifestIdentity_iff (id : Identity) : store.byManifestIdentity id = some dm ↔
    dm ∈ store.documents ∧ dm.claimsIdentity = true ∧ dm.identity = id ∧
      ∀ dm' ∈ store.documents, dm'.claimsIdentity = true → dm'.identity = id →
        dm' = dm ∨ dm.Precedes dm' := by
  refine (find?_eq_some_iff_of_pairwise hsorted (fun _ _ => DocumentModel.Precedes.asymm)).trans ?_
  simp only [Bool.and_eq_true, decide_eq_true_eq, and_imp, and_assoc]

theorem exists_winner (hdm : dm ∈ store.documents) (hclaim : dm.claimsIdentity = true) :
    ∃ w ∈ store.documents, store.byManifestIdentity dm.identity = some w ∧
      w.claimsIdentity = true ∧ w.identity = dm.identity ∧ (dm = w ∨ w.Precedes dm) := by
  cases hw : store.byManifestIdentity dm.identity with
  | none => exact absurd (List.find?_eq_none.mp hw dm hdm) (by simp [hclaim])
  | some w =>
    obtain ⟨hmem, hclaims, hid, hfirst⟩ := (byManifestIdentity_iff hsorted _).mp hw
    exact ⟨w, hmem, rfl, hclaims, hid, hfirst dm hdm hclaim rfl⟩

theorem isDuplicate_iff (hdm : dm ∈ store.documents) : store.isDuplicate dm = true ↔
    dm.claimsIdentity = true ∧ ∃ dm' ∈ store.documents, dm'.claimsIdentity = true ∧
      dm'.identity = dm.identity ∧ dm'.Precedes dm := by
  rw [ManifestStore.isDuplicate, Bool.and_eq_true, decide_eq_true_eq]
  refine and_congr_right (fun hclaim => ?_)
  obtain ⟨w, hmem, hw, hclaims, hid, hfirst⟩ := exists_winner hsorted hdm hclaim
  constructor
  · intro hlost
    rcases hfirst with rfl | hfirst
    · exact absurd hw hlost
    · exact ⟨w, hmem, hclaims, hid, hfirst⟩
  · rintro ⟨dm', hdm', hclaim', hid', hearlier⟩ hwin
    rcases ((byManifestIdentity_iff hsorted _).mp hwin).2.2.2 dm' hdm' hclaim' hid' with rfl | hlater
    · exact hearlier.asymm hearlier
    · exact hearlier.asymm hlater

end Indexes

/-! ## 5. Resources -/

theorem standsAt_mapping {ctx : Context} (h : StandsAt ctx files dm loc) :
    ctx.resolveMapping dm.identity = (dm.mapping, dm.resource) := by
  obtain ⟨f, -, -, -, d, -, r, -, rfl⟩ := h
  rfl

theorem followable_iff {ctx : Context} (h : StandsAt ctx files dm loc) :
    dm.mapping = .followable ↔ ∃ r, dm.resource = some r := by
  have hmap : (ctx.resolveMapping dm.identity).1 = .followable ↔
      ∃ r, (ctx.resolveMapping dm.identity).2 = some r := by
    simp only [Context.resolveMapping]
    split_ifs
    · simp
    · split
      · simp
      · split_ifs <;> simp
  rwa [standsAt_mapping h] at hmap

theorem mem_of_byResourceIdentity {store : ManifestStore} {r : ResourceIdentifier}
    (h : store.byResourceIdentity r = some dm) : dm ∈ store.documents ∧
      dm.claimsIdentity = true ∧ store.isDuplicate dm = false ∧ dm.resource = some r := by
  have hmem := List.mem_filter.mp (List.mem_of_getLast? h)
  simpa [and_assoc] using hmem

section Resources

variable {ctx : Context} {store : ManifestStore}
  (hmem : ∀ dm, dm ∈ store.documents ↔ ∃ loc, StandsAt ctx files dm loc)
include hmem

theorem byResourceIdentity_iff_of_oneResourceEach (h : OneResourceEach ctx files)
    (r : ResourceIdentifier) : store.byResourceIdentity r = some dm ↔
      dm ∈ store.documents ∧ dm.mapping = .followable ∧ store.isDuplicate dm = false ∧
        dm.resource = some r := by
  constructor
  · intro hdm
    obtain ⟨hdoc, -, hdup, hres⟩ := mem_of_byResourceIdentity hdm
    obtain ⟨loc, hloc⟩ := (hmem dm).mp hdoc
    exact ⟨hdoc, (followable_iff hloc).mpr ⟨r, hres⟩, hdup, hres⟩
  · rintro ⟨hdoc, hfollow, hdup, hres⟩
    obtain ⟨loc, hloc⟩ := (hmem dm).mp hdoc
    have hclaim := h.editable dm loc hloc hfollow
    -- whatever else has the resource has the identity, and wins it too
    cases hlast : store.byResourceIdentity r with
    | none =>
      rw [ManifestStore.byResourceIdentity, List.getLast?_eq_none_iff, List.filter_eq_nil_iff] at hlast
      exact absurd (hlast dm hdoc) (by simp [hclaim, hdup, hres])
    | some dm' =>
      obtain ⟨hdoc', hclaim', hdup', hres'⟩ := mem_of_byResourceIdentity hlast
      obtain ⟨loc', hloc'⟩ := (hmem dm').mp hdoc'
      have hid := h.apart dm loc dm' loc' hloc hloc' hclaim hclaim' r hres hres'
      have hwin := ManifestStore.winner_of_not_isDuplicate hclaim hdup
      rw [hid, ManifestStore.winner_of_not_isDuplicate hclaim' hdup'] at hwin
      exact hwin

theorem oneResourceEach_of_byResourceIdentity
    (hsorted : store.documents.Pairwise DocumentModel.Precedes)
    (h : ∀ r dm, store.byResourceIdentity r = some dm ↔
      dm ∈ store.documents ∧ dm.mapping = .followable ∧ store.isDuplicate dm = false ∧
        dm.resource = some r) : OneResourceEach ctx files where
  editable := by
    intro dm loc hloc hfollow
    by_contra hclaim
    obtain ⟨r, hres⟩ := (followable_iff hloc).mp hfollow
    have hdup : store.isDuplicate dm = false := by simp [ManifestStore.isDuplicate, hclaim]
    have hdm := (h r dm).mpr ⟨(hmem dm).mpr ⟨loc, hloc⟩, hfollow, hdup, hres⟩
    exact hclaim (mem_of_byResourceIdentity hdm).2.1
  apart := by
    intro dm loc dm' loc' hloc hloc' hclaim hclaim' r hres hres'
    -- the winner of an identity has the same resource, and is what the index answers
    have hwin : ∀ x locx, StandsAt ctx files x locx → x.claimsIdentity = true →
        x.resource = some r → ∃ w, store.byResourceIdentity r = some w ∧ w.identity = x.identity := by
      intro x locx hx hcx hrx
      obtain ⟨w, hw, hfirst, hclaw, hid, -⟩ := exists_winner hsorted ((hmem x).mpr ⟨locx, hx⟩) hcx
      obtain ⟨locw, hlocw⟩ := (hmem w).mp hw
      have hresw : w.resource = some r := by
        have hsame := standsAt_mapping hlocw
        rw [hid, standsAt_mapping hx] at hsame
        exact (Prod.mk.inj hsame).2.symm.trans hrx
      refine ⟨w, (h r w).mpr ⟨hw, (followable_iff hlocw).mpr ⟨r, hresw⟩, ?_, hresw⟩, hid⟩
      simp [ManifestStore.isDuplicate, hclaw, hid, hfirst]
    obtain ⟨w, hw, hid⟩ := hwin dm loc hloc hclaim hres
    obtain ⟨w', hw', hid'⟩ := hwin dm' loc' hloc' hclaim' hres'
    rw [← hid, ← hid', Option.some.inj (hw.symm.trans hw')]

end Resources

/-! ## 6. Places -/

theorem nextFree_eq {gaps : List Nat} {pos i : Nat} (hle : pos ≤ i) (hi : i ∉ gaps)
    (hgap : ∀ j, pos ≤ j → j < i → j ∈ gaps) : nextFree gaps pos = i := by
  have hsub : List.range' pos (i - pos) ⊆ gaps := by
    intro j hj
    obtain ⟨hlow, hhigh⟩ := List.mem_range'_1.mp hj
    exact hgap j hlow (by omega)
  have hfew : i - pos ≤ gaps.length := by
    simpa using (List.subperm_of_subset (List.nodup_range' (s := pos) (n := i - pos)) hsub).length_le
  have hfind : (List.range' pos (gaps.length + 1)).find? (fun p => decide (p ∉ gaps)) = some i := by
    refine (find?_eq_some_iff_of_pairwise List.pairwise_lt_range' (fun _ _ => Nat.lt_asymm)).mpr
      ⟨List.mem_range'_1.mpr (by omega), by simpa using hi, fun j hj hfree => ?_⟩
    by_contra hlater
    exact of_decide_eq_true hfree (hgap j (List.mem_range'_1.mp hj).1 (by omega))
  rw [nextFree, hfind]
  rfl

theorem reconstructManagedIndices_eq {gaps : List Nat} (documents : List DocumentModel) :
    ∀ pos, (documents.map DocumentModel.index).Pairwise (· < ·) →
      (∀ dm ∈ documents, pos ≤ dm.index ∧ dm.index ∉ gaps) →
      (∀ dm ∈ documents, ∀ j, pos ≤ j → j < dm.index → j ∈ gaps ∨ j ∈ documents.map DocumentModel.index) →
      reconstructManagedIndices gaps pos documents = documents.map DocumentModel.index := by
  induction documents with
  | nil => exact fun _ _ _ _ => rfl
  | cons dm documents ih =>
    intro pos hsorted hfree hgap
    obtain ⟨hlater, hrest⟩ := List.pairwise_cons.mp hsorted
    obtain ⟨hle, hnot⟩ := hfree dm List.mem_cons_self
    have hnext : nextFree gaps pos = dm.index := by
      refine nextFree_eq hle hnot (fun j hlow hhigh => ?_)
      rcases hgap dm List.mem_cons_self j hlow hhigh with hj | hj
      · exact hj
      · rcases List.mem_cons.mp hj with rfl | hj
        · exact absurd hhigh (Nat.lt_irrefl _)
        · exact absurd (hlater j hj) (Nat.lt_asymm hhigh)
    rw [reconstructManagedIndices, hnext, List.map_cons, ih (dm.index + 1) hrest]
    · intro dm' hdm'
      exact ⟨hlater _ (List.mem_map_of_mem hdm'), (hfree dm' (List.mem_cons_of_mem dm hdm')).2⟩
    · intro dm' hdm' j hlow hhigh
      rcases hgap dm' (List.mem_cons_of_mem dm hdm') j (by omega) hhigh with hj | hj
      · exact .inl hj
      · rcases List.mem_cons.mp hj with rfl | hj
        · exact absurd hlow (by omega)
        · exact .inr hj

/-- Only a document without a record leaves a gap, and each of them does. -/
theorem mem_gapIndices (hnodup : (files.map FileContent.path).Nodup) {f : FileContent} (hf : f ∈ files)
    (hall : allows f.path = false) {i : Nat} :
    i ∈ gapIndices ((buildStoreFromFiles tools lookup files).diagnostics.filter
      (fun d => d.location.path = f.path)) ↔
      ∃ d, f.content[i]? = some d ∧ diagnosis f.path d ≠ none := by
  simp only [gapIndices, buildStoreFromFiles, buildStore, List.mem_map, List.mem_filter,
    List.mem_flatMap, mem_indexOneFile_iff.2, decide_eq_true_eq]
  constructor
  · rintro ⟨x, ⟨⟨⟨f', ⟨hf', -⟩, j, d, hd, hx⟩, hpath⟩, hgap⟩, rfl⟩
    cases hdiag : diagnosis f'.path d with
    | none =>
      rw [(indexDocument_of_no_diagnosis hdiag).2 x hx] at hgap
      exact absurd hgap (by decide)
    | some reason =>
      obtain ⟨-, message, honly⟩ := indexDocument_of_diagnosis (i := j) hdiag
      rw [honly, List.mem_singleton] at hx
      subst hx
      obtain rfl := List.inj_on_of_nodup_map hnodup hf' hf hpath
      exact ⟨d, hd, by simp [hdiag]⟩
  · rintro ⟨d, hd, hdiag⟩
    obtain ⟨reason, hreason⟩ := Option.ne_none_iff_exists'.mp hdiag
    obtain ⟨-, message, honly⟩ := indexDocument_of_diagnosis (i := i) hreason
    refine ⟨⟨reason, ⟨f.path, i⟩, message⟩, ⟨⟨⟨f, ⟨hf, by simp [hall]⟩, i, d, hd, ?_⟩, rfl⟩, ?_⟩, rfl⟩
    · rw [honly]
      exact List.mem_singleton_self _
    · cases d with
      | node n =>
        simp only [diagnosis] at hreason
        split_ifs at hreason <;> cases hreason <;> simp
      | _ => cases hreason; simp

theorem mem_documentLocations (hnodup : (files.map FileContent.path).Nodup) :
    (dm, loc) ∈ (buildStoreFromFiles tools lookup files).documentLocations ↔
      StandsAt (contextOf tools lookup files) files dm loc := by
  generalize hstore : buildStoreFromFiles tools lookup files = store
  have hmem : ∀ dm, dm ∈ store.documents ↔ ∃ loc, StandsAt (contextOf tools lookup files) files dm loc :=
    fun dm => hstore ▸ mem_buildStoreFromFiles
  have hgaps : ∀ f ∈ files, (contextOf tools lookup files).manages f.path = true → ∀ {i},
      (i ∈ gapIndices (store.diagnostics.filter (fun d => d.location.path = f.path)) ↔
        ∃ d, f.content[i]? = some d ∧ diagnosis f.path d ≠ none) := by
    intro f hf hmanage
    simp only [Context.manages, Bool.and_eq_true, Bool.not_eq_true'] at hmanage
    exact hstore ▸ mem_gapIndices hnodup hf hmanage.1
  have hdocs : ∀ {path}, ∀ dm ∈ store.fileDocuments path, ∃ f ∈ files, f.path = path ∧
      (contextOf tools lookup files).manages f.path = true ∧
      ∃ d, f.content[dm.index]? = some d ∧ diagnosis f.path d = none := by
    intro path dm hdm
    simp only [ManifestStore.fileDocuments, List.mem_filter, decide_eq_true_eq] at hdm
    obtain ⟨hdoc, rfl⟩ := hdm
    obtain ⟨loc, hloc⟩ := (hmem dm).mp hdoc
    obtain rfl := standsAt_place hloc
    obtain ⟨f, hf, hpath, hmanage, d, hd, r, hr, -⟩ := hloc
    refine ⟨f, hf, hpath, hmanage, d, hd, ?_⟩
    cases hdiag : diagnosis f.path d with
    | none => rfl
    | some reason =>
      rw [(indexDocument_of_diagnosis hdiag).1] at hr
      cases hr
  have hindices : ∀ path, reconstructManagedIndices (gapIndices (store.diagnostics.filter
      (fun d => d.location.path = path))) 0 (store.fileDocuments path) =
        (store.fileDocuments path).map DocumentModel.index := by
    intro path
    refine reconstructManagedIndices_eq _ 0 ?_ ?_ ?_
    · have hsorted : store.documents.Pairwise DocumentModel.Precedes := hstore ▸ documents_sorted hnodup
      refine List.pairwise_map.mpr ((hsorted.filter _).imp_of_mem
        (fun hdm hdm' hbefore => hbefore.2 ?_))
      rw [of_decide_eq_true (List.mem_filter.mp hdm).2, of_decide_eq_true (List.mem_filter.mp hdm').2]
    · intro dm hdm
      obtain ⟨f, hf, rfl, hmanage, d, hd, hnone⟩ := hdocs dm hdm
      refine ⟨Nat.zero_le _, fun hgap => ?_⟩
      obtain ⟨d', hd', hdiag⟩ := (hgaps f hf hmanage).mp hgap
      rw [hd, Option.some.injEq] at hd'
      exact hdiag (hd' ▸ hnone)
    · intro dm hdm j _ hlt
      obtain ⟨f, hf, rfl, hmanage, d, hd, -⟩ := hdocs dm hdm
      obtain ⟨hlen, -⟩ := List.getElem?_eq_some_iff.mp hd
      have hj : f.content[j]? = some (f.content[j]) := List.getElem?_eq_getElem (hlt.trans hlen)
      cases hdiag : diagnosis f.path (f.content[j]) with
      | some reason => exact .inl ((hgaps f hf hmanage).mpr ⟨_, hj, by simp [hdiag]⟩)
      | none =>
        right
        obtain ⟨r, hr⟩ := List.exists_mem_of_ne_nil _ (indexDocument_of_no_diagnosis (i := j) hdiag).1
        have hstands : StandsAt (contextOf tools lookup files) files
            ((contextOf tools lookup files).materialize r) ⟨f.path, j⟩ :=
          ⟨f, hf, rfl, hmanage, _, hj, r, hr, rfl⟩
        have hplace := standsAt_place hstands
        refine List.mem_map.mpr ⟨_, List.mem_filter.mpr ⟨(hmem _).mpr ⟨_, hstands⟩, ?_⟩, ?_⟩
        · rw [decide_eq_true_eq, (Location.mk.inj hplace).1]
        · exact (Location.mk.inj hplace).2.symm
  have hzip : ∀ path (l : List DocumentModel), l.zip ((l.map DocumentModel.index).map
      (fun i => (⟨path, i⟩ : Location))) = l.map (fun dm => (dm, ⟨path, dm.index⟩)) := by
    intro path l
    rw [List.map_map, ← List.map_prod_left_eq_zip]
    rfl
  simp only [ManifestStore.documentLocations, hindices, hzip]
  simp only [ManifestStore.fileDocuments, List.mem_flatMap, List.mem_map, List.mem_dedup,
    List.mem_filter, decide_eq_true_eq]
  constructor
  · rintro ⟨path, -, dm', ⟨hdm', rfl⟩, heq⟩
    obtain ⟨rfl, rfl⟩ := Prod.mk.inj heq
    obtain ⟨loc, hloc⟩ := (hmem dm').mp hdm'
    exact standsAt_place hloc ▸ hloc
  · intro hloc
    have hdm := (hmem dm).mpr ⟨loc, hloc⟩
    rw [standsAt_place hloc]
    exact ⟨dm.file, ⟨dm, hdm, rfl⟩, dm, ⟨hdm, rfl⟩, rfl⟩

/-- The indexes of a store say what they should exactly when every document of a served type is
    editable and no two identities are those of one resource. -/
theorem indexes_consistent_iff (tools : Kustomize) (lookup : Lookup) (files : List FileContent)
    (hnodup : (files.map FileContent.path).Nodup) :
    Consistent (contextOf tools lookup files) files (buildStoreFromFiles tools lookup files) ↔
      OneResourceEach (contextOf tools lookup files) files := by
  have hsorted : (buildStoreFromFiles tools lookup files).documents.Pairwise
      DocumentModel.Precedes := documents_sorted hnodup
  constructor
  · intro h
    exact oneResourceEach_of_byResourceIdentity (fun _ => mem_buildStoreFromFiles) hsorted h.resources
  · intro h
    exact {
      first := fun id dm => byManifestIdentity_iff hsorted id
      duplicates := fun dm hdm => isDuplicate_iff hsorted hdm
      resources := fun r dm =>
        byResourceIdentity_iff_of_oneResourceEach (fun _ => mem_buildStoreFromFiles) h r
      locations := fun dm loc => mem_documentLocations hnodup }

/-- A cluster role in one file, behind an empty document, and perhaps in another with a namespace. -/
def roleFiles (twice : Bool) : List FileContent :=
  let role (ns : String) : Document :=
    .node { identity := ⟨"rbac.authorization.k8s.io/v1", "ClusterRole", ns, "viewer"⟩ }
  [⟨"b.yaml".toList, [.blank "", role ""]⟩] ++
    if twice then [⟨"a.yaml".toList, [role "prod"]⟩] else []

def roleKustomize : Kustomize := ⟨fun _ _ => .ok [], fun _ _ => {}⟩

def roleLookup : Lookup :=
  ⟨true, fun _ _ => some ⟨⟨"rbac.authorization.k8s.io", "v1", "clusterroles"⟩, false, true⟩⟩

def roleContext (twice : Bool) : Context := contextOf roleKustomize roleLookup (roleFiles twice)

def roleStore (twice : Bool) : ManifestStore :=
  buildStoreFromFiles roleKustomize roleLookup (roleFiles twice)

theorem role_indexed : Consistent (roleContext false) (roleFiles false) (roleStore false) := by
  have hdocs : ∀ {dm loc}, StandsAt (roleContext false) (roleFiles false) dm loc →
      dm ∈ (roleStore false).documents := fun h => mem_buildStoreFromFiles.mpr ⟨_, h⟩
  refine (indexes_consistent_iff _ _ _ (by decide)).mpr
    ⟨fun dm _ h _ => ?_, fun dm _ dm' _ h h' _ _ _ _ _ => ?_⟩
  · have hclaim : ∀ dm ∈ (roleStore false).documents, dm.claimsIdentity = true := by decide +kernel
    exact hclaim dm (hdocs h)
  · have hone : ∀ dm ∈ (roleStore false).documents,
        dm.identity = ⟨"rbac.authorization.k8s.io/v1", "ClusterRole", "", "viewer"⟩ := by
      decide +kernel
    rw [hone dm (hdocs h), hone dm' (hdocs h')]

def viewerRole : ResourceIdentifier :=
  ⟨"rbac.authorization.k8s.io", "v1", "clusterroles", "", "viewer"⟩

-- The role with a namespace wins its identity, and its resource leads to the other one.
theorem scoped_twin_unreachable : (∃ dm ∈ (roleStore true).documents, dm.mapping = .followable ∧
      (roleStore true).isDuplicate dm = false ∧ dm.resource = some viewerRole ∧
      (roleStore true).byResourceIdentity viewerRole ≠ some dm) ∧
    ¬ Consistent (roleContext true) (roleFiles true) (roleStore true) := by
  have hlost : ∃ dm ∈ (roleStore true).documents, dm.mapping = .followable ∧
      (roleStore true).isDuplicate dm = false ∧ dm.resource = some viewerRole ∧
      (roleStore true).byResourceIdentity viewerRole ≠ some dm := by
    decide +kernel
  refine ⟨hlost, fun h => ?_⟩
  obtain ⟨dm, hdm, hfollow, hdup, hres, hne⟩ := hlost
  exact hne ((h.resources _ dm).mpr ⟨hdm, hfollow, hdup, hres⟩)

end GitopsReverser.Manifest
