import GitopsReverser.Flush.Scope

/-!
# Acceptance — the rules of the acceptance gate, file by file

The gate refuses a folder for what its index records and diagnoses. Read off the files themselves,
its rules are six (`accepted_iff`). Two of them, about foreign content and the ignore file, a flush
cannot change (`foreign_after_flush`).
-/

namespace GitopsReverser.Flush

open Reasoning Manifest
open Git (Path PruneMode)

/-! ## 1. Documents without a record -/

variable {p : Path} {r : DiagReason}

theorem ne_of_diagnosis (h : diagnosis p d = some r) : r ≠ .nonEditable ∧ r ≠ .duplicateIdentity := by
  cases d with
  | blank text | comment text | invalid error text => cases h; decide
  | node n =>
    simp only [diagnosis] at h
    split_ifs at h <;> cases h <;> decide

theorem diagnosis_of_head {r : DocumentRecord}
    (h : (indexDocument p i d).1.head? = some r) : diagnosis p d = none := by
  by_contra hsome
  obtain ⟨reason, hreason⟩ := Option.ne_none_iff_exists'.mp hsome
  rw [(indexDocument_of_diagnosis hreason).1] at h
  cases h

theorem exists_record (hd : d ∈ c)
    (hrec : diagnosis p d = none) : ∃ r ∈ (indexOneFile ⟨p, c⟩).1, r.location.path = p := by
  obtain ⟨i, hi⟩ := List.mem_iff_getElem?.mp hd
  obtain ⟨r, hr⟩ := List.exists_mem_of_ne_nil _ (indexDocument_of_no_diagnosis (i := i) hrec).1
  have hfile : r ∈ (indexOneFile ⟨p, c⟩).1 :=
    List.mem_flatMap.mpr ⟨_, List.mem_map.mpr ⟨(d, i), List.mem_zipIdx_iff_getElem?.mpr hi, rfl⟩, hr⟩
  exact ⟨r, hfile, path_of_mem_indexOneFile hfile⟩

/-! ## 2. The rules of the gate, file by file -/

/-- A document without a record is let pass in a file without managed documents: an empty one, or
    a values file that a release names. -/
structure Tolerated (store : ManifestStore) (p : Path) (r : DiagReason) : Prop where
  reason : r = .emptyDocument ∨ r = .notKRM
  unmanaged : store.fileDocuments p = []
  values : r = .notKRM → filepathToSlash p ∈ store.valueFileRefs

/-- The rules of `acceptStructureOnly`, over the files that were read. -/
structure Acceptable (tools : Tools) (lookup : Lookup) (scope : Scope) (folder : Folder)
    (s : Setting) : Prop where
  unique : ∀ dm ∈ s.store.documents, ∀ dm' ∈ s.store.documents, dm.claimsIdentity = true →
    dm'.claimsIdentity = true → dm.identity = dm'.identity → dm = dm'
  tolerated : ∀ p c, s.contentByPath.lookup p = some c → allows p = false →
    ∀ d ∈ c, ∀ r, diagnosis p d = some r → Tolerated s.store p r
  unnamed : ∀ p c, s.contentByPath.lookup p = some c → allows p = true → ∀ d ∈ c, diagnosis p d ≠ none
  builds : ∀ p c, s.contentByPath.lookup p = some c → allows p = true →
    (retainFile s.store.kusts (renderFailures tools.kustomize
      (scope.scan tools.nameMatch folder).yamlFiles s.store.kusts) p).unsupported = false
  native : s.store.foreign = []
  ignore : s.store.ignoreIssues = []

section Gate

variable {tools : Tools} {lookup : Lookup} {scope : Scope} {folder : Folder}
  {policy : Option PlacementPolicy} {pruneMode : PruneMode} {s : Setting}

variable (hs : s = newWriteBatch tools lookup scope folder policy pruneMode)

include hs

theorem mem_diagnostics : x ∈ s.store.diagnostics ↔ ∃ p c, s.contentByPath.lookup p = some c ∧
      allows p = false ∧ ∃ d i, (d, i) ∈ c.zipIdx ∧ x ∈ (indexDocument p i d).2 := by
  have hunfold : s.store.diagnostics = ((scope.scan tools.nameMatch folder).yamlFiles.filter
      (fun f => !allows f.path)).flatMap (fun f => (indexOneFile f).2) := by
    rw [hs]
    rfl
  simp only [hunfold, indexOneFile, List.flatMap_map, List.mem_flatMap, List.mem_filter,
    Bool.not_eq_true', mem_yamlFiles_iff hs, Prod.exists]
  constructor
  · rintro ⟨f, ⟨hread, hall⟩, d, i, hd, hx⟩
    exact ⟨f.path, f.content, hread, hall, d, i, hd, hx⟩
  · rintro ⟨p, c, hread, hall, d, i, hd, hx⟩
    exact ⟨⟨p, c⟩, ⟨hread, hall⟩, d, i, hd, hx⟩

omit hs in
theorem recordlessRefusal_eq_none_iff (hr : r ≠ .nonEditable ∧ r ≠ .duplicateIdentity) :
    store.recordlessRefusal ⟨r, ⟨p, i⟩, message⟩ = none ↔ Tolerated store p r := by
  have hfields : Tolerated store p r ↔ (r = .emptyDocument ∨ r = .notKRM) ∧
      store.fileDocuments p = [] ∧ (r = .notKRM → filepathToSlash p ∈ store.valueFileRefs) :=
    ⟨fun h => ⟨h.reason, h.unmanaged, h.values⟩, fun h => ⟨h.1, h.2.1, h.2.2⟩⟩
  rw [hfields]
  by_cases hmanifest : store.fileDocuments p = []
  · cases r <;> simp_all [ManifestStore.recordlessRefusal]
  · cases r <;> simp_all [ManifestStore.recordlessRefusal]

theorem recordlessRefusal_nil_iff : s.store.diagnostics.filterMap s.store.recordlessRefusal = [] ↔
      ∀ p c, s.contentByPath.lookup p = some c → allows p = false →
        ∀ d ∈ c, ∀ r, diagnosis p d = some r → Tolerated s.store p r := by
  rw [List.filterMap_eq_nil_iff]
  constructor
  · intro h p c hread hall d hd r hr
    obtain ⟨i, hi⟩ := List.mem_iff_getElem?.mp hd
    obtain ⟨-, message, hdiag⟩ := indexDocument_of_diagnosis (i := i) hr
    refine (recordlessRefusal_eq_none_iff (ne_of_diagnosis hr)).mp (h ⟨r, ⟨p, i⟩, message⟩ ?_)
    exact (mem_diagnostics hs).mpr ⟨p, c, hread, hall, d, i,
      List.mem_zipIdx_iff_getElem?.mpr hi, by rw [hdiag]; simp⟩
  · intro h x hx
    obtain ⟨p, c, hread, hall, d, i, hd, hx⟩ := (mem_diagnostics hs).mp hx
    have hmem := List.mem_of_getElem? (List.mem_zipIdx_iff_getElem?.mp hd)
    cases hdiag : diagnosis p d with
    | some r =>
      obtain ⟨-, message, heq⟩ := indexDocument_of_diagnosis (i := i) hdiag
      rw [heq, List.mem_singleton] at hx
      rw [hx]
      exact (recordlessRefusal_eq_none_iff (ne_of_diagnosis hdiag)).mpr
        (h p c hread hall d hmem r hdiag)
    | none =>
      have hreason := (indexDocument_of_no_diagnosis hdiag).2 x hx
      simp [ManifestStore.recordlessRefusal, hreason]

theorem allowlisted_records_nil_iff : (recordsOf (scope.scan tools.nameMatch folder).yamlFiles).filter
        (fun r => allows r.location.path) = [] ↔
      ∀ p c, s.contentByPath.lookup p = some c → allows p = true → ∀ d ∈ c, diagnosis p d ≠ none := by
  rw [List.filter_eq_nil_iff]
  constructor
  · intro h p c hread hall d hd hnone
    obtain ⟨r, hfile, hpath⟩ := exists_record hd hnone
    refine h r (List.mem_flatMap.mpr ⟨⟨p, c⟩, (mem_yamlFiles_iff hs).mpr hread, hfile⟩) ?_
    rw [hpath]
    exact hall
  · intro h r hr hall
    obtain ⟨f, hf, hr⟩ := List.mem_flatMap.mp hr
    rw [path_of_mem_indexOneFile hr] at hall
    obtain ⟨d, i, hd, r₀, hr₀, -⟩ := mem_indexOneFile.mp hr
    have hmem := List.mem_of_getElem? (List.mem_zipIdx_iff_getElem?.mp hd)
    exact h f.path f.content ((mem_yamlFiles_iff hs).mp hf) hall d hmem (diagnosis_of_head hr₀)

/-- A retained document is a record of an allowlisted file, a patch file, or an allowlisted file
    without records. -/
theorem mem_retained (h : rd ∈ s.store.retained) :
    (∃ r ∈ (recordsOf (scope.scan tools.nameMatch folder).yamlFiles).filter
        (fun r => allows r.location.path), rd.identity = some r.identity ∧ rd.unsupported = false) ∨
      (rd.identity = none ∧ rd.unsupported = false) ∨
      ∃ p c, s.contentByPath.lookup p = some c ∧ allows p = true ∧ rd = retainFile s.store.kusts
        (renderFailures tools.kustomize (scope.scan tools.nameMatch folder).yamlFiles s.store.kusts) p := by
  have hfile := fun f => mem_yamlFiles_iff hs (f := f)
  subst hs
  rcases List.mem_append.mp h with h | h
  · rcases List.mem_append.mp h with h | h
    · obtain ⟨r, hr, rfl⟩ := List.mem_map.mp h
      exact .inl ⟨r, hr, rfl, rfl⟩
    · obtain ⟨f, -, rfl⟩ := List.mem_map.mp h
      exact .inr (.inl ⟨rfl, rfl⟩)
  · obtain ⟨f, hf, rfl⟩ := List.mem_map.mp h
    obtain ⟨hmem, hkeep⟩ := List.mem_filter.mp hf
    simp only [Bool.and_eq_true] at hkeep
    exact .inr (.inr ⟨f.path, f.content, (hfile f).mp hmem, hkeep.1, rfl⟩)

theorem mixedFileRefusals_nil_iff : s.store.mixedFileRefusals = [] ↔
      ∀ p c, s.contentByPath.lookup p = some c → allows p = true → ∀ d ∈ c, diagnosis p d ≠ none := by
  rw [← allowlisted_records_nil_iff hs, ManifestStore.mixedFileRefusals, List.map_eq_nil_iff,
    List.filter_eq_nil_iff]
  constructor
  · intro h
    refine List.eq_nil_iff_forall_not_mem.mpr (fun r hr => ?_)
    have hretain : (⟨r.location, some r.identity, false⟩ : RetainedDocument) ∈ s.store.retained := by
      subst hs
      exact List.mem_append_left _ (List.mem_append_left _ (List.mem_map.mpr ⟨r, hr, rfl⟩))
    refine h _ hretain ?_
    obtain ⟨f, -, hrec⟩ := List.mem_flatMap.mp (List.mem_filter.mp hr).1
    obtain ⟨d, i, -, r₀, hr₀, rfl⟩ := mem_indexOneFile.mp hrec
    have hcomplete := complete_of_mem_indexDocument (List.mem_of_mem_head? hr₀)
    simpa using hcomplete.2.2
  · intro hnil rd hrd
    rcases mem_retained hs hrd with ⟨r, hr, -⟩ | ⟨hidentity, -⟩ | ⟨p, c, -, -, rfl⟩
    · rw [hnil] at hr
      cases hr
    · simp [hidentity]
    · simp [retainFile]

theorem unsupportedKustomizeRefusals_nil_iff
    (hunnamed : ∀ p c, s.contentByPath.lookup p = some c → allows p = true →
      ∀ d ∈ c, diagnosis p d ≠ none) :
    s.store.unsupportedKustomizeRefusals = [] ↔
      ∀ p c, s.contentByPath.lookup p = some c → allows p = true →
        (retainFile s.store.kusts (renderFailures tools.kustomize
          (scope.scan tools.nameMatch folder).yamlFiles s.store.kusts) p).unsupported = false := by
  rw [ManifestStore.unsupportedKustomizeRefusals, List.map_eq_nil_iff, List.filter_eq_nil_iff]
  constructor
  · intro h p c hread hall
    -- no document of the file has a record, so the file itself is retained
    have hnil := (allowlisted_records_nil_iff hs).mpr hunnamed
    have hfile := (mem_yamlFiles_iff hs (f := ⟨p, c⟩)).mpr hread
    rw [← Bool.not_eq_true]
    refine h _ ?_
    subst hs
    refine List.mem_append_right _ (List.mem_map.mpr ⟨⟨p, c⟩, List.mem_filter.mpr ⟨hfile, ?_⟩, rfl⟩)
    rw [hnil]
    simp [hall]
  · intro h rd hrd
    rcases mem_retained hs hrd with ⟨r, -, -, hsupported⟩ | ⟨-, hsupported⟩ | ⟨p, c, hread, hall, rfl⟩
    · simp [hsupported]
    · simp [hsupported]
    · simp [h p c hread hall]

theorem accepted_iff : s.store.Accepted ↔ Acceptable tools lookup scope folder s := by
  simp only [ManifestStore.Accepted, ManifestStore.acceptStructureOnly, List.append_eq_nil_iff]
  rw [ManifestStore.duplicateRefusals_nil_iff, recordlessRefusal_nil_iff hs, mixedFileRefusals_nil_iff hs,
    ManifestStore.foreignContentRefusals, List.map_eq_nil_iff]
  constructor
  · rintro ⟨⟨⟨⟨⟨hunique, htolerate⟩, hunnamed⟩, hbuilt⟩, hnat⟩, hignore⟩
    exact ⟨hunique, htolerate, hunnamed, (unsupportedKustomizeRefusals_nil_iff hs hunnamed).mp hbuilt,
      hnat, hignore⟩
  · rintro ⟨hunique, htolerate, hunnamed, hbuilt, hnat, hignore⟩
    exact ⟨⟨⟨⟨⟨hunique, htolerate⟩, hunnamed⟩,
      (unsupportedKustomizeRefusals_nil_iff hs hunnamed).mpr hbuilt⟩, hnat⟩, hignore⟩

end Gate

/-! ## 3. After a flush -/

theorem foreign_after_flush {folder folder' : Folder} {s s' : Setting} {b : Batch}
    (hs : s = newWriteBatch tools lookup scope folder policy pruneMode)
    (hflush : s.flush b folder = .ok folder')
    (hs' : s' = newWriteBatch tools lookup scope folder' policy pruneMode) :
    s'.store.foreign = s.store.foreign ∧ s'.store.ignoreIssues = s.store.ignoreIssues := by
  obtain ⟨-, hsymlinks, hother, hignore, -⟩ := flush_ok hflush
  subst hs hs'
  have hspec : scope.specFolder folder' = scope.specFolder folder := by
    simp only [Scope.specFolder, hsymlinks, hignore]
  simp only [newWriteBatch, buildStore, Scope.scan, Scope.foreignAmong, hspec, hsymlinks,
    hother, and_self]

end GitopsReverser.Flush
