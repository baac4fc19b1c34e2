import GitopsReverser.Flush.Scope

/-!
# BlindWrites — whether the next scan reads what a flush wrote

The flush asks the ignore file about each path it writes, as a file. The scan asks about the
directories above it first, and skips what lies below one that is ignored, a `.git` directory or a
symlink. The two agree on a file that was read before, so only new files are at stake.
-/

namespace GitopsReverser.Flush

open Reasoning Manifest
open Git (Path PruneMode)
open Setting (Work)

/-! ## 1. The names of new files -/

section Names

variable {s : Setting} {b : Batch} {work : Work}

theorem cleanSlash_of_valid {p : Path} (h : validateResolvedPlacementPath p = true) :
    cleanSlash p = p ∧ isYAMLFile p = true := by
  simp only [validateResolvedPlacementPath, Bool.and_eq_true, decide_eq_true_eq] at h
  obtain ⟨⟨⟨_, _, _, hclean, hdot⟩, _⟩, hyaml⟩ := h
  refine ⟨?_, hyaml⟩
  simp only [cleanSlash, hclean, if_neg hdot]

/-- The name of a delete patch survives cleaning: it ends in `-delete.yaml`. -/
theorem isYAMLFile_inheritedDeletePatchPath (authorInto : Path) (id : Identity) :
    isYAMLFile (cleanSlash (Setting.inheritedDeletePatchPath authorInto id)) = true := by
  have hsuffix : ∀ q : Path, "-delete.yaml".toList <:+ filepathBase q →
      filepathBase (cleanSlash q) = filepathBase q := by
    intro q hq
    have hlong := hq.length_le
    have hbase : filepathBase (pathClean q) = filepathBase q := by
      refine lastName_pathClean ?_ ?_ ?_ <;>
        (intro heq; rw [filepathBase, heq] at hlong; simp [dot, dotDot] at hlong)
    simp only [cleanSlash]
    split_ifs with hdot
    · rw [hdot] at hbase
      rw [← hbase] at hlong
      simp [filepathBase, lastName, splitSlash, dot] at hlong
    · exact hbase
  -- the suffix stands in the last name, whatever slashes the kind and the name bring along
  have hname : "-delete.yaml".toList <:+ filepathBase (Setting.inheritedDeletePatchName id) :=
    suffix_lastName (by decide) ⟨id.kind.toList.map Char.toLower ++ '-' :: id.name.toList, by
      simp [Setting.inheritedDeletePatchName]⟩
  have hjoin : "-delete.yaml".toList <:+ filepathBase (Setting.inheritedDeletePatchPath authorInto id) := by
    have hraw : ∀ q : Path, filepathBase q = filepathBase (Setting.inheritedDeletePatchName id) →
        "-delete.yaml".toList <:+ filepathBase (cleanSlash (pathClean q)) := by
      intro q hq
      have hq' : "-delete.yaml".toList <:+ filepathBase q := hq ▸ hname
      have hclean : filepathBase (pathClean q) = filepathBase q := by
        have hlong := hq'.length_le
        refine lastName_pathClean ?_ ?_ ?_ <;>
          (intro heq; rw [filepathBase, heq] at hlong; simp [dot, dotDot] at hlong)
      rw [hsuffix _ (hclean ▸ hq'), hclean]
      exact hq'
    simp only [Setting.inheritedDeletePatchPath, pathJoin]
    have hne : Setting.inheritedDeletePatchName id ≠ [] := by
      simp [Setting.inheritedDeletePatchName]
    split_ifs
    · exact hraw _ rfl
    · exact hraw _ (lastName_append_slash _ _)
  rw [← isYAMLFile_filepathBase, hsuffix _ hjoin]
  simp only [isYAMLFile, decide_eq_true_eq]
  exact .inl ((by decide : ".yaml".toList <:+ "-delete.yaml".toList).trans hjoin)

theorem isYAMLFile_of_new
    (hsound : StoreSound s) (hrun : s.perform work = .ok b) {p : Path}
    (hnew : s.contentByPath.lookup p = none)
    (hcur : s.current b p ≠ none) : isYAMLFile (cleanSlash p) = true := by
  refine perform_invariant (fun _ => True)
    (I := fun cur => ∀ p, s.contentByPath.lookup p = none → cur p ≠ none →
      isYAMLFile (cleanSlash p) = true) hsound (fun _ _ => trivial) ?_ ?_ hrun p hnew hcur
  · intro q hq hsome
    exact absurd hq hsome
  · -- only a new file and a delete patch write where nothing was read
    intro b q c ih hwrite r hr hsome
    dsimp only at hsome
    by_cases hrq : r = q
    · subst hrq
      rw [if_pos rfl] at hsome
      cases hwrite with
      | append hsafe _ _ =>
        have := contentByPath_of_fileIsAppendSafe hsound hsafe
        rw [hr] at this
        cases this
      | cold hval _ _ =>
        obtain ⟨hclean, hyaml⟩ := cleanSlash_of_valid hval
        rwa [hclean]
      | whole hread _ _ =>
        rw [hr] at hread
        cases hread
      | edit hc _ _ | kustomization hc _ | erase hc _ => exact ih r hr (by simp [hc])
      | patch authorInto id _ _ => exact isYAMLFile_inheritedDeletePatchPath authorInto id
    · rw [if_neg hrq] at hsome
      exact ih r hr hsome

end Names

/-! ## 2. What the next scan reads -/

/-- Every file the batch leaves in the folder, written or kept, is read by the next scan of it. -/
def NoBlindWrites (scope : Scope) (s : Setting) (b : Batch) (folder' : Folder) : Prop :=
  ∀ p, s.current b p ≠ none → scope.inJail p = true → scope.readsSpec s.tools.nameMatch folder' p = true

/-- The scan comes across this path: it lies inside the folder, below directories that are all
    descended into. -/
def Reachable (scope : Scope) (nameMatch : NameMatch) (folder : Folder) (p : Path) : Prop :=
  scope.rel p ≠ [] ∧ (scope.specFolder folder).visits nameMatch (scope.rel p) = true
  deriving Decidable

theorem classifyEntry_file_eq_managedYAML {nameMatch : NameMatch} {ignore : IgnoreMatcher}
    {rel : Path} (hyaml : isYAMLFile rel = true) (hvisible : ignore.matches nameMatch rel false = false) :
    classifyEntry nameMatch ignore rel .file = .managedYAML := by
  have hname : rel ≠ gitTargetIgnoreFileName := by
    rintro rfl
    exact absurd hyaml (by decide)
  simp [classifyEntry, hname, hvisible, hyaml]

theorem reads_nil {nameMatch : NameMatch} {folder : Folder} : folder.reads nameMatch [] = false := by
  have hrole : classifyEntry nameMatch folder.ignore.1 [] .file ≠ .managedYAML := by
    have hyaml : isYAMLFile [] = false := by decide
    have hartifact : isRecognizedArtifact [] = false := by decide
    have hname : [] ≠ gitTargetIgnoreFileName := by decide
    have hbenign : isBenignPassenger [] = false := by decide
    simp only [classifyEntry, hyaml, hartifact, hname, hbenign]
    cases folder.ignore.1.matches nameMatch [] false <;> decide
  simp [Folder.reads, hrole]

section Scan

variable {tools : Tools} {lookup : Lookup} {scope : Scope} {folder folder' : Folder}
  {policy : Option PlacementPolicy} {pruneMode : PruneMode} {p : Path}

/-- An accepted folder has no symlink that the walk comes across and the ignore file does not cover. -/
theorem not_symlink_of_accepted
    (haccept : (newWriteBatch tools lookup scope folder policy pruneMode).store.Accepted)
    (hjail : scope.inJail p = true)
    (hvisit : (scope.specFolder folder).visits tools.nameMatch (scope.rel p) = true)
    (hvisible : (scope.specFolder folder).ignore.1.matches tools.nameMatch (scope.rel p) false = false) :
    p ∉ folder.symlinks := by
  intro hsymlink
  simp only [ManifestStore.Accepted, ManifestStore.acceptStructureOnly, List.append_eq_nil_iff] at haccept
  obtain ⟨⟨_, hforeign⟩, _⟩ := haccept
  have hmem : (⟨p, true⟩ : ForeignEntry) ∈
      (newWriteBatch tools lookup scope folder policy pruneMode).store.foreign := by
    simp only [newWriteBatch, buildStore, Scope.scan, List.mem_append, List.mem_map]
    refine .inr ⟨p, List.mem_filter.mpr ⟨hsymlink, ?_⟩, rfl⟩
    simp [hjail, hvisit, classifyEntry, hvisible]
  rw [ManifestStore.foreignContentRefusals, List.map_eq_nil_iff] at hforeign
  rw [hforeign] at hmem
  cases hmem

/-- A flush that succeeds hides nothing from the next scan exactly when the scan comes across every
    file the flush adds. -/
theorem noBlindWrites_iff_new_files_reachable {work : Work} {b : Batch}
    (haccepted : (newWriteBatch tools lookup scope folder policy pruneMode).store.Accepted)
    (hrun : (newWriteBatch tools lookup scope folder policy pruneMode).perform work = .ok b)
    (hflush : (newWriteBatch tools lookup scope folder policy pruneMode).flush b folder = .ok folder') :
    NoBlindWrites scope (newWriteBatch tools lookup scope folder policy pruneMode) b folder' ↔
      ∀ p, (newWriteBatch tools lookup scope folder policy pruneMode).contentByPath.lookup p = none →
        (newWriteBatch tools lookup scope folder policy pruneMode).current b p ≠ none →
        Reachable scope tools.nameMatch folder p := by
  obtain ⟨hpermitted, hsymlink, -, hignore, -⟩ := flush_ok hflush
  constructor
  · intro hblind p hnew hcur
    have hchanged : (newWriteBatch tools lookup scope folder policy pruneMode).current b p ≠
        (newWriteBatch tools lookup scope folder policy pruneMode).contentByPath.lookup p := by
      rw [hnew]
      exact hcur
    -- a planned write lies in the jail
    have hjail : scope.inJail p = true := by
      have hin := hpermitted.inside p hchanged
      simp only [Setting.writePathEscapesScope, Bool.or_eq_false_iff, Bool.and_eq_false_iff,
        decide_eq_false_iff_not, not_not, Bool.not_eq_false'] at hin
      rcases hin.2 with hsub | hwithin
      · have hroot : scope.writeSubdir = [] := hsub
        simp [Scope.inJail, hroot, pathWithin, cleanSlash, pathClean, splitSlash, cleanStep]
      · rwa [pathWithin_pathClean] at hwithin
    have hread := hblind p hcur hjail
    rw [readsSpec_congr hsymlink hignore] at hread
    simp only [Scope.readsSpec, Bool.and_eq_true] at hread
    refine ⟨fun hnil => ?_, ?_⟩
    · have hreads := hread.2
      rw [hnil, reads_nil] at hreads
      cases hreads
    · have hreads := hread.2
      simp only [Folder.reads, Bool.and_eq_true] at hreads
      exact hreads.1
  · intro hreach p hcur hjail
    change scope.readsSpec tools.nameMatch folder' p = true
    rw [readsSpec_congr hsymlink hignore]
    cases hold : (newWriteBatch tools lookup scope folder policy pruneMode).contentByPath.lookup p with
    | some c =>
      -- read before, so read again
      rw [lookup_contentByPath] at hold
      split_ifs at hold with hreads
      simpa [Scope.reads, hjail] using hreads
    | none =>
      obtain ⟨hne, hvisits⟩ := hreach p hold hcur
      have hvisible := hpermitted.visible p (by rw [hold]; exact hcur)
      have hyaml : isYAMLFile (scope.rel p) = true := isYAMLFile_relUnder
        (isYAMLFile_of_new newWriteBatch_sound hrun hold hcur) hne
      have hnotsym := not_symlink_of_accepted haccepted hjail hvisits hvisible
      simp only [Scope.readsSpec, hjail, hnotsym, not_false_eq_true, decide_true, Bool.and_self,
        Bool.true_and, Folder.reads, hvisits]
      exact decide_eq_true (classifyEntry_file_eq_managedYAML hyaml hvisible)

end Scan

/-! ## 3. Two ignore files -/

def docsFolder (ignore : String) : Folder := { ignoreFile := some ignore.toList }

def docsSetting (ignore template : String) : Setting :=
  newWriteBatch literalTools configMapLookup {} (docsFolder ignore)
    (some { default := template.toList }) .unset

def upsertX : Work :=
  .events [{ identifier := configMapId "prod" "x", object := some (configMap "prod" "x") }]

/-- `docs/` is ignored and `docs/x.yaml` is not, so the file is written where no scan looks. -/
theorem negated_pattern_hides_written_file :
    let s := docsSetting "docs/\n!docs/x.yaml" "docs/\x7bname\x7d.yaml"
    s.store.Accepted ∧ ∃ b folder', s.perform upsertX = .ok b ∧
      s.flush b (docsFolder "docs/\n!docs/x.yaml") = .ok folder' ∧
      (folder'.yaml.lookup "docs/x.yaml".toList).isSome = true ∧ ¬ NoBlindWrites {} s b folder' := by
  refine ⟨by decide, _, _, rfl, rfl, by decide, fun h => ?_⟩
  exact absurd (h "docs/x.yaml".toList (by decide) (by decide)) (by decide)

def appsSetting : Setting := docsSetting "docs/" "apps/\x7bname\x7d.yaml"

theorem excluded_directory_hides_nothing : ∃ b folder', appsSetting.perform upsertX = .ok b ∧
      appsSetting.flush b (docsFolder "docs/") = .ok folder' ∧
      (folder'.yaml.lookup "apps/x.yaml".toList).isSome = true ∧
      NoBlindWrites {} appsSetting b folder' := by
  obtain ⟨b, folder', hrun, hflush, hfile, hplan⟩ : ∃ b folder', appsSetting.perform upsertX = .ok b ∧
      appsSetting.flush b (docsFolder "docs/") = .ok folder' ∧
      (folder'.yaml.lookup "apps/x.yaml".toList).isSome = true ∧
      appsSetting.planned b = ["apps/x.yaml".toList] := by
    refine ⟨_, _, rfl, rfl, ?_, ?_⟩ <;> decide
  refine ⟨b, folder', hrun, hflush, hfile, ?_⟩
  refine (noBlindWrites_iff_new_files_reachable (by decide) hrun hflush).mpr (fun p hnew hcur => ?_)
  have hplanned : p ∈ appsSetting.planned b := mem_planned.mpr (fun heq => hcur (heq.trans hnew))
  rw [hplan, List.mem_singleton] at hplanned
  subst hplanned
  decide

end GitopsReverser.Flush
