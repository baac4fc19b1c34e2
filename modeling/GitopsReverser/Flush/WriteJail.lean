import GitopsReverser.Flush.Scope

/-!
# WriteJail — what a flush may touch

A flush is refused before its first byte, or all it touches lies in the write scope. Two render
roots may also share a file: the fan-in check counts the resources two roots reach, but a root reads
its kustomizations and their patch files as well.
-/

namespace GitopsReverser.Flush

open Reasoning Manifest
open Git (Path PruneMode)

/-! ## 1. What a render root reads -/

def builtFrom (kusts : Kustomizations) : Nat → List Path → Path → List Path
  | 0, _, _ => []
  | depth + 1, onPath, dir =>
    match kusts.lookup dir with
    | none => []
    | some cur =>
      if dir ∈ onPath then []
      else dir :: (cur.resources.map (cleanJoin dir)).flatMap (fun target =>
        if target = [] then []
        else if target ∈ kusts then builtFrom kusts depth (dir :: onPath) target
        else [])

def resourcesOf (kusts : Kustomizations) (root : Path) : List Path :=
  reachedFrom kusts (kusts.keys.length + 1) [] root

def directivesOf (kusts : Kustomizations) (root : Path) : List Path :=
  (builtFrom kusts (kusts.keys.length + 1) [] root).flatMap (fun dir =>
    (kusts.lookup dir).elim [] (fun k => k.path :: k.patches))

def readBy (kusts : Kustomizations) (root : Path) : List Path :=
  resourcesOf kusts root ++ directivesOf kusts root

def Shared (kusts : Kustomizations) (p : Path) : Prop :=
  ∃ root ∈ renderRoots kusts, ∃ other ∈ renderRoots kusts, root ≠ other ∧
    filepathToSlash p ∈ readBy kusts root ∧ filepathToSlash p ∈ readBy kusts other
  deriving Decidable

/-- More than one render root reads the file, and one of them as a directive. -/
def SharedDirective (kusts : Kustomizations) (p : Path) : Prop :=
  ∃ root ∈ renderRoots kusts, ∃ other ∈ renderRoots kusts, root ≠ other ∧
    filepathToSlash p ∈ directivesOf kusts root ∧ filepathToSlash p ∈ readBy kusts other
  deriving Decidable

theorem SharedDirective.shared {kusts : Kustomizations} {p : Path} (h : SharedDirective kusts p) :
    Shared kusts p := by
  obtain ⟨root, hroot, other, hother, hne, hdir, hread⟩ := h
  exact ⟨root, hroot, other, hother, hne, List.mem_append_right _ hdir, hread⟩

theorem mem_fanIn_of_shared {kusts : Kustomizations} {p : Path} (h : Shared kusts p)
    (hplain : ¬ SharedDirective kusts p) : filepathToSlash p ∈ renderRootFanIn kusts := by
  obtain ⟨root, hroot, other, hother, hne, hread, hread'⟩ := h
  have hres : filepathToSlash p ∈ resourcesOf kusts root := by
    refine (List.mem_append.mp hread).resolve_right (fun hdir => hplain ?_)
    exact ⟨root, hroot, other, hother, hne, hdir, hread'⟩
  have hres' : filepathToSlash p ∈ resourcesOf kusts other := by
    refine (List.mem_append.mp hread').resolve_right (fun hdir => hplain ?_)
    exact ⟨other, hother, root, hroot, Ne.symm hne, hdir, hread⟩
  exact mem_renderRootFanIn.mpr ⟨root, hroot, other, hother, hne, hres, hres'⟩

/-! ## 2. The worktree after a flush -/

/-- The path lies in the write scope: below `writeSubdir`, or below the scanned root when the two
    are one. -/
structure InJail (s : Setting) (p : Path) : Prop where
  named : p ≠ []
  relative : p.head? ≠ some '/'
  below : escapes (pathClean p) = false
  within : pathWithin p s.writeSubdir = true

theorem inJail_of_not_escapes {s : Setting} {p : Path} (h : s.writePathEscapesScope p = false) :
    InJail s p := by
  simp only [Setting.writePathEscapesScope, Bool.or_eq_false_iff, decide_eq_false_iff_not, not_or,
    Bool.and_eq_false_iff, Bool.not_eq_false', not_not, pathWithin_pathClean] at h
  obtain ⟨⟨⟨hname, hrelative⟩, hbelow⟩, hwithin⟩ := h
  refine ⟨hname, hrelative, hbelow, ?_⟩
  rcases hwithin with hroot | hwithin
  · rw [hroot]
    rfl
  · exact hwithin

def EditedInPlace (was now : Option Content) : Prop :=
  was.isSome = true ∧ now.isSome = true ∧ now ≠ was

/-- A flush is refused and leaves the worktree alone, or it touches nothing but YAML files in the
    write scope and edits none in place that more than one render root reads. -/
def KeepsBoundary (s : Setting) (work : Setting.Work) (folder : Folder) : Prop :=
  ((∃ e, s.run work folder = .error e) ∧ s.worktree work folder = folder) ∨
  ∃ folder', s.run work folder = .ok folder' ∧ s.worktree work folder = folder' ∧
    folder'.symlinks = folder.symlinks ∧ folder'.others = folder.others ∧
    folder'.ignoreFile = folder.ignoreFile ∧
    (∀ p, folder'.yaml.lookup p ≠ folder.yaml.lookup p → InJail s p) ∧
    ∀ p, EditedInPlace (folder.yaml.lookup p) (folder'.yaml.lookup p) → ¬ Shared s.store.kusts p

theorem changed_of_leaves {s : Setting} {b : Batch} {folder : Folder} {p : Path}
    (h : s.leaves b folder p ≠ folder.yaml.lookup p) :
    s.current b p ≠ s.contentByPath.lookup p :=
  fun hsame => h (leaves_of_same hsame)

section Boundary

variable {tools : Tools} {lookup : Lookup} {scope : Scope} {folder : Folder}
  {policy : Option PlacementPolicy} {pruneMode : PruneMode} {s : Setting} {work : Setting.Work}

/-- A flush keeps to its boundary exactly when its batch plans no edit of a kustomization or a patch
    file that more than one render root reads. -/
theorem keepsBoundary_iff (hs : s = newWriteBatch tools lookup scope folder policy pruneMode) :
    KeepsBoundary s work folder ↔
      ∀ b ∈ s.plan work, ∀ p, EditedInPlace (folder.yaml.lookup p) (s.leaves b folder p) →
        ¬ SharedDirective s.store.kusts p := by
  constructor
  · intro hkeeps b hb p hedit hshared
    obtain ⟨folder', hflush⟩ : ∃ folder', s.flush b folder = .ok folder' :=
      flush_eq_ok_iff.mpr (mem_plan_iff.mp hb).2
    have hrun := run_eq_ok_iff.mpr ⟨b, hb, hflush⟩
    rcases hkeeps with ⟨⟨e, herror⟩, -⟩ | ⟨folder₁, hok, -, -, -, -, -, hedits⟩
    · rw [herror] at hrun
      cases hrun
    · obtain rfl : folder₁ = folder' := Except.ok.inj (hok.symm.trans hrun)
      refine hedits p ?_ hshared.shared
      rwa [(flush_ok hflush).2.2.2.2 p]
  · intro h
    cases hrun : s.run work folder with
    | error e =>
      refine Or.inl ⟨⟨e, hrun⟩, ?_⟩
      rw [Setting.worktree, hrun]
    | ok folder' =>
      obtain ⟨b, hb, hflush⟩ := run_eq_ok_iff.mp hrun
      obtain ⟨hpermitted, hsymlink, hothers, hignore, hleaves⟩ := flush_ok hflush
      -- the flush writes only what the batch changed, and each such path was checked
      have hplanned : ∀ p, folder'.yaml.lookup p ≠ folder.yaml.lookup p →
          s.current b p ≠ s.contentByPath.lookup p := by
        intro p hp
        rw [hleaves p] at hp
        exact changed_of_leaves hp
      refine Or.inr ⟨folder', hrun, ?_, hsymlink, hothers, hignore, fun p hp => ?_,
        fun p hedit hshared => ?_⟩
      · rw [Setting.worktree, hrun]
      · exact inJail_of_not_escapes (hpermitted.inside p (hplanned p hp))
      · have hcounted : s.store.fanIn = renderRootFanIn s.store.kusts := by
          rw [hs]
          rfl
        have hfan : filepathToSlash p ∈ s.store.fanIn :=
          hcounted ▸ mem_fanIn_of_shared hshared (h b hb p (hleaves p ▸ hedit))
        have howned := hpermitted.owned p (hplanned p hedit.2.2)
        simp [ManifestStore.reachedByMultipleRenderRoots, hfan] at howned

end Boundary

def plainRender : Renderer := fun files root =>
  .ok ((resourcesOf (parseKustomizations files) root).flatMap (fun p =>
    (files.filter (fun f => f.path = p)).flatMap (fun f => f.content.filterMap (fun
      | .node n => some ⟨⟨"", n.identity.apiVersion, n.identity.kind, n.identity.ns,
          n.identity.name, ""⟩, p⟩
      | _ => none))))

def plainTools : Tools :=
  { literalTools with kustomize := { render := plainRender, attribution := fun _ _ => {} } }

def overlayOf (base : String) : Content :=
  [kustomizationDocument { resources := some [base.toList] }]

def overlaidFolder (overlays : List String) : Folder where
  yaml := (overlays.map (fun name =>
      (("overlays/" ++ name ++ "/kustomization.yaml").toList, overlayOf "../../base"))).foldl
    (fun tree f => tree.insert f.1 f.2)
    ((AList.insert "base/a.yaml".toList [configMapDocument "prod" "a"] ∅).insert
      "base/kustomization.yaml".toList (overlayOf "a.yaml"))

def overlaidSetting (overlays : List String) : Setting :=
  newWriteBatch plainTools configMapLookup {} (overlaidFolder overlays) none .unset

def newConfigMap : Setting.Work :=
  .events [{ identifier := configMapId "prod" "b", object := some (configMap "prod" "b") }]

-- The new file is nobody's resource yet; the entry for it goes into the base of both overlays.
theorem shared_kustomization_edited : ∃ folder', (overlaidSetting ["dev", "prod"]).store.Accepted ∧
      (overlaidSetting ["dev", "prod"]).run newConfigMap (overlaidFolder ["dev", "prod"]) =
        .ok folder' ∧
      folder'.yaml.lookup "base/kustomization.yaml".toList =
        some [kustomizationDocument { resources := some ["a.yaml".toList, "b.yaml".toList] }] ∧
      Shared (overlaidSetting ["dev", "prod"]).store.kusts "base/kustomization.yaml".toList ∧
      ¬ KeepsBoundary (overlaidSetting ["dev", "prod"]) newConfigMap
        (overlaidFolder ["dev", "prod"]) := by
  obtain ⟨folder', hrun, hentry, hold⟩ : ∃ folder',
      (overlaidSetting ["dev", "prod"]).run newConfigMap (overlaidFolder ["dev", "prod"]) =
        .ok folder' ∧
      folder'.yaml.lookup "base/kustomization.yaml".toList =
        some [kustomizationDocument { resources := some ["a.yaml".toList, "b.yaml".toList] }] ∧
      (overlaidFolder ["dev", "prod"]).yaml.lookup "base/kustomization.yaml".toList =
        some (overlayOf "a.yaml") :=
    ⟨_, rfl, by decide, by decide⟩
  refine ⟨folder', by decide, hrun, hentry, by decide, ?_⟩
  rintro (⟨⟨e, herror⟩, -⟩ | ⟨folder₁, hok, -, -, -, -, -, hedits⟩)
  · cases herror.symm.trans hrun
  · obtain rfl : folder₁ = folder' := Except.ok.inj (hok.symm.trans hrun)
    refine hedits "base/kustomization.yaml".toList ⟨?_, ?_, ?_⟩ (by decide)
    · rw [hold]
      rfl
    · rw [hentry]
      rfl
    · rw [hentry, hold]
      decide

theorem single_overlay_edited :
    ∃ folder', (overlaidSetting ["dev"]).run newConfigMap (overlaidFolder ["dev"]) = .ok folder' ∧
      folder'.yaml.lookup "base/b.yaml".toList = some [configMapDocument "prod" "b"] ∧
      KeepsBoundary (overlaidSetting ["dev"]) newConfigMap (overlaidFolder ["dev"]) := by
  refine ⟨_, rfl, by decide, (keepsBoundary_iff rfl).mpr (fun _ _ p _ hshared => ?_)⟩
  -- one overlay is one render root
  obtain ⟨root, hroot, other, hother, hne, -⟩ := hshared
  have hone : ∀ r ∈ renderRoots (overlaidSetting ["dev"]).store.kusts, r = "overlays/dev".toList := by
    decide
  exact hne ((hone root hroot).trans (hone other hother).symm)

end GitopsReverser.Flush
