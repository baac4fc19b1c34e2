import GitopsReverser.Manifest.Kustomization

/-!
# KustomizationEdit — the bounded edits of a `kustomization.yaml`

Every edit goes through `editKustomization`: the file must hold one document, a mapping, and an edit
that cannot be made leaves the file alone. `none` is a file that is not written.
-/

namespace GitopsReverser.Manifest

open Git (Path trimSpace)

/-! ## 1. The one document of the file -/

/-- `kustomization.go`, `locateKustomizationDocument` and the re-encoding around it. -/
def editKustomization (edit : KustomizationFile → Option KustomizationFile) (content : Content) :
    Option Content :=
  match content.filter (fun d => !d.isBlank) with
  | [.node n] =>
    if n.mapping then
      match n.kustomization.bind edit with
      | some k => some (content.map (fun d =>
        if d.isBlank then d else .node { n with kustomization := some k }))
      | none => none
    else none
  | _ => none

variable {edit : KustomizationFile → Option KustomizationFile}

theorem editKustomization_eq_some {content edited : Content}
    (h : editKustomization edit content = some edited) :
    ∃ n k k', content.filter (fun d => !d.isBlank) = [.node n] ∧ n.mapping = true ∧
      n.kustomization = some k ∧ edit k = some k' ∧
      edited = content.map (fun d =>
        if d.isBlank then d else .node { n with kustomization := some k' }) := by
  unfold editKustomization at h
  split at h
  · rename_i n hone
    split_ifs at h with hmap
    split at h
    · rename_i k' hk'
      obtain ⟨k, hk, hedit⟩ := Option.bind_eq_some_iff.mp hk'
      exact ⟨n, k, k', hone, hmap, hk, hedit, (Option.some.inj h).symm⟩
    · cases h
  · cases h

theorem decoded_editKustomization {content edited : Content}
    (h : editKustomization edit content = some edited) :
    ∃ n k k', decoded content = [.node n] ∧ n.kustomization = some k ∧ edit k = some k' ∧
      decoded edited = [.node { n with kustomization := some k' }] := by
  obtain ⟨n, k, k', hone, -, hk, hedit, rfl⟩ := editKustomization_eq_some h
  refine ⟨n, k, k', hone, hk, hedit, ?_⟩
  have hblank : ∀ d : Document,
      (if d.isBlank then d else Document.node { n with kustomization := some k' }).isBlank =
        d.isBlank := by
    intro d
    cases hd : d.isBlank with
    | true => simp [hd]
    | false => rfl
  rw [decoded, List.filter_map, Function.comp_def]
  simp only [hblank]
  rw [hone]
  rfl

/-! ## 2. Resources and patches -/

def appendResource (entry : Path) (k : KustomizationFile) : Option KustomizationFile :=
  match k.resources with
  | none => none
  | some rs =>
    if rs.any (fun r => trimSpace r = trimSpace entry) then none
    else some { k with resources := some (rs ++ [entry]) }

def removeResource (entry : Path) (k : KustomizationFile) : Option KustomizationFile :=
  match k.resources with
  | none => none
  | some rs =>
    if rs.any (fun r => trimSpace r = trimSpace entry) then
      some { k with resources := some (rs.filter (fun r => trimSpace r ≠ trimSpace entry)) }
    else none

def appendPatch (patchPath : Path) (k : KustomizationFile) : Option KustomizationFile :=
  if k.patches.any (fun p => trimSpace p.path = trimSpace patchPath) then none
  else some { k with patches := k.patches ++ [⟨patchPath, []⟩] }

/-! ## 3. Override entries -/

/-- The scalar an override edit sets; it names the section. -/
inductive OverrideValue where
  | newName (v : String)
  | newTag (v : String)
  | digest (v : String)
  | count (n : Int)
  deriving DecidableEq, Repr

structure OverrideEdit where
  kustomizationPath : Path
  -- author a new entry instead of editing the one at `entryIndex`
  create : Bool
  entryIndex : Nat
  entryName : Path
  value : OverrideValue
  deriving DecidableEq, Repr

/-- Only a field that is already there is updated. -/
def ImageEntry.update (e : ImageEntry) : OverrideValue → Option ImageEntry
  | .newName v => if e.newName = "" then none else some { e with newName := v }
  | .newTag v => if e.newTag = "" then none else some { e with newTag := v }
  | .digest v => if e.digest = "" then none else some { e with digest := v }
  | .count _ => none

/-- The entry is found by its place and checked by its name. -/
def applyKustomizationEdit (k : KustomizationFile) (e : OverrideEdit) : Option KustomizationFile :=
  match e.value with
  | .count n =>
    match k.replicas[e.entryIndex]? with
    | none => none
    | some r =>
      if r.name = e.entryName then
        some { k with replicas := k.replicas.set e.entryIndex { r with count := n } }
      else none
  | v =>
    match k.images[e.entryIndex]? with
    | none => none
    | some i =>
      if i.name = e.entryName then
        (i.update v).map (fun i' => { k with images := k.images.set e.entryIndex i' })
      else none

def patchOverrides (edits : List OverrideEdit) (k : KustomizationFile) : Option KustomizationFile :=
  match edits.foldlM applyKustomizationEdit k with
  | none => none
  | some k' => if k' = k then none else some k'

def appendOverride (e : OverrideEdit) (k : KustomizationFile) : Option KustomizationFile :=
  let image (i : ImageEntry) (present : ImageEntry → Bool) :=
    if k.images.any (fun j => j.name = e.entryName && present j) then none
    else some { k with images := k.images ++ [i] }
  match e.value with
  | .newName v => image ⟨e.entryName, v, "", "", []⟩ (·.newName = v)
  | .newTag v => image ⟨e.entryName, "", v, "", []⟩ (·.newTag = v)
  | .digest v => image ⟨e.entryName, "", "", v, []⟩ (·.digest = v)
  | .count n =>
    if k.replicas.any (fun r => r.name = e.entryName && r.count = n) then none
    else some { k with replicas := k.replicas ++ [⟨e.entryName, n⟩] }

end GitopsReverser.Manifest
