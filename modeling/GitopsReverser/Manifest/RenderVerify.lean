import GitopsReverser.Manifest.Kustomization

/-!
# RenderVerify — the oracle over a flush that touches a render root

`verifyBatchRenders` renders every target of the resulting tree twice and compares the two
renders object by object. The renderer is a parameter: nothing is assumed about it.
-/

namespace GitopsReverser.Manifest

open Reasoning
open Git (Path)

/-! ## 1. Rendered objects and intents -/

/-- An object by its identity and its canonical JSON. -/
structure Object where
  group : String
  version : String
  kind : String
  ns : String
  name : String
  json : String
  deriving DecidableEq, Repr

structure RenderedObject where
  object : Object
  originPath : Path
  deriving DecidableEq, Repr

/-- `override_chain.go`, `chainKey`: no namespace and no group. -/
structure ChainKey where
  originPath : Path
  kind : String
  name : String
  deriving DecidableEq, Repr

structure WriteIntent where
  sourcePath : Path
  kind : String
  name : String
  desired : Option Object := none
  removed : Bool := false
  unchecked : Bool := false
  governed : Bool := false
  deriving DecidableEq, Repr

/-- `renderRoot`: the objects a directory of a tree renders to, or why it does not build. -/
abbrev Renderer := List FileContent → Path → Except String (List RenderedObject)

def WriteIntent.key (w : WriteIntent) : ChainKey :=
  ⟨filepathToSlash w.sourcePath, w.kind, w.name⟩

def RenderedObject.key (o : RenderedObject) : ChainKey :=
  ⟨o.originPath, o.object.kind, o.object.name⟩

/-! ## 2. The comparison -/

abbrev RenderedByKey := Dict ChainKey RenderedObject

def renderedByKey (objects : List RenderedObject) : RenderedByKey :=
  accumulate RenderedObject.key (fun _ o => o) objects ∅

def intentsByKey (intents : List WriteIntent) : Dict ChainKey WriteIntent :=
  accumulate WriteIntent.key (fun _ i => i) intents ∅

def unionKeys (was now : RenderedByKey) : List ChainKey :=
  was.keys ++ now.keys.filter (· ∉ was.keys)

private def text (p : Path) : String := String.ofList p

def compareKey (root : Path) (intents : Dict ChainKey WriteIntent)
    (was now : RenderedByKey) (key : ChainKey) : List String :=
  match intents.lookup key with
  | none =>
    match was.lookup key, now.lookup key with
    | some before, some after =>
      if before.object = after.object then []
      else ["the write also changes what render root " ++ text root ++ " renders for " ++
        key.kind ++ "/" ++ key.name ++ " (from " ++ text key.originPath ++
        "), which it never set out to write"]
    | _, _ => ["the write adds or removes " ++ key.kind ++ "/" ++ key.name ++
        " in render root " ++ text root ++ ", which it never set out to write"]
  | some intent =>
    if intent.removed then
      if (now.lookup key).isSome then
        [key.kind ++ "/" ++ key.name ++ " was deleted, but render root " ++ text root ++
          " still renders it"]
      else []
    else if intent.unchecked then []
    else match now.lookup key with
      | none => [key.kind ++ "/" ++ key.name ++ " was written, but render root " ++ text root ++
          " no longer renders it"]
      | some after =>
        if some after.object = intent.desired then []
        else ["in render root " ++ text root ++ ", " ++ key.kind ++ "/" ++ key.name ++
          " (from " ++ text key.originPath ++
          ") does not render to the live object after the write"]

/-- What one render root contributes: its findings, and the intents it saw rendered. -/
structure RootReport where
  reasons : List String
  seen : List ChainKey := []

def compareRoot (root : Path) (intents : Dict ChainKey WriteIntent)
    (was now : RenderedByKey) : RootReport :=
  { reasons := (unionKeys was now).flatMap (compareKey root intents was now)
    seen := (unionKeys was now).filter (· ∈ intents) }

def verifyRoot (render : Renderer) (before after : List FileContent)
    (intents : Dict ChainKey WriteIntent) (root : Path) : RootReport :=
  match render before root with
  | .error e => { reasons := ["render root " ++ text root ++ " did not build before the write: " ++ e] }
  | .ok was =>
    match render after root with
    | .error e => { reasons :=
        ["render root " ++ text root ++ " no longer builds with the write applied: " ++ e] }
    | .ok now => compareRoot root intents (renderedByKey was) (renderedByKey now)

/-- The reasons of the refusal, sorted; none at all is the `nil` error. -/
def verifyBatchRenders (render : Renderer) (before after : List FileContent)
    (intents : List WriteIntent) : List String :=
  let reports := (renderTargets (parseKustomizations after)).map
    (verifyRoot render before after (intentsByKey intents))
  let seen := reports.flatMap RootReport.seen
  let unseen := (intents.filter (fun i => i.governed && i.key ∉ seen)).map (fun i =>
    i.kind ++ "/" ++ i.name ++ " in " ++ text i.sourcePath ++
      " was routed through a kustomization override, but no render root renders it")
  (reports.flatMap RootReport.reasons ++ unseen).insertionSort (· ≤ ·)

/-! ## 3. What a `nil` verdict establishes -/

def objectsAt (render : Renderer) (tree : List FileContent) (root : Path) : List RenderedObject :=
  match render tree root with
  | .ok objects => objects
  | .error _ => []

/-- What the comparison asks of a key: of its last intent and of the last objects rendered for it. -/
def KeyPasses (intent : Option WriteIntent) (was now : Option RenderedObject) : Prop :=
  match intent with
  | none => ∃ before after, was = some before ∧ now = some after ∧ before.object = after.object
  | some i =>
    if i.removed then now = none
    else if i.unchecked then True
    else ∃ after, now = some after ∧ some after.object = i.desired

section Verdict

variable {render : Renderer} {before after : List FileContent} {intents : List WriteIntent}
  {root : Path} {o : RenderedObject} {key : ChainKey} {objects was now : List RenderedObject}

theorem compareKey_nil_iff {d : Dict ChainKey WriteIntent} {was now : RenderedByKey} :
    compareKey root d was now key = [] ↔
      KeyPasses (d.lookup key) (was.lookup key) (now.lookup key) := by
  unfold compareKey KeyPasses
  cases d.lookup key with
  | none =>
    cases was.lookup key with
    | none => simp
    | some b =>
      cases now.lookup key with
      | none => simp
      | some a => simp
  | some i =>
    dsimp only
    split
    · cases now.lookup key <;> simp
    · split
      · simp
      · cases now.lookup key <;> simp

theorem lookup_renderedByKey : (renderedByKey objects).lookup key =
    (objects.filter (fun o => o.key = key)).getLast? := by
  rw [renderedByKey, lookup_overwrite]
  simp

theorem lookup_renderedByKey_mem
    (h : (renderedByKey objects).lookup key = some o) : o ∈ objects ∧ o.key = key := by
  rw [lookup_renderedByKey] at h
  have ho := List.mem_filter.mp (List.mem_of_getLast? h)
  exact ⟨ho.1, of_decide_eq_true ho.2⟩

theorem lookup_renderedByKey_isSome :
    ((renderedByKey objects).lookup key).isSome = true ↔ ∃ o ∈ objects, o.key = key := by
  rw [lookup_renderedByKey, Option.isSome_iff_ne_none, Ne, List.getLast?_eq_none_iff,
    List.filter_eq_nil_iff]
  simp

theorem mem_unionKeys : key ∈ unionKeys (renderedByKey was) (renderedByKey now) ↔
    ∃ o ∈ was ++ now, o.key = key := by
  have hkeys : ∀ objects, key ∈ (renderedByKey objects).keys ↔ ∃ o ∈ objects, o.key = key := by
    intro objects
    rw [← AList.mem_keys, ← AList.lookup_isSome, lookup_renderedByKey_isSome]
  simp only [unionKeys, List.mem_append, List.mem_filter, decide_eq_true_eq, hkeys, or_and_right,
    exists_or]
  by_cases hwas : ∃ o ∈ was, o.key = key <;> simp [hwas]

theorem verifyRoot_nil_iff : (verifyRoot render before after (intentsByKey intents) root).reasons = [] ↔
    ∃ was now, render before root = .ok was ∧ render after root = .ok now ∧
      ∀ o ∈ was ++ now, KeyPasses ((intentsByKey intents).lookup o.key)
        ((renderedByKey was).lookup o.key) ((renderedByKey now).lookup o.key) := by
  unfold verifyRoot
  cases render before root with
  | error e => simp
  | ok was =>
    cases render after root with
    | error e => simp
    | ok now =>
      simp only [compareRoot, List.flatMap_eq_nil_iff, compareKey_nil_iff, mem_unionKeys,
        Except.ok.injEq, forall_exists_index, and_imp]
      refine ⟨fun h => ⟨was, now, rfl, rfl, fun o ho => h o.key o ho rfl⟩, ?_⟩
      rintro ⟨_, _, rfl, rfl, h⟩ key o ho hkey
      exact hkey ▸ h o ho

theorem mem_verifyRoot_seen (hwas : render before root = .ok was) (hnow : render after root = .ok now) :
    key ∈ (verifyRoot render before after (intentsByKey intents) root).seen ↔
      (∃ o ∈ objectsAt render before root ++ objectsAt render after root, o.key = key) ∧
        key ∈ intentsByKey intents := by
  simp only [verifyRoot, hwas, hnow, compareRoot, List.mem_filter, mem_unionKeys, objectsAt,
    decide_eq_true_eq]

theorem insertionSort_eq_nil {l : List String} : l.insertionSort (· ≤ ·) = [] ↔ l = [] := by
  rw [← List.length_eq_zero_iff, List.length_insertionSort, List.length_eq_zero_iff]

theorem key_mem_intentsByKey {i : WriteIntent} (hi : i ∈ intents) : i.key ∈ intentsByKey intents := by
  rw [← AList.lookup_isSome, intentsByKey, lookup_overwrite, Option.isSome_iff_ne_none]
  have hne : intents.filter (fun j => j.key = i.key) ≠ [] :=
    List.ne_nil_of_mem (List.mem_filter.mpr ⟨hi, decide_eq_true rfl⟩)
  simpa using hne

/-- A `nil` verdict: every target of the resulting tree builds before and after, every key it
    renders passes, and what was routed through an override is rendered by some target. -/
theorem verifyBatchRenders_nil_iff : verifyBatchRenders render before after intents = [] ↔
    (∀ root ∈ renderTargets (parseKustomizations after), ∃ was now,
      render before root = .ok was ∧ render after root = .ok now ∧
      ∀ o ∈ was ++ now, KeyPasses ((intentsByKey intents).lookup o.key)
        ((renderedByKey was).lookup o.key) ((renderedByKey now).lookup o.key)) ∧
    ∀ i ∈ intents, i.governed = true → ∃ root ∈ renderTargets (parseKustomizations after),
      ∃ o ∈ objectsAt render before root ++ objectsAt render after root, o.key = i.key := by
  simp only [verifyBatchRenders]
  rw [insertionSort_eq_nil, List.append_eq_nil_iff, List.flatMap_eq_nil_iff, List.map_eq_nil_iff,
    List.filter_eq_nil_iff, List.forall_mem_map]
  simp only [verifyRoot_nil_iff]
  refine and_congr_right (fun hroots => forall₂_congr (fun i hi => ?_))
  have hseen : ∀ root ∈ renderTargets (parseKustomizations after),
      (i.key ∈ (verifyRoot render before after (intentsByKey intents) root).seen ↔
        ∃ o ∈ objectsAt render before root ++ objectsAt render after root, o.key = i.key) := by
    intro root hmem
    obtain ⟨was, now, hwas, hnow, -⟩ := hroots root hmem
    rw [mem_verifyRoot_seen hwas hnow, and_iff_left (key_mem_intentsByKey hi)]
  cases i.governed with
  | false => simp
  | true =>
    simp only [Bool.true_and, decide_not, Bool.not_eq_true', decide_eq_false_iff_not, not_not,
      forall_const, List.mem_flatMap, List.mem_map, exists_exists_and_eq_and]
    exact exists_congr (fun root => and_congr_right (hseen root))

end Verdict

end GitopsReverser.Manifest
