import GitopsReverser.Manifest.Placement

/-!
# PlacementOrder — placement under every iteration order of the maps

`LocateNew` ranges over Go maps, whose order is not fixed. Here every range is given its order:
some arrangement of the entries of the map. The path, the append flag and the errors do not depend
on it. The namespace flag is read off one document of the destination, the first that the ranges
come to, and does.
-/

namespace GitopsReverser.Manifest

open Reasoning
open Git (Path trimSpace)

/-! ## 1. Iteration orders -/

/-- A way to iterate over maps: some arrangement of the entries. -/
structure Iteration (α : Type) where
  arrange : List α → List α
  perm : ∀ l, (arrange l).Perm l

def Iteration.listed {α : Type} : Iteration α := ⟨id, fun l => List.Perm.refl l⟩

def Iteration.front {α : Type} (p : α → Bool) : Iteration α where
  arrange := fun l => l.filter p ++ l.filter (fun a => !p a)
  perm := fun l => List.filter_append_perm p l

def Iteration.sorted : Iteration Path := ⟨sortPaths, fun l => List.perm_insertionSort (· ≤ ·) l⟩

/-- The orders of the ranges of one call; the cohort of a step has ranges of its own. -/
structure MapOrders where
  siblings : Bool → Iteration DocumentModel
  files : Bool → Iteration Path
  bundles : Bool → Iteration Path
  kusts : Iteration KustomizationDoc

/-- The order the model of placement fixes: documents as they were scanned, files by their paths. -/
def MapOrders.scan : MapOrders := ⟨fun _ => .listed, fun _ => .sorted, fun _ => .listed, .listed⟩

/-! ## 2. Placement with its ranges -/

section Cohort

variable (store : ManifestStore) (members : List DocumentModel) (namespaceAgnostic : Bool)

def inFile (p : Path) : List DocumentModel := members.filter (fun dm => dm.file = p)

def isBundle (p : Path) : Bool :=
  store.fileIsAppendSafe p && decide (1 < (store.fileDocuments p).length) &&
    (!namespaceAgnostic || spansMultipleNamespaces (inFile members p))

def isSingle (p : Path) : Bool :=
  store.fileIsAppendSafe p && decide ((store.fileDocuments p).length ≤ 1)

def singletonDirs (files : List Path) : List Path :=
  let singles := files.filter (isSingle store)
  if namespaceAgnostic && (!allSameDir (singles.map slashDir) ||
      !spansMultipleNamespaces (singles.flatMap (inFile members)))
    then [] else singles.map slashDir

/-- `placement.go`, `classifyCohortLocations` and `cohortDestination`, over the keys of the per-file
    map in the order of its range. With the destination come the documents it is represented by, the
    representative itself first. -/
def cohortDestinationIn (bundleOrder : Iteration Path) (files : List Path) (req : PlacementRequest) :
    Option (Path × List DocumentModel) :=
  let bundles := sortPaths (bundleOrder.arrange (files.filter
    (isBundle store members namespaceAgnostic)))
  let dirs := singletonDirs store members namespaceAgnostic files
  let best := bestBundle (bundles.map (fun p => (p, (inFile members p).length)))
  if best.1 = [] ∧ dirs = [] then none
  else if dirs.length < best.2 then some (best.1, inFile members best.1)
  else
    (sortPaths dirs).head?.map (fun dir =>
      (cleanJoin dir (req.identifier.name.toList ++ yamlSuffix req.sensitive),
        ((files.filter (isSingle store)).filter (fun p => slashDir p = dir)).flatMap (inFile members)))

end Cohort

def flagged (dest : Path × List DocumentModel) : Path × Bool :=
  (dest.1, dest.2.head?.any DocumentModel.namespaceInherited)

section Call

variable (orders : MapOrders) (store : ManifestStore) (policy : Option PlacementPolicy)
  (req : PlacementRequest)

/-- The writable siblings, in the order of the range over `ByResourceIdentity`. -/
def cohortIn (matchNamespace : Bool) : List DocumentModel :=
  let members := (orders.siblings matchNamespace).arrange
    (store.cohortMembers req.identifier matchNamespace req.sensitive)
  if req.writeScope = [] then members
  else members.filter (fun dm => pathWithin dm.file req.writeScope)

def stepIn (matchNamespace : Bool) : Option (Path × List DocumentModel) :=
  let members := cohortIn orders store req matchNamespace
  cohortDestinationIn store members (!matchNamespace) (orders.bundles matchNamespace)
    ((orders.files matchNamespace).arrange (members.map DocumentModel.file).dedup) req

def resolveInferredIn : Option (Path × List DocumentModel) :=
  (stepIn orders store req true).or (stepIn orders store req false)

def resolveKustomizeRootIn : Option (Path × Bool) :=
  match (orders.kusts.arrange (store.kusts.entries.map Sigma.snd)).filter (fun k => !k.unsupported &&
    (decide (req.writeScope = []) || pathWithin (slashDir k.path) req.writeScope)) with
  | [only] => some (cleanJoin (slashDir only.path)
      (req.identifier.name.toList ++ yamlSuffix req.sensitive), decide (only.ns ≠ []))
  | _ => none

def locateNewIn : Except PlacementError PlacementResult :=
  finishPlacement store req ((((resolveDeclared policy req).map (·, false)).or
        ((resolveInferredIn orders store req).map flagged)).or
      (resolveKustomizeRootIn orders store req) |>.getD (canonicalPath req, false))

end Call

/-! ## 3. What does not depend on the order -/

theorem sortPaths_perm (h : ps.Perm ps') : sortPaths ps = sortPaths ps' :=
  List.Perm.eq_of_pairwise' (List.pairwise_insertionSort (· ≤ ·) ps)
    (List.pairwise_insertionSort (· ≤ ·) ps')
    (((List.perm_insertionSort (· ≤ ·) ps).trans h).trans (List.perm_insertionSort (· ≤ ·) ps').symm)

theorem allSameDir_iff : allSameDir dirs = true ↔ ∀ a ∈ dirs, ∀ b ∈ dirs, a = b := by
  cases dirs with
  | nil => simp [allSameDir]
  | cons d dirs =>
    simp only [allSameDir, List.head?_cons, Option.some.injEq, List.all_eq_true, decide_eq_true_eq]
    constructor
    · intro h a ha b hb
      rw [← h a ha, ← h b hb]
    · intro h a ha
      exact h d (by simp) a ha

theorem allSameDir_perm (h : dirs.Perm dirs') : allSameDir dirs = allSameDir dirs' := by
  rw [Bool.eq_iff_iff, allSameDir_iff, allSameDir_iff]
  simp only [h.mem_iff]

theorem spansMultipleNamespaces_perm (h : ms.Perm ms') :
    spansMultipleNamespaces ms = spansMultipleNamespaces ms' := by
  have hlen := (((h.filterMap DocumentModel.resource).map ResourceIdentifier.ns).dedup).length_eq
  rw [spansMultipleNamespaces, spansMultipleNamespaces, hlen]

section Cohort

variable {store : ManifestStore} {members members' : List DocumentModel} {files files' : List Path}
  {namespaceAgnostic : Bool} {req : PlacementRequest}

theorem inFile_perm (h : members.Perm members') (p : Path) :
    (inFile members p).Perm (inFile members' p) := h.filter _

theorem isBundle_perm (h : members.Perm members') (p : Path) :
    isBundle store members namespaceAgnostic p = isBundle store members' namespaceAgnostic p := by
  simp only [isBundle, spansMultipleNamespaces_perm (inFile_perm h p)]

theorem flatMap_inFile_perm (hmem : members.Perm members') (hfile : files.Perm files') :
    (files.flatMap (inFile members)).Perm (files'.flatMap (inFile members')) :=
  List.Perm.flatMap hfile (fun p _ => inFile_perm hmem p)

theorem singletonDirs_perm (hmem : members.Perm members') (hfile : files.Perm files') :
    (singletonDirs store members namespaceAgnostic files).Perm
      (singletonDirs store members' namespaceAgnostic files') := by
  have hsingle := hfile.filter (isSingle store)
  simp only [singletonDirs, allSameDir_perm (hsingle.map slashDir),
    spansMultipleNamespaces_perm (flatMap_inFile_perm hmem hsingle)]
  split
  · exact List.Perm.refl _
  · exact hsingle.map slashDir

theorem cohortDestinationIn_perm (hmem : members.Perm members') (hfile : files.Perm files')
    (o o' : Iteration Path) :
    Option.Rel (fun d d' => d.1 = d'.1 ∧ d.2.Perm d'.2)
      (cohortDestinationIn store members namespaceAgnostic o files req)
      (cohortDestinationIn store members' namespaceAgnostic o' files' req) := by
  have hbundle : sortPaths (o.arrange (files.filter (isBundle store members namespaceAgnostic))) =
      sortPaths (o'.arrange (files'.filter (isBundle store members' namespaceAgnostic))) := by
    have hsame : isBundle store members namespaceAgnostic = isBundle store members' namespaceAgnostic :=
      funext (isBundle_perm hmem)
    rw [hsame]
    exact sortPaths_perm (((o.perm _).trans (hfile.filter _)).trans (o'.perm _).symm)
  have hcount : ∀ p, (inFile members p).length = (inFile members' p).length :=
    fun p => (inFile_perm hmem p).length_eq
  have hdirs : (singletonDirs store members namespaceAgnostic files).Perm
      (singletonDirs store members' namespaceAgnostic files') := singletonDirs_perm hmem hfile
  have hnil : singletonDirs store members namespaceAgnostic files = [] ↔
      singletonDirs store members' namespaceAgnostic files' = [] := by
    rw [← List.length_eq_zero_iff, hdirs.length_eq, List.length_eq_zero_iff]
  simp only [cohortDestinationIn, hbundle, hcount, sortPaths_perm hdirs, hdirs.length_eq, hnil]
  split_ifs
  · exact .none
  · exact .some ⟨rfl, inFile_perm hmem _⟩
  · cases (sortPaths (singletonDirs store members' namespaceAgnostic files')).head? with
    | none => exact .none
    | some dir =>
      exact .some ⟨rfl, flatMap_inFile_perm hmem ((hfile.filter _).filter _)⟩

theorem cohortDestinationIn_scan : (cohortDestinationIn store members namespaceAgnostic .listed
      (sortPaths (members.map DocumentModel.file).dedup) req).map flagged =
        cohortDestination store members req namespaceAgnostic := by
  have hsort : ∀ p : Path → Bool, sortPaths
      ((sortPaths (members.map DocumentModel.file).dedup).filter p) =
        (sortPaths (members.map DocumentModel.file).dedup).filter p := fun p =>
    List.Pairwise.insertionSort_eq ((List.pairwise_insertionSort (· ≤ ·) _).filter p)
  have hbundle : ((sortPaths (members.map DocumentModel.file).dedup).filter
      store.fileIsAppendSafe).filter (fun p => 1 < (store.fileDocuments p).length &&
        (!namespaceAgnostic || spansMultipleNamespaces (inFile members p))) =
      (sortPaths (members.map DocumentModel.file).dedup).filter
        (isBundle store members namespaceAgnostic) := by
    rw [List.filter_filter]
    refine List.filter_congr (fun p _ => ?_)
    rw [isBundle, Bool.and_assoc (store.fileIsAppendSafe p), Bool.and_comm (store.fileIsAppendSafe p)]
  have hsingle : ((sortPaths (members.map DocumentModel.file).dedup).filter
      store.fileIsAppendSafe).filter (fun p => (store.fileDocuments p).length ≤ 1) =
      (sortPaths (members.map DocumentModel.file).dedup).filter (isSingle store) := by
    rw [List.filter_filter]
    refine List.filter_congr (fun p _ => ?_)
    rw [isSingle, Bool.and_comm]
  have hsha : ∀ (best : Path × Nat) (dirs : List Path) (name : Path → Path)
      (reps : Path → List DocumentModel),
      (if best.1 = [] ∧ dirs = [] then none
        else if dirs.length < best.2 then some (best.1, inFile members best.1)
        else (sortPaths dirs).head?.map (fun dir => (name dir, reps dir))).map flagged =
      if best.1 = [] ∧ dirs = [] then none
      else if dirs.length < best.2 then
        some (best.1, (inFile members best.1).head?.any DocumentModel.namespaceInherited)
      else (sortPaths dirs).head?.map (fun dir =>
        (name dir, (reps dir).head?.any DocumentModel.namespaceInherited)) := by
    intro best dirs name reps
    split_ifs
    · rfl
    · rfl
    · rw [Option.map_map]
      rfl
  simp only [cohortDestinationIn, Iteration.listed, id, hsort]
  rw [hsha, singletonDirs, ← hbundle, ← hsingle]
  rfl

end Cohort

section Call

variable {store : ManifestStore} {policy : Option PlacementPolicy} {req : PlacementRequest}

theorem cohortIn_eq (o : MapOrders) (store : ManifestStore) (req : PlacementRequest) (b : Bool) :
    cohortIn o store req b = ((o.siblings b).arrange
      (store.cohortMembers req.identifier b req.sensitive)).filter
        (fun dm => decide (req.writeScope = []) || pathWithin dm.file req.writeScope) := by
  simp only [cohortIn]
  split_ifs with hscope
  · simp [hscope]
  · simp [hscope]

theorem stepIn_perm (o o' : MapOrders) (b : Bool) :
    Option.Rel (fun d d' => d.1 = d'.1 ∧ d.2.Perm d'.2) (stepIn o store req b)
      (stepIn o' store req b) := by
  have hmem : (cohortIn o store req b).Perm (cohortIn o' store req b) := by
    rw [cohortIn_eq, cohortIn_eq]
    exact (((o.siblings b).perm _).trans ((o'.siblings b).perm _).symm).filter _
  refine cohortDestinationIn_perm hmem ?_ _ _
  exact (((o.files b).perm _).trans (hmem.map _).dedup).trans ((o'.files b).perm _).symm

theorem resolveInferredIn_cases (o : MapOrders) (store : ManifestStore) (req : PlacementRequest) :
    (resolveInferredIn o store req = none ∧ resolveInferredIn .scan store req = none) ∨
      ∃ dest reps reps', resolveInferredIn o store req = some (dest, reps') ∧
        resolveInferredIn .scan store req = some (dest, reps) ∧ reps'.Perm reps := by
  have hfirst : Option.Rel (fun d d' => d.1 = d'.1 ∧ d.2.Perm d'.2) (stepIn o store req true)
      (stepIn .scan store req true) := stepIn_perm o .scan true
  have hsecond : Option.Rel (fun d d' => d.1 = d'.1 ∧ d.2.Perm d'.2) (stepIn o store req false)
      (stepIn .scan store req false) := stepIn_perm o .scan false
  unfold resolveInferredIn
  generalize stepIn o store req true = first at hfirst
  generalize stepIn .scan store req true = first' at hfirst
  generalize stepIn o store req false = second at hsecond
  generalize stepIn .scan store req false = second' at hsecond
  cases hfirst with
  | @some d d' h => exact .inr ⟨d.1, d'.2, d.2, rfl, by rw [h.1]; rfl, h.2⟩
  | none =>
    cases hsecond with
    | @some d d' h => exact .inr ⟨d.1, d'.2, d.2, rfl, by rw [h.1]; rfl, h.2⟩
    | none => exact .inl ⟨rfl, rfl⟩

theorem resolveKustomizeRootIn_eq (o : MapOrders) (store : ManifestStore) (req : PlacementRequest) :
    resolveKustomizeRootIn o store req = resolveKustomizeRoot store req := by
  have hperm := (o.kusts.perm (store.kusts.entries.map Sigma.snd)).filter (fun k =>
    !k.unsupported && (decide (req.writeScope = []) || pathWithin (slashDir k.path) req.writeScope))
  unfold resolveKustomizeRootIn resolveKustomizeRoot
  generalize (o.kusts.arrange (store.kusts.entries.map Sigma.snd)).filter _ = ks at hperm
  generalize (store.kusts.entries.map Sigma.snd).filter _ = ks' at hperm
  -- one kustomization is left in both orders, or in neither
  match ks, ks', hperm with
  | [k], ks', hperm =>
    obtain rfl := List.singleton_perm.mp hperm
    rfl
  | ks, [k], hperm =>
    obtain rfl := List.perm_singleton.mp hperm
    rfl
  | [], [], _ => rfl
  | _ :: _ :: _, _ :: _ :: _, _ => rfl
  | [], _ :: _ :: _, _ => rfl
  | _ :: _ :: _, [], _ => rfl

/-- In the order of the scan placement is `locateNew`. -/
theorem locateNewIn_scan : locateNewIn .scan store policy req = locateNew store policy req := by
  have hstep : ∀ b, (stepIn .scan store req b).map flagged =
      cohortDestination store (cohortIn .scan store req b) req (!b) := fun b => cohortDestinationIn_scan
  have hinfer : (resolveInferredIn .scan store req).map flagged = resolveInferred store req := by
    rw [resolveInferredIn, Option.map_or, hstep, hstep]
    rfl
  rw [locateNewIn, hinfer, resolveKustomizeRootIn_eq, locateNew]

end Call

/-! ## 4. Every sibling of the destination may represent it -/

section Front

variable {store : ManifestStore} {req : PlacementRequest}

def MapOrders.fronting (x : DocumentModel) : MapOrders :=
  ⟨fun _ => .front (fun dm => dm = x), fun _ => .front (fun p => p = x.file), fun _ => .listed, .listed⟩

theorem head_filter_front {α : Type} [DecidableEq α] {x : α} {l : List α} {q : α → Bool}
    (hx : x ∈ l) (hq : q x = true) :
    (((Iteration.front (fun a => decide (a = x))).arrange l).filter q).head? = some x := by
  have hfirst : (l.filter (fun a => decide (a = x))).filter q = l.filter (fun a => decide (a = x)) := by
    refine List.filter_eq_self.mpr (fun a ha => ?_)
    rw [of_decide_eq_true (List.mem_filter.mp ha).2]
    exact hq
  have hhead : (l.filter (fun a => decide (a = x))).head? = some x := by
    have hfound : (l.find? (fun a => decide (a = x))).isSome = true :=
      List.find?_isSome.mpr ⟨x, hx, decide_eq_true rfl⟩
    obtain ⟨y, hy⟩ := Option.isSome_iff_exists.mp hfound
    have hyx : y = x := by simpa using List.find?_some hy
    rw [List.head?_filter, hy, hyx]
  rw [Iteration.front, List.filter_append, hfirst, List.head?_append, hhead, Option.some_or]

theorem head_flatMap {α β : Type} {f : α → List β} {l : List α} {a : α} {b : β}
    (ha : l.head? = some a) (hb : (f a).head? = some b) : (l.flatMap f).head? = some b := by
  cases l with
  | nil => cases ha
  | cons a' l =>
    cases ha
    rw [List.flatMap_cons, List.head?_append, hb, Option.some_or]

theorem head_stepIn_fronting {x : DocumentModel} {b : Bool} {dest : Path}
    {reps : List DocumentModel} (h : stepIn (.fronting x) store req b = some (dest, reps))
    (hx : x ∈ reps) : reps.head? = some x := by
  have hfile : ∀ p, x ∈ inFile (cohortIn (.fronting x) store req b) p → x.file = p ∧
      (inFile (cohortIn (.fronting x) store req b) p).head? = some x := by
    intro p hmem
    obtain ⟨hmember, hp⟩ := List.mem_filter.mp hmem
    refine ⟨of_decide_eq_true hp, ?_⟩
    rw [inFile, cohortIn_eq, List.filter_filter]
    rw [cohortIn_eq, List.mem_filter] at hmember
    refine head_filter_front ((((MapOrders.fronting x).siblings b).perm _).mem_iff.mp hmember.1) ?_
    rw [hp, hmember.2]
    rfl
  unfold stepIn at h
  simp only [cohortDestinationIn] at h
  split_ifs at h with hnone hbundle
  · cases h
    exact (hfile _ hx).2
  · obtain ⟨dir, -, hdir⟩ := Option.map_eq_some_iff.mp h
    obtain ⟨-, rfl⟩ := Prod.mk.inj hdir
    obtain ⟨p, hp, hmem⟩ := List.mem_flatMap.mp hx
    obtain ⟨rfl, hhead⟩ := hfile p hmem
    refine head_flatMap ?_ hhead
    rw [List.filter_filter] at hp ⊢
    obtain ⟨hmember, hkept⟩ := List.mem_filter.mp hp
    exact head_filter_front ((((MapOrders.fronting x).files b).perm _).mem_iff.mp hmember) hkept

theorem head_resolveInferredIn_fronting
    (h : resolveInferredIn (.fronting x) store req = some (dest, reps)) (hx : x ∈ reps) :
    reps.head? = some x := by
  rcases Option.or_eq_some_iff.mp h with hstep | ⟨-, hstep⟩
  · exact head_stepIn_fronting hstep hx
  · exact head_stepIn_fronting hstep hx

end Front

/-! ## 5. Placement as a function of the store -/

section Function

variable {store : ManifestStore} {policy : Option PlacementPolicy} {req : PlacementRequest}

/-- The siblings at the inferred destination all write their namespace, or all inherit it. A
    declared template has no siblings, and a destination that is refused has no flag. -/
def UniformDestination (store : ManifestStore) (policy : Option PlacementPolicy)
    (req : PlacementRequest) : Prop :=
  resolveDeclared policy req = none →
    ∀ dest siblings, resolveInferredIn .scan store req = some (dest, siblings) →
      (∃ err, finishPlacement store req (dest, false) = .error err) ∨
        ∀ x ∈ siblings, ∀ y ∈ siblings, x.namespaceInherited = y.namespaceInherited

theorem finishPlacement_flag_iff :
    finishPlacement store req (dest, f) = finishPlacement store req (dest, g) ↔
      f = g ∨ ∃ err, finishPlacement store req (dest, false) = .error err := by
  simp only [finishPlacement]
  split_ifs
  · simp
  · simp
  · simp
  · simp

theorem locateNewIn_of_inferred (hdeclare : resolveDeclared policy req = none)
    (hinfer : resolveInferredIn o store req = some dest) :
    locateNewIn o store policy req = finishPlacement store req (flagged dest) := by
  rw [locateNewIn, hdeclare, hinfer]
  rfl

/-- Where the siblings agree, every order places the resource as the scan's order does. -/
theorem locateNewIn_of_uniform (h : UniformDestination store policy req) (o : MapOrders) :
    locateNewIn o store policy req = locateNew store policy req := by
  rw [← locateNewIn_scan]
  cases hdeclared : resolveDeclared policy req with
  | some path =>
    simp only [locateNewIn, hdeclared, Option.map_some, Option.some_or, Option.getD_some]
  | none =>
    rcases resolveInferredIn_cases o store req with
      ⟨hnone, hnone'⟩ | ⟨dest, reps, reps', hin, hscan, hperm⟩
    · simp only [locateNewIn, hnone, hnone', resolveKustomizeRootIn_eq]
    · rw [locateNewIn_of_inferred hdeclared hin, locateNewIn_of_inferred hdeclared hscan]
      refine finishPlacement_flag_iff.mpr ?_
      rcases h hdeclared dest reps hscan with hrefused | huniform
      · exact .inr hrefused
      · left
        -- the two representatives are siblings of one destination
        cases hhead' : reps'.head? with
        | none =>
          obtain rfl := List.head?_eq_none_iff.mp hhead'
          rw [← hperm.nil_eq]
          rfl
        | some x =>
          have hx := hperm.mem_iff.mp (List.mem_of_head? hhead')
          cases hhead : reps.head? with
          | none => simp [List.head?_eq_none_iff.mp hhead] at hx
          | some y => exact huniform x hx y (List.mem_of_head? hhead)

/-- Placement is the same in every iteration order exactly when the siblings of the destination agree
    on how they come by their namespaces. -/
theorem locateNewIn_function_iff (store : ManifestStore) (policy : Option PlacementPolicy)
    (req : PlacementRequest) :
    (∀ o o' : MapOrders, locateNewIn o store policy req = locateNewIn o' store policy req) ↔
      UniformDestination store policy req := by
  constructor
  · intro h hdeclared dest siblings hscan
    by_cases hrefused : ∃ err, finishPlacement store req (dest, false) = .error err
    · exact .inl hrefused
    refine .inr (fun x hx y hy => ?_)
    -- the flag is that of any sibling: let the ranges come to it first
    have hfronted : ∀ z ∈ siblings, locateNewIn (.fronting z) store policy req =
        finishPlacement store req (dest, z.namespaceInherited) := by
      intro z hz
      rcases resolveInferredIn_cases (.fronting z) store req with
        ⟨-, hnone⟩ | ⟨dest', reps, reps', hfront, hscan', hperm⟩
      · rw [hscan] at hnone
        cases hnone
      · rw [hscan] at hscan'
        cases hscan'
        have hhead := head_resolveInferredIn_fronting hfront (hperm.mem_iff.mpr hz)
        rw [locateNewIn_of_inferred hdeclared hfront, flagged, hhead]
        rfl
    have hsame := h (.fronting x) (.fronting y)
    rw [hfronted x hx, hfronted y hy] at hsame
    exact (finishPlacement_flag_iff.mp hsame).resolve_right hrefused
  · exact fun h o o' => (locateNewIn_of_uniform h o).trans (locateNewIn_of_uniform h o').symm

end Function

/-! ## 6. Siblings that differ -/

def servesConfigMaps : Lookup where
  ready := true
  byGVK := fun apiVersion kind =>
    if apiVersion = "v1" ∧ kind = "ConfigMap" then some ⟨⟨"", "v1", "configmaps"⟩, true, true⟩
    else none

def writtenConfigMap (ns name : String) : Document :=
  .node { identity := ⟨"v1", "ConfigMap", ns, name⟩ }

def prodKustomization : Document :=
  .node
    { identity := ⟨"", "", "", ""⟩
      kustomization := some
        { ns := "prod".toList, resources := some ["a.yaml".toList, "b.yaml".toList] } }

def siblingStore (nsOfA nsOfB : String) : ManifestStore :=
  buildStore { render := fun _ _ => .ok [], attribution := fun _ _ => {} } servesConfigMaps
    { yamlFiles :=
        [⟨"a.yaml".toList, [writtenConfigMap nsOfA "a"]⟩,
          ⟨"b.yaml".toList, [writtenConfigMap nsOfB "b"]⟩,
          ⟨"kustomization.yaml".toList, [prodKustomization]⟩] }

def newConfigMap : PlacementRequest := ⟨⟨"", "v1", "configmaps", "prod", "c"⟩, "ConfigMap", false, []⟩

def MapOrders.filesReversed : MapOrders :=
  ⟨fun _ => .listed, fun _ => ⟨List.reverse, List.reverse_perm⟩, fun _ => .listed, .listed⟩

-- `a` writes its namespace and `b` inherits it: whether the new file writes its namespace depends on
-- which of the two the range over the files comes to first.
theorem mixed_siblings_order_dependent :
    ((locateNewIn .scan (siblingStore "prod" "") none newConfigMap).map
          (fun r => (r.path, r.namespaceInherited)) = .ok ("c.yaml".toList, false) ∧
      (locateNewIn .filesReversed (siblingStore "prod" "") none newConfigMap).map
          (fun r => (r.path, r.namespaceInherited)) = .ok ("c.yaml".toList, true)) ∧
    ¬ ∀ o o' : MapOrders, locateNewIn o (siblingStore "prod" "") none newConfigMap =
        locateNewIn o' (siblingStore "prod" "") none newConfigMap := by
  have hscan : (locateNewIn .scan (siblingStore "prod" "") none newConfigMap).map
      (fun r => (r.path, r.namespaceInherited)) = .ok ("c.yaml".toList, false) := by decide
  have hreversed : (locateNewIn .filesReversed (siblingStore "prod" "") none newConfigMap).map
      (fun r => (r.path, r.namespaceInherited)) = .ok ("c.yaml".toList, true) := by decide
  refine ⟨⟨hscan, hreversed⟩, fun h => ?_⟩
  rw [h .scan .filesReversed, hreversed] at hscan
  cases hscan

end GitopsReverser.Manifest
