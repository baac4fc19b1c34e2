import GitopsReverser.Manifest.Plan

/-!
# ScopedPlan — the whole plan of a resync

`BuildScopedPlan` marks the documents the desired snapshot finds and sweeps the others in scope.
The builder runs in two loops; what it leaves is read off as two lists of actions
(`buildScopedPlan_actions`), and everything below is about those.
-/

namespace GitopsReverser.Manifest

open Git (Path)

/-! ## 1. Plans -/

inductive PlanActionKind where
  | create | patch | replace | dropOrphan | skip
  deriving DecidableEq, Repr

/-- One decided change; `document` is the one its `Ref` points to, none for a create. -/
structure Action where
  kind : PlanActionKind
  document : Option DocumentModel
  identity : Identity
  resource : ResourceIdentifier
  desired : Option Object
  reason : String
  deriving DecidableEq, Repr

def Action.ref (a : Action) : Location :=
  match a.document with
  | some dm => ⟨dm.file, dm.index⟩
  | none => ⟨[], 0⟩

structure PlanDiagnostic where
  location : Location
  message : String
  deriving DecidableEq, Repr

structure Plan where
  actions : List Action
  diagnostics : List PlanDiagnostic
  retainedOrphans : Nat
  deriving DecidableEq, Repr

inductive SweepMode where
  | unspecified | retainOrphans | dropOrphans
  deriving DecidableEq, Repr

def SweepMode.dropsOrphans (m : SweepMode) : Bool := m = .dropOrphans

inductive DecisionAction where
  | noChange | patch | replace | skip | delete
  deriving DecidableEq, Repr

def actionFromDecision : DecisionAction → Option PlanActionKind
  | .noChange => none
  | .patch => some .patch
  | .replace => some .replace
  | .skip => some .skip
  | .delete => some .skip

/-- `Decide` compares a document of the folder with the object it should hold. -/
structure PlanPolicy where
  project : Object → Object
  decide : Option Document → Object → DecisionAction × String
  sweep : SweepMode

/-- `types.go`, `ResyncScope`; none is the whole GitTarget. -/
structure ResyncScope where
  gvr : GroupVersionResource
  ns : String
  deriving DecidableEq, Repr

def ResyncScope.contains (scope : Option ResyncScope) (r : ResourceIdentifier) : Bool :=
  match scope with
  | none => true
  | some s =>
    if r.group ≠ s.gvr.group ∨ r.resource ≠ s.gvr.resource then false
    else decide (s.ns = "" ∨ r.ns = s.ns)

/-! ## 2. The builder -/

def skipReason : DocumentCause → String
  | .encrypted => "encrypted document: cannot patch in place"
  | .nonEditable detail => if detail ≠ "" then "not editable: " ++ detail else "not editable"
  | .none => "document cannot be edited in place"

/-- `plan.go`, `planBuilder`, as far as it changes. -/
structure PlanBuilder where
  matched : List DocumentModel := []
  actions : List Action := []
  diagnostics : List PlanDiagnostic := []
  retained : Nat := 0

namespace ManifestStore

variable (store : ManifestStore) (content : Tree) (policy : PlanPolicy)

def nonClaiming (id : Identity) : Bool :=
  store.documents.any (fun dm => !dm.claimsIdentity && decide (dm.identity = id))

/-- The end of `planDesired`, for a document that was found. -/
def planMatched (dr : DesiredResource) (o : Object) (dm : DocumentModel) (b : PlanBuilder) :
    PlanBuilder :=
  let action (kind : PlanActionKind) (desired : Option Object) (reason : String) : Action :=
    ⟨kind, some dm, identityOfObject o, dr.resource, desired, reason⟩
  if !dm.editable then
    { b with actions := b.actions ++ [action .skip none (skipReason dm.cause)] }
  else match content.lookup dm.file with
    | none =>
      { b with
        diagnostics := b.diagnostics ++ [⟨⟨dm.file, dm.index⟩,
          "no file content provided for hydration; cannot plan this document"⟩]
        actions := b.actions ++ [action .skip none "file content unavailable for planning"] }
    | some docs =>
      let decision := policy.decide docs[dm.index]? (policy.project o)
      match actionFromDecision decision.1 with
      | none => b
      | some kind =>
        { b with actions := b.actions ++ [action kind (some (policy.project o)) decision.2] }

def planDesired (dr : DesiredResource) (o : Object) (b : PlanBuilder) : PlanBuilder :=
  let id := identityOfObject o
  if store.collided id then b
  else match store.byManifestIdentity id with
    | none =>
      -- Git has it and cannot edit it: the sweep reports the skip
      if store.nonClaiming id then b
      else { b with actions := b.actions ++ [⟨.create, none, id, dr.resource,
        some (policy.project o),
        "desired resource has no managed document in Git; placement is decided at apply time"⟩] }
    | some dm =>
      planMatched content policy dr o dm { b with matched := b.matched ++ [dm] }

def protectFromSweep (dr : DesiredResource) (b : PlanBuilder) : PlanBuilder :=
  let message := "desired snapshot entry for " ++ dr.resource.key ++
    " has no object; protected from sweep (malformed entry, not a delete)"
  match store.byResourceIdentity dr.resource with
  | none => { b with diagnostics := b.diagnostics ++ [⟨⟨[], 0⟩, message⟩] }
  | some dm =>
    { b with
      matched := b.matched ++ [dm]
      diagnostics := b.diagnostics ++ [⟨⟨dm.file, dm.index⟩, message⟩] }

def planEntry (b : PlanBuilder) (dr : DesiredResource) : PlanBuilder :=
  match dr.object with
  | none => store.protectFromSweep dr b
  | some o => store.planDesired content policy dr o b

def sweepDocument (inScope : ResourceIdentifier → Bool) (sweep : SweepMode) (b : PlanBuilder)
    (dm : DocumentModel) : PlanBuilder :=
  if dm ∈ b.matched then b
  else if !inScope (resourceOf dm) then b
  else if store.collided dm.identity then b
  else if !dm.claimsIdentity then
    { b with actions := b.actions ++
      [⟨.skip, some dm, dm.identity, resourceOf dm, none, skipReason dm.cause⟩] }
  else if dm.mapping ≠ .followable then b
  else if !sweep.dropsOrphans then { b with retained := b.retained + 1 }
  else { b with actions := b.actions ++ [⟨.dropOrphan, some dm, dm.identity, resourceOf dm, none,
    "watched resource absent from the cluster: managed drop"⟩] }

def identityString (id : Identity) : String :=
  id.apiVersion ++ "/" ++ id.kind ++ "/" ++ id.ns ++ "/" ++ id.name

def Action.before (a b : Action) : Bool :=
  if a.ref.path ≠ b.ref.path then decide (a.ref.path ≤ b.ref.path)
  else if a.ref.documentIndex ≠ b.ref.documentIndex then
    decide (a.ref.documentIndex ≤ b.ref.documentIndex)
  else decide (identityString a.identity ≤ identityString b.identity)

def buildScopedPlan (desired : List DesiredResource) (inScope : ResourceIdentifier → Bool) : Plan :=
  let marked := desired.foldl (store.planEntry content policy) {}
  let swept := store.documents.foldl (store.sweepDocument inScope policy.sweep) marked
  ⟨swept.actions.insertionSort (fun a b => Action.before a b), swept.diagnostics, swept.retained⟩

/-! ## 3. What the loops leave -/

def acts (dm : DocumentModel) (o : Object) : Bool :=
  !dm.editable ||
    match content.lookup dm.file with
    | none => true
    | some docs =>
      (actionFromDecision (policy.decide docs[dm.index]? (policy.project o)).1).isSome

/-- An action of the desired side: it drops nothing, and the document it is about was found. -/
def FromDesired (desired : List DesiredResource) (a : Action) : Prop :=
  a.kind ≠ .dropOrphan ∧ ∀ dm, a.document = some dm → ∃ dr ∈ desired, ∃ o, dr.object = some o ∧
    store.matchedBy dr = some dm ∧ acts content policy dm o = true

def matchedAction (dr : DesiredResource) (o : Object) (dm : DocumentModel) : Option Action :=
  if dm.editable = false then
    some ⟨.skip, some dm, identityOfObject o, dr.resource, none, skipReason dm.cause⟩
  else match content.lookup dm.file with
    | none => some ⟨.skip, some dm, identityOfObject o, dr.resource, none,
        "file content unavailable for planning"⟩
    | some docs =>
      (actionFromDecision (policy.decide docs[dm.index]? (policy.project o)).1).map (fun kind =>
        ⟨kind, some dm, identityOfObject o, dr.resource, some (policy.project o),
          (policy.decide docs[dm.index]? (policy.project o)).2⟩)

def entryAction (dr : DesiredResource) : Option Action :=
  dr.object.bind (fun o =>
    if store.collided (identityOfObject o) then none
    else match store.byManifestIdentity (identityOfObject o) with
      | some dm => matchedAction content policy dr o dm
      | none =>
        if store.nonClaiming (identityOfObject o) then none
        else some ⟨.create, none, identityOfObject o, dr.resource, some (policy.project o),
          "desired resource has no managed document in Git; placement is decided at apply time"⟩)

def sweepAction (matched : List DocumentModel) (inScope : ResourceIdentifier → Bool)
    (sweep : SweepMode) (dm : DocumentModel) : Option Action :=
  if dm ∈ matched ∨ inScope (resourceOf dm) = false ∨ store.collided dm.identity = true then none
  else if dm.claimsIdentity = false then
    some ⟨.skip, some dm, dm.identity, resourceOf dm, none, skipReason dm.cause⟩
  else if dm.mapping = .followable ∧ sweep.dropsOrphans = true then
    some ⟨.dropOrphan, some dm, dm.identity, resourceOf dm, none,
      "watched resource absent from the cluster: managed drop"⟩
  else none

/-- The document is one a sweep may drop, if nothing desired has found it. -/
def Droppable (inScope : ResourceIdentifier → Bool) (dm : DocumentModel) : Prop :=
  inScope (resourceOf dm) = true ∧ store.collided dm.identity = false ∧ dm.claimsIdentity = true ∧
    dm.mapping = .followable
  deriving Decidable

def orphans (matched : List DocumentModel) (inScope : ResourceIdentifier → Bool) : List DocumentModel :=
  store.documents.filter (fun dm => dm ∉ matched ∧ store.Droppable inScope dm)

variable {store content policy}

section Loops

variable {inScope : ResourceIdentifier → Bool} {sweep : SweepMode} {dm : DocumentModel}

theorem planMatched_spec (content : Tree) (policy : PlanPolicy) (dr : DesiredResource) (o : Object)
    (dm : DocumentModel) (b : PlanBuilder) :
    (planMatched content policy dr o dm b).actions =
        b.actions ++ (matchedAction content policy dr o dm).toList ∧
      (planMatched content policy dr o dm b).matched = b.matched ∧
      (planMatched content policy dr o dm b).retained = b.retained := by
  unfold planMatched matchedAction
  cases dm.editable with
  | false => simp
  | true =>
    cases content.lookup dm.file with
    | none => simp
    | some docs =>
      dsimp only
      cases actionFromDecision (policy.decide docs[dm.index]? (policy.project o)).1 <;> simp

theorem planEntry_spec (store : ManifestStore) (content : Tree) (policy : PlanPolicy)
    (b : PlanBuilder) (dr : DesiredResource) :
    (store.planEntry content policy b dr).actions =
        b.actions ++ (store.entryAction content policy dr).toList ∧
      (store.planEntry content policy b dr).matched = b.matched ++ (store.matchedBy dr).toList ∧
      (store.planEntry content policy b dr).retained = b.retained := by
  unfold planEntry matchedBy entryAction
  cases dr.object with
  | none =>
    unfold protectFromSweep
    cases store.byResourceIdentity dr.resource <;> simp
  | some o =>
    dsimp only [planDesired, Option.bind_some]
    cases store.collided (identityOfObject o) with
    | true => simp
    | false =>
      cases store.byManifestIdentity (identityOfObject o) with
      | none => cases store.nonClaiming (identityOfObject o) <;> simp
      | some dm =>
        simpa using planMatched_spec content policy dr o dm { b with matched := b.matched ++ [dm] }

/-- The first loop: the documents found are marked, and every one that is not in sync has an action. -/
theorem foldl_planEntry (store : ManifestStore) (content : Tree) (policy : PlanPolicy)
    (desired : List DesiredResource) (b : PlanBuilder) :
    (desired.foldl (store.planEntry content policy) b).actions =
        b.actions ++ desired.filterMap (store.entryAction content policy) ∧
      (desired.foldl (store.planEntry content policy) b).matched =
        b.matched ++ desired.filterMap store.matchedBy ∧
      (desired.foldl (store.planEntry content policy) b).retained = b.retained := by
  induction desired generalizing b with
  | nil => simp
  | cons dr desired ih =>
    obtain ⟨hact, hmatch, hretain⟩ := planEntry_spec store content policy b dr
    obtain ⟨hact', hmatch', hretain'⟩ := ih (store.planEntry content policy b dr)
    refine ⟨?_, ?_, hretain'.trans hretain⟩
    · rw [List.foldl_cons, hact', hact, List.append_assoc, List.filterMap_cons]
      cases store.entryAction content policy dr <;> simp
    · rw [List.foldl_cons, hmatch', hmatch, List.append_assoc, List.filterMap_cons]
      cases store.matchedBy dr <;> simp

theorem matchedAction_spec (content : Tree) (policy : PlanPolicy) (dr : DesiredResource) (o : Object)
    (dm : DocumentModel) :
    (acts content policy dm o = true ↔ (matchedAction content policy dr o dm).isSome = true) ∧
      ∀ a, matchedAction content policy dr o dm = some a →
        a.kind ≠ .dropOrphan ∧ a.document = some dm := by
  unfold matchedAction acts
  cases dm.editable with
  | false => simp
  | true =>
    cases content.lookup dm.file with
    | none => simp
    | some docs =>
      dsimp only
      cases hdecision : (policy.decide docs[dm.index]? (policy.project o)).1 <;>
        simp [actionFromDecision]

variable {a : Action} {dr : DesiredResource} {matched : List DocumentModel}

theorem entryAction_eq_some_iff :
    store.entryAction content policy dr = some a ↔ ∃ o, dr.object = some o ∧
      store.collided (identityOfObject o) = false ∧
      ((∃ dm, store.byManifestIdentity (identityOfObject o) = some dm ∧
          matchedAction content policy dr o dm = some a) ∨
        (store.byManifestIdentity (identityOfObject o) = none ∧
          store.nonClaiming (identityOfObject o) = false ∧
          a = ⟨.create, none, identityOfObject o, dr.resource, some (policy.project o),
            "desired resource has no managed document in Git; placement is decided at apply time"⟩)) := by
  unfold entryAction
  cases dr.object with
  | none => simp
  | some o =>
    simp only [Option.bind_some, Option.some.injEq, exists_eq_left']
    cases store.collided (identityOfObject o) with
    | true => simp
    | false =>
      cases store.byManifestIdentity (identityOfObject o) with
      | some dm => simp
      | none => cases store.nonClaiming (identityOfObject o) <;> simp [eq_comm]

theorem fromDesired_of_entryAction {desired : List DesiredResource} (hdr : dr ∈ desired)
    (h : store.entryAction content policy dr = some a) :
    store.FromDesired content policy desired a := by
  obtain ⟨o, ho, hcollide, ⟨dm, hfound, hact⟩ | ⟨-, -, rfl⟩⟩ := entryAction_eq_some_iff.mp h
  · obtain ⟨hacts, hkind⟩ := matchedAction_spec content policy dr o dm
    refine ⟨(hkind a hact).1, fun dm' hdm' => ?_⟩
    obtain rfl := Option.some.inj ((hkind a hact).2.symm.trans hdm')
    refine ⟨dr, hdr, o, ho, ?_, hacts.mpr (by rw [hact]; rfl)⟩
    simp [matchedBy, ho, hcollide, hfound]
  · exact ⟨by simp, by simp⟩

theorem entryAction_of_acts {o : Object} (ho : dr.object = some o)
    (hdm : store.matchedBy dr = some dm) (hacts : acts content policy dm o = true) :
    ∃ a, store.entryAction content policy dr = some a ∧ a.document = some dm := by
  obtain ⟨hsome, hdoc⟩ := matchedAction_spec content policy dr o dm
  obtain ⟨a, ha⟩ := Option.isSome_iff_exists.mp (hsome.mp hacts)
  refine ⟨a, ?_, (hdoc a ha).2⟩
  simp only [matchedBy, ho] at hdm
  split_ifs at hdm with hcollide
  exact entryAction_eq_some_iff.mpr ⟨o, ho, by simpa using hcollide, .inl ⟨dm, hdm, ha⟩⟩

theorem sweepDocument_spec (inScope : ResourceIdentifier → Bool) (sweep : SweepMode)
    (b : PlanBuilder) (dm : DocumentModel) :
    store.sweepDocument inScope sweep b dm =
      { b with
        actions := b.actions ++ (store.sweepAction b.matched inScope sweep dm).toList
        retained := b.retained + if dm ∉ b.matched ∧ store.Droppable inScope dm ∧
          sweep.dropsOrphans = false then 1 else 0 } := by
  unfold sweepDocument sweepAction Droppable
  by_cases hmatch : dm ∈ b.matched
  · simp [hmatch]
  by_cases hscope : inScope (resourceOf dm) = true
  · by_cases hcollide : store.collided dm.identity = true
    · simp [hmatch, hcollide]
    · by_cases hclaim : dm.claimsIdentity = true
      · by_cases hmap : dm.mapping = .followable
        · by_cases hsweep : sweep.dropsOrphans = true
          · simp [hmatch, hscope, hcollide, hclaim, hmap, hsweep]
          · simp [hmatch, hscope, hcollide, hclaim, hmap, hsweep]
        · simp [hmatch, hscope, hcollide, hclaim, hmap]
      · simp [hmatch, hscope, hcollide, hclaim]
  · simp [hmatch, hscope]

/-- The second loop: one action at most for every document, and the retained ones counted. -/
theorem foldl_sweepDocument (docs : List DocumentModel) (inScope : ResourceIdentifier → Bool)
    (sweep : SweepMode) (b : PlanBuilder) :
    docs.foldl (store.sweepDocument inScope sweep) b =
      { b with
        actions := b.actions ++ docs.filterMap (store.sweepAction b.matched inScope sweep)
        retained := b.retained + docs.countP (fun dm => dm ∉ b.matched ∧
          store.Droppable inScope dm ∧ sweep.dropsOrphans = false) } := by
  induction docs generalizing b with
  | nil => simp
  | cons dm docs ih =>
    rw [List.foldl_cons, sweepDocument_spec, ih, List.filterMap_cons, List.countP_cons]
    congr 1
    · cases store.sweepAction b.matched inScope sweep dm <;> simp
    · simp only [decide_eq_true_eq]
      omega

theorem sweepAction_eq_some (h : store.sweepAction matched inScope sweep dm = some a) :
    a.document = some dm ∧ dm ∉ matched ∧ inScope (resourceOf dm) = true ∧
      (a.kind = .dropOrphan → store.Droppable inScope dm) := by
  unfold sweepAction at h
  split_ifs at h with hskip hclaim hdrop
  · cases h
    simp only [not_or] at hskip
    exact ⟨rfl, hskip.1, by simpa using hskip.2.1, by simp⟩
  · cases h
    simp only [not_or] at hskip
    refine ⟨rfl, hskip.1, by simpa using hskip.2.1, fun _ => ?_⟩
    exact ⟨by simpa using hskip.2.1, by simpa using hskip.2.2, by simpa using hclaim, hdrop.1⟩

theorem sweepAction_of_droppable (hmatch : dm ∉ matched) (h : store.Droppable inScope dm) :
    store.sweepAction matched inScope .dropOrphans dm =
      some ⟨.dropOrphan, some dm, dm.identity, resourceOf dm, none,
        "watched resource absent from the cluster: managed drop"⟩ := by
  obtain ⟨hscope, hcollide, hclaim, hmap⟩ := h
  simp [sweepAction, hmatch, hscope, hcollide, hclaim, hmap, SweepMode.dropsOrphans]

/-- A plan: the actions of the desired side, which no sweep mode changes, and those of the sweep. -/
theorem buildScopedPlan_actions (store : ManifestStore) (content : Tree) (policy : PlanPolicy)
    (desired : List DesiredResource) (inScope : ResourceIdentifier → Bool) (sweep : SweepMode) :
    (store.buildScopedPlan content { policy with sweep := sweep } desired inScope).actions.Perm
        (desired.filterMap (store.entryAction content policy) ++ store.documents.filterMap
          (store.sweepAction (desired.filterMap store.matchedBy) inScope sweep)) ∧
      (store.buildScopedPlan content { policy with sweep := sweep } desired
        inScope).retainedOrphans = if sweep.dropsOrphans then 0 else
          (store.orphans (desired.filterMap store.matchedBy) inScope).length := by
  obtain ⟨hact, hmatch, hretain⟩ := foldl_planEntry store content policy desired {}
  -- the first loop reads the projection and the comparison only
  have hloop : desired.foldl (store.planEntry content { policy with sweep := sweep }) {} =
      desired.foldl (store.planEntry content policy) {} := rfl
  simp only [buildScopedPlan, hloop, foldl_sweepDocument, hact, hmatch, hretain,
    List.nil_append, Nat.zero_add]
  refine ⟨List.perm_insertionSort _ _, ?_⟩
  cases hdrop : sweep.dropsOrphans with
  | true => simp
  | false =>
    rw [orphans, ← List.countP_eq_length_filter]
    simp

theorem buildScopedPlan_spec (store : ManifestStore) (content : Tree) (policy : PlanPolicy)
    (desired : List DesiredResource) (inScope : ResourceIdentifier → Bool) : ∃ new : List Action,
    (∀ a ∈ new, store.FromDesired content policy desired a) ∧
      (∀ dr ∈ desired, ∀ o dm, dr.object = some o → store.matchedBy dr = some dm →
        acts content policy dm o = true → ∃ a ∈ new, a.document = some dm) ∧
      ∀ sweep, (store.buildScopedPlan content { policy with sweep := sweep } desired
          inScope).actions.Perm
          (new ++ store.documents.filterMap
            (store.sweepAction (desired.filterMap store.matchedBy) inScope sweep)) ∧
        (store.buildScopedPlan content { policy with sweep := sweep } desired
          inScope).retainedOrphans = if sweep.dropsOrphans then 0 else
            (store.orphans (desired.filterMap store.matchedBy) inScope).length := by
  refine ⟨_, fun a ha => ?_, fun dr hdr o dm ho hdm hacts => ?_,
    buildScopedPlan_actions store content policy desired inScope⟩
  · obtain ⟨dr, hdr, hact⟩ := List.mem_filterMap.mp ha
    exact fromDesired_of_entryAction hdr hact
  · obtain ⟨a, ha, hdoc⟩ := entryAction_of_acts ho hdm hacts
    exact ⟨a, List.mem_filterMap.mpr ⟨dr, hdr, ha⟩, hdoc⟩

end Loops

/-! ## 4. Sweeping safely -/

/-- What a resync may rely on, whatever the sweep mode. -/
structure SweepSafe (store : ManifestStore) (content : Tree) (policy : PlanPolicy)
    (desired : List DesiredResource) (scope : Option ResyncScope) : Prop where
  drops : ∀ sweep, ∀ a ∈ (store.buildScopedPlan content { policy with sweep := sweep } desired
    (ResyncScope.contains scope)).actions, a.kind = .dropOrphan → ∃ dm ∈ store.documents,
      a.document = some dm ∧ store.Droppable (ResyncScope.contains scope) dm ∧
        ∀ dr ∈ desired, dr.resource ≠ resourceOf dm
  outside : ∀ sweep, ∀ a ∈ (store.buildScopedPlan content { policy with sweep := sweep } desired
    (ResyncScope.contains scope)).actions, ∀ dm, a.document = some dm →
      ResyncScope.contains scope (resourceOf dm) = true
  retains : ((store.buildScopedPlan content { policy with sweep := .retainOrphans } desired
      (ResyncScope.contains scope)).actions).Perm
      ((store.buildScopedPlan content { policy with sweep := .dropOrphans } desired
        (ResyncScope.contains scope)).actions.filter (fun a => a.kind ≠ .dropOrphan)) ∧
    (store.buildScopedPlan content { policy with sweep := .retainOrphans } desired
      (ResyncScope.contains scope)).retainedOrphans =
      ((store.buildScopedPlan content { policy with sweep := .dropOrphans } desired
        (ResyncScope.contains scope)).actions.filter (fun a => a.kind = .dropOrphan)).length

/-- What the snapshot owes the sweep: a document it names by resource is one it finds, and what it
    finds out of sync is in scope. -/
structure SnapshotFits (store : ManifestStore) (content : Tree) (policy : PlanPolicy)
    (desired : List DesiredResource) (scope : Option ResyncScope) : Prop where
  found : ∀ dm ∈ store.documents, store.Droppable (ResyncScope.contains scope) dm →
    (∃ dr ∈ desired, dr.resource = resourceOf dm) → dm ∈ desired.filterMap store.matchedBy
  inside : ∀ dr ∈ desired, ∀ o dm, dr.object = some o → store.matchedBy dr = some dm →
    acts content policy dm o = true → ResyncScope.contains scope (resourceOf dm) = true

section Sweep

variable {matched : List DocumentModel} {inScope : ResourceIdentifier → Bool}

theorem filterMap_sweepAction_retain (docs : List DocumentModel) :
    docs.filterMap (store.sweepAction matched inScope .retainOrphans) =
      (docs.filterMap (store.sweepAction matched inScope .dropOrphans)).filter
        (fun a => a.kind ≠ .dropOrphan) := by
  rw [List.filter_filterMap]
  congr 1
  funext dm
  simp only [sweepAction, SweepMode.dropsOrphans]
  split_ifs <;> simp_all [Option.filter]

theorem drops_length (docs : List DocumentModel) :
    ((docs.filterMap (store.sweepAction matched inScope .dropOrphans)).filter
      (fun a => a.kind = .dropOrphan)).length =
      (docs.filter (fun dm => dm ∉ matched ∧ store.Droppable inScope dm)).length := by
  induction docs with
  | nil => rfl
  | cons dm docs ih =>
    rw [List.filterMap_cons, List.filter_cons]
    by_cases horphan : dm ∉ matched ∧ store.Droppable inScope dm
    · rw [sweepAction_of_droppable horphan.1 horphan.2]
      simp [horphan.1, horphan.2, ih]
    · cases hact : store.sweepAction matched inScope .dropOrphans dm with
      | none => simpa [horphan] using ih
      | some a =>
        obtain ⟨-, hmatch, -, hdrop⟩ := sweepAction_eq_some hact
        have hkind : a.kind ≠ .dropOrphan := fun h => horphan ⟨hmatch, hdrop h⟩
        simpa [horphan, hkind] using ih

/-- A resync is safe under every sweep mode exactly when the snapshot fits the store. -/
theorem sweepSafe_iff (store : ManifestStore) (content : Tree) (policy : PlanPolicy)
    (desired : List DesiredResource) (scope : Option ResyncScope) :
    SweepSafe store content policy desired scope ↔ SnapshotFits store content policy desired scope := by
  obtain ⟨new, hfrom, hacts, hplan⟩ :=
    buildScopedPlan_spec store content policy desired (ResyncScope.contains scope)
  have hmem := fun sweep a => (hplan sweep).1.mem_iff (a := a)
  constructor
  · intro h
    refine ⟨fun dm hdm hdroppable hnamed => ?_, fun dr hdr o dm ho hdm hact => ?_⟩
    · -- a document named in the snapshot and not matched would be dropped
      by_contra hmatched
      have hdrop := (hmem .dropOrphans _).mpr (List.mem_append_right new
        (List.mem_filterMap.mpr ⟨dm, hdm, sweepAction_of_droppable hmatched hdroppable⟩))
      -- safety says that what is dropped is named by nothing
      obtain ⟨dm', -, hdoc, -, hunnamed⟩ := h.drops _ _ hdrop rfl
      obtain rfl := Option.some.inj hdoc
      obtain ⟨dr, hdr, hres⟩ := hnamed
      exact hunnamed dr hdr hres
    · obtain ⟨a, ha, hdoc⟩ := hacts dr hdr o dm ho hdm hact
      exact h.outside .dropOrphans a ((hmem _ a).mpr (List.mem_append_left _ ha)) dm hdoc
  · intro h
    refine ⟨fun sweep a ha hkind => ?_, fun sweep a ha dm hdoc => ?_, ?_, ?_⟩
    · rcases List.mem_append.mp ((hmem sweep a).mp ha) with ha | ha
      · exact absurd hkind (hfrom a ha).1
      · obtain ⟨dm, hdm, haction⟩ := List.mem_filterMap.mp ha
        obtain ⟨hdoc, hmatched, -, hdrop⟩ := sweepAction_eq_some haction
        refine ⟨dm, hdm, hdoc, hdrop hkind, fun dr hdr hres => ?_⟩
        exact hmatched (h.found dm hdm (hdrop hkind) ⟨dr, hdr, hres⟩)
    · rcases List.mem_append.mp ((hmem sweep a).mp ha) with ha | ha
      · obtain ⟨dr, hdr, o, ho, hdm, hact⟩ := (hfrom a ha).2 dm hdoc
        exact h.inside dr hdr o dm ho hdm hact
      · obtain ⟨dm', -, haction⟩ := List.mem_filterMap.mp ha
        obtain ⟨hdoc', -, hscope, -⟩ := sweepAction_eq_some haction
        obtain rfl := Option.some.inj (hdoc'.symm.trans hdoc)
        exact hscope
    · have hkeep : new.filter (fun a => a.kind ≠ .dropOrphan) = new :=
        List.filter_eq_self.mpr (fun a ha => by simpa using (hfrom a ha).1)
      refine (hplan .retainOrphans).1.trans (List.Perm.symm ?_)
      refine ((hplan .dropOrphans).1.filter _).trans (List.Perm.of_eq ?_)
      rw [List.filter_append, hkeep, filterMap_sweepAction_retain]
    · have hnone : new.filter (fun a => a.kind = .dropOrphan) = [] :=
        List.filter_eq_nil_iff.mpr (fun a ha => by simpa using (hfrom a ha).1)
      rw [(hplan .retainOrphans).2, ((hplan .dropOrphans).1.filter _).length_eq, List.filter_append,
        hnone, List.nil_append, drops_length]
      rfl

end Sweep

/-! ### A cluster-scoped document with a namespace -/

def viewerLookup : Lookup where
  ready := true
  byGVK := fun apiVersion kind =>
    if apiVersion = "rbac.authorization.k8s.io/v1" ∧ kind = "ClusterRole" then
      some ⟨⟨"rbac.authorization.k8s.io", "v1", "clusterroles"⟩, false, true⟩
    else none

def viewerContent : Content :=
  [.node { identity := ⟨"rbac.authorization.k8s.io/v1", "ClusterRole", "prod", "viewer"⟩ }]

def viewerStore : ManifestStore :=
  buildStore { render := fun _ _ => .ok [], attribution := fun _ _ => {} } viewerLookup
    { yamlFiles := [⟨"viewer.yaml".toList, viewerContent⟩] }

def viewerDesired : DesiredResource where
  resource := ⟨"rbac.authorization.k8s.io", "v1", "clusterroles", "", "viewer"⟩
  object := some ⟨"rbac.authorization.k8s.io", "v1", "ClusterRole", "", "viewer", ""⟩

def viewerScope : ResyncScope := ⟨⟨"rbac.authorization.k8s.io", "v1", "clusterroles"⟩, ""⟩

def viewerPolicy : PlanPolicy where
  project := fun o => o
  decide := fun _ _ => (.noChange, "")
  sweep := .dropOrphans

/-- The live role is desired and its only document, which states a namespace, is dropped. -/
theorem stray_namespace_drops_desired :
    (∃ a ∈ (viewerStore.buildScopedPlan (contentByPath [⟨"viewer.yaml".toList, viewerContent⟩])
        viewerPolicy [viewerDesired] (ResyncScope.contains (some viewerScope))).actions,
      a.kind = .dropOrphan ∧ a.resource = viewerDesired.resource) ∧
    ¬ SweepSafe viewerStore (contentByPath [⟨"viewer.yaml".toList, viewerContent⟩]) viewerPolicy
      [viewerDesired] (some viewerScope) := by
  have hdropped : ∃ a ∈ (viewerStore.buildScopedPlan
      (contentByPath [⟨"viewer.yaml".toList, viewerContent⟩]) viewerPolicy [viewerDesired]
      (ResyncScope.contains (some viewerScope))).actions,
      a.kind = .dropOrphan ∧ a.resource = viewerDesired.resource ∧
        a.document.map resourceOf = some viewerDesired.resource := by decide
  obtain ⟨a, ha, hkind, hresource, hdocument⟩ := hdropped
  refine ⟨⟨a, ha, hkind, hresource⟩, fun h => ?_⟩
  obtain ⟨dm, -, hdoc, -, hunnamed⟩ := h.drops .dropOrphans a ha hkind
  rw [hdoc, Option.map_some, Option.some.injEq] at hdocument
  exact hunnamed viewerDesired (List.mem_singleton_self _) hdocument.symm

/-! ## 5. The drops that reach the writer -/

def Action.drop (a : Action) : PlanAction :=
  ⟨a.ref.path, a.ref.documentIndex, a.identity, a.resource⟩

theorem planGitOnly_eq (matched : List DocumentModel) (inScope : ResourceIdentifier → Bool)
    (sweep : SweepMode) (dm : DocumentModel) :
    store.planGitOnly matched inScope sweep.dropsOrphans dm =
      ((store.sweepAction matched inScope sweep dm).filter (fun a => a.kind = .dropOrphan)).map
        Action.drop := by
  unfold planGitOnly sweepAction
  by_cases hskip : dm ∈ matched ∨ inScope (resourceOf dm) = false ∨ store.collided dm.identity = true
  · rw [if_pos hskip]
    rcases hskip with h | h | h <;> simp [h]
  · rw [if_neg hskip]
    simp only [not_or, Bool.not_eq_false, Bool.not_eq_true] at hskip
    by_cases hclaim : dm.claimsIdentity = true
    · by_cases hmap : dm.mapping = .followable <;> cases sweep.dropsOrphans <;>
        simp [hskip, hclaim, hmap, Option.filter, Action.drop, Action.ref]
    · simp [hskip, hclaim, Option.filter]

/-- The drops of the plan are the ones a batch carries out. -/
theorem drops_perm_dropOrphans (store : ManifestStore) (content : Tree) (policy : PlanPolicy)
    (desired : List DesiredResource) (inScope : ResourceIdentifier → Bool) :
    (((store.buildScopedPlan content policy desired inScope).actions.filter
        (fun a => a.kind = .dropOrphan)).map Action.drop).Perm
      (store.dropOrphans desired inScope policy.sweep.dropsOrphans) := by
  obtain ⟨new, hfrom, -, hplan⟩ := buildScopedPlan_spec store content policy desired inScope
  have hnone : new.filter (fun a => a.kind = .dropOrphan) = [] :=
    List.filter_eq_nil_iff.mpr (fun a ha => by simpa using (hfrom a ha).1)
  refine (((hplan policy.sweep).1.filter _).map Action.drop).trans (List.Perm.of_eq ?_)
  rw [List.filter_append, hnone, List.nil_append, List.filter_filterMap, List.map_filterMap,
    dropOrphans]
  congr 1
  funext dm
  exact (planGitOnly_eq _ _ _ dm).symm

end ManifestStore

end GitopsReverser.Manifest
