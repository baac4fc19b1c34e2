import GitopsReverser.Manifest.Store

/-!
# Plan — which managed documents a resync drops, and which one an event deletes

The planner names a document by its effective identity. Only the drops of a resync plan reach the
writer as actions; the other actions are counted and reported.
-/

namespace GitopsReverser.Manifest

open Git (Path)

def Object.apiVersion (o : Object) : String :=
  if o.group = "" then o.version else o.group ++ "/" ++ o.version

def identityOfObject (o : Object) : Identity := ⟨o.apiVersion, o.kind, o.ns, o.name⟩

structure DesiredResource where
  resource : ResourceIdentifier
  object : Option Object
  deriving DecidableEq, Repr

structure PlanAction where
  file : Path
  index : Nat
  identity : Identity
  resource : ResourceIdentifier
  deriving DecidableEq, Repr

namespace ManifestStore

variable (store : ManifestStore)

def collided (id : Identity) : Bool :=
  store.documents.any (fun dm => store.isDuplicate dm && decide (dm.identity = id))

/-- The document a desired entry keeps from the sweep; an entry without an object protects the
    document of its resource (`protectFromSweep`). -/
def matchedBy (dr : DesiredResource) : Option DocumentModel :=
  match dr.object with
  | none => store.byResourceIdentity dr.resource
  | some o =>
    if store.collided (identityOfObject o) then none
    else store.byManifestIdentity (identityOfObject o)

def resourceOf (dm : DocumentModel) : ResourceIdentifier := dm.resource.getD ⟨"", "", "", "", ""⟩

def planGitOnly (matched : List DocumentModel) (inScope : ResourceIdentifier → Bool)
    (sweeps : Bool) (dm : DocumentModel) : Option PlanAction :=
  if dm ∈ matched then none
  else if !inScope (resourceOf dm) then none
  else if store.collided dm.identity then none
  else if !dm.claimsIdentity then none
  else if dm.mapping ≠ .followable then none
  else if !sweeps then none
  else some ⟨dm.file, dm.index, dm.identity, resourceOf dm⟩

/-- `plan.go`, the `PlanDropOrphan` actions of `BuildScopedPlan`. The documents stand in the order
    of their files and places, which is the order `sortActions` asks for. -/
def dropOrphans (desired : List DesiredResource) (inScope : ResourceIdentifier → Bool)
    (sweeps : Bool) : List PlanAction :=
  store.documents.filterMap (store.planGitOnly (desired.filterMap store.matchedBy) inScope sweeps)

def planDelete (resource : ResourceIdentifier) : Option PlanAction :=
  match store.byResourceIdentity resource with
  | none => none
  | some dm =>
    if store.collided dm.identity then none
    else some ⟨dm.file, dm.index, dm.identity, resource⟩

variable {inScope : ResourceIdentifier → Bool}

theorem sweeps_of_planGitOnly {store : ManifestStore} {matched : List DocumentModel} {sweeps : Bool}
    {dm : DocumentModel} {a : PlanAction}
    (h : store.planGitOnly matched inScope sweeps dm = some a) : sweeps = true := by
  simp only [planGitOnly] at h
  split_ifs at h with _ _ _ _ _ hsweep
  simpa using hsweep

theorem planGitOnly_eq_some {store : ManifestStore} {matched : List DocumentModel} {sweeps : Bool}
    {dm : DocumentModel} {a : PlanAction}
    (h : store.planGitOnly matched inScope sweeps dm = some a) :
    store.collided dm.identity = false ∧ dm.claimsIdentity = true ∧ dm.mapping = .followable ∧
      a = ⟨dm.file, dm.index, dm.identity, resourceOf dm⟩ := by
  simp only [planGitOnly] at h
  split_ifs at h with _ _ hcollide hclaim hmap
  exact ⟨by simpa using hcollide, by simpa using hclaim, by simpa using hmap, (Option.some.inj h).symm⟩

end ManifestStore

end GitopsReverser.Manifest
