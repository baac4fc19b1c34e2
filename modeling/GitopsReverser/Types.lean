import Mathlib

/-!
# Types — names of resources, GitTargets and watch scopes
-/

namespace GitopsReverser

structure GroupVersionResource where
  group : String
  version : String
  resource : String
  deriving DecidableEq, Repr

def GroupVersionResource.toString (gvr : GroupVersionResource) : String :=
  gvr.group ++ "/" ++ gvr.version ++ ", Resource=" ++ gvr.resource

/-- One stream of a GitTarget; the empty namespace is the cluster-wide scope. -/
structure TargetWatchKey where
  gvr : GroupVersionResource
  ns : String
  deriving DecidableEq, Repr

/-- A GitTarget by name; the source keeps its UID out of the key. -/
structure ResourceReference where
  name : String
  ns : String
  deriving DecidableEq, Repr

def ResourceReference.key (r : ResourceReference) : String := r.ns ++ "/" ++ r.name

structure ResourceIdentifier where
  group : String
  version : String
  resource : String
  ns : String
  name : String
  deriving DecidableEq, Repr

def ResourceIdentifier.key (r : ResourceIdentifier) : String :=
  r.group ++ "/" ++ r.version ++ "/" ++ r.resource ++ "/" ++
    (if r.ns = "" then r.name else r.ns ++ "/" ++ r.name)

end GitopsReverser
