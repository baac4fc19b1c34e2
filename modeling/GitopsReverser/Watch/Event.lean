import GitopsReverser.Types

/-!
# Event — watch events and what they mean for Git

Objects are generic in their body `B`; `sanitize` maps an object to the content `D` that is
written to Git. Error values are the texts the source formats.
-/

namespace GitopsReverser.Watch

structure Unstructured (B : Type) where
  ns : String
  name : String
  uid : String
  resourceVersion : String
  annotations : List (String × String)
  deletionTimestamp : Option String
  body : B
  deriving DecidableEq

def newResourceIdentifier {B : Type} (gvr : GroupVersionResource) (u : Unstructured B) :
    ResourceIdentifier := ⟨gvr.group, gvr.version, gvr.resource, u.ns, u.name⟩

inductive EventType where
  | added
  | modified
  | deleted
  | bookmark
  | error
  | other
  deriving DecidableEq, Repr

/-- The dynamic type of `ev.Object`; `other` carries its Go type name and resource version. -/
inductive EventObject (B : Type) where
  | unstructured (u : Unstructured B)
  | status
  | other (goType : String) (resourceVersion : String)
  | nil
  deriving DecidableEq

def EventObject.goType {B : Type} : EventObject B → String
  | .unstructured _ => "*unstructured.Unstructured"
  | .status => "*v1.Status"
  | .other name _ => name
  | .nil => "<nil>"

/-- The status that `apierrors.FromObject` reads from an event's object. -/
structure ApiStatus where
  reason : String
  code : Nat
  deriving DecidableEq, Repr

/-- `text` is the object as the source's `%v` prints it. -/
structure WatchEvent (B : Type) where
  type : EventType
  object : EventObject B
  apiStatus : Option ApiStatus
  text : String
  deriving DecidableEq

def httpStatusGone : Nat := 410

def statusExpired (status : ApiStatus) : Bool :=
  decide (status.reason = "Expired") || decide (status.code = httpStatusGone)

def targetWatchExpired {B : Type} (ev : WatchEvent B) : Bool :=
  decide (ev.type = .error) && ev.apiStatus.any statusExpired

def targetWatchEventResourceVersion {B : Type} (ev : WatchEvent B) : String :=
  match ev.object with
  | .unstructured u => u.resourceVersion
  | .status => ""
  | .other _ rv => rv
  | .nil => ""

def parseUint (s : String) : Option Nat :=
  let digits := s.toList
  if digits = [] ∨ !digits.all Char.isDigit then none
  else
    let n := digits.foldl (fun acc c => 10 * acc + (c.toNat - '0'.toNat)) 0
    if n < 2 ^ 64 then some n else none

def targetWatchEventAtOrBeforeFloor {B : Type} (ev : WatchEvent B) (floor : String) : Bool :=
  match parseUint (targetWatchEventResourceVersion ev), parseUint floor with
  | some e, some f => decide (e ≤ f)
  | _, _ => false

inductive Operation where
  | create
  | update
  | delete
  | all
  deriving DecidableEq, Repr

def Operation.toString : Operation → String
  | .create => "CREATE"
  | .update => "UPDATE"
  | .delete => "DELETE"
  | .all => "*"

abbrev OperationSet := Finset Operation

def OperationSet.matches (ops : OperationSet) (op : Option Operation) : Bool :=
  decide (ops = ∅) || decide (.all ∈ ops) || op.any (fun o => decide (o ∈ ops))

def operationForWatchEvent : EventType → Option Operation
  | .added => some .create
  | .modified => some .update
  | .deleted => some .delete
  | _ => none

/-- An object with a deletion timestamp is already gone from the intent tree. -/
def operationForLiveTargetWatchEvent {B : Type} (type : EventType) (u : Unstructured B) :
    Option Operation :=
  if u.deletionTimestamp ≠ none then some .delete else operationForWatchEvent type

section
variable {B D : Type} (sanitize : Unstructured B → D)

structure DesiredResource (D : Type) where
  resource : ResourceIdentifier
  object : D
  deriving DecidableEq

def desiredFromObject (gvr : GroupVersionResource) (u : Unstructured B) : DesiredResource D :=
  ⟨newResourceIdentifier gvr u, sanitize u⟩

def desiredFromList (gvr : GroupVersionResource) (items : List (Unstructured B)) :
    List (DesiredResource D) := items.map (desiredFromObject sanitize gvr)

structure GitEvent (D : Type) where
  identifier : ResourceIdentifier
  operation : Option Operation
  object : Option D
  deriving DecidableEq

def targetWatchGitEvent (gvr : GroupVersionResource) (u : Unstructured B) (op : Option Operation) :
    GitEvent D :=
  ⟨newResourceIdentifier gvr u, op, if op = some .delete then none else some (sanitize u)⟩

end

end GitopsReverser.Watch
