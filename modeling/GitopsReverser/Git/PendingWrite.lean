import GitopsReverser.Git.TargetPath
import GitopsReverser.Git.Repository

/-!
# PendingWrite — events, windows and the writes retained until a push

The data of the branch worker: live events, the one open commit window that collects them, and
the pending writes that outlive the window until their commit is on the remote.
-/

namespace GitopsReverser.Git

open Reasoning

/-! ## 1. Events and targets -/

inductive AttributionOutcome where
  | notAttempted
  | resolved
  | unresolved
  deriving DecidableEq

def AttributionOutcome.namesActor (o : AttributionOutcome) : Bool := o = .resolved

structure TargetKey where
  name : String
  ns : String
  deriving DecidableEq

/-- A live event. `filePath` is where the content writer files the event's identifier, and
    `object` the ordered YAML of the object it carries. -/
structure Event where
  username : String
  attribution : AttributionOutcome
  target : TargetKey
  path : Path
  filePath : Path
  operation : String
  object : Option String
  deriving DecidableEq

def estimateEventSize (e : Event) : Nat := (e.object.map String.utf8ByteSize).getD 0

def estimateEventsSize (events : List Event) : Nat := (events.map estimateEventSize).sum

/-- `spec.prune.mode`; a stored value no schema version knows is `other`. -/
inductive PruneMode where
  | unset
  | never
  | onEvent
  | always
  | other (value : String)
  deriving DecidableEq

def PruneMode.orDefault : PruneMode → PruneMode
  | unset => onEvent
  | m => m

def PruneMode.appliesEventDeletes (m : PruneMode) : Bool := m = onEvent ∨ m = always

def PruneMode.sweepsOrphans (m : PruneMode) : Bool := m = always

def PruneMode.restrictiveness (m : PruneMode) : Nat :=
  match m.orDefault with
  | always => 2
  | onEvent => 1
  | _ => 0

def PruneMode.moreRestrictiveOf (m current : PruneMode) : PruneMode :=
  if current.restrictiveness < m.restrictiveness then current.orDefault else m.orDefault

structure ResolvedTargetMetadata where
  key : TargetKey
  path : Path
  pruneMode : PruneMode
  deriving DecidableEq

/-! ## 2. The open window -/

structure CommitRequestId where
  ns : String
  name : String
  uid : String
  deriving DecidableEq

/-- The live window. `entries` are the distinct Git paths in first-seen order, each with the
    latest event for it. -/
structure OpenWindow where
  author : String
  attribution : AttributionOutcome
  target : TargetKey
  entries : List (Path × Event)
  pendingMessage : String
  pendingCR : Option CommitRequestId
  deriving DecidableEq

def newOpenWindow (e : Event) : OpenWindow :=
  ⟨e.username, e.attribution, e.target, [], "", none⟩

def OpenWindow.canAppend (w : OpenWindow) (e : Event) : Bool :=
  e.attribution = w.attribution ∧ e.username = w.author ∧ e.target = w.target

def windowPathKey (e : Event) : Path :=
  let base := sanitizePath e.path
  if base ≠ [] then base ++ '/' :: e.filePath else e.filePath

def addEntry (key : Path) (e : Event) : List (Path × Event) → List (Path × Event)
  | [] => [(key, e)]
  | (k, old) :: rest => if k = key then (k, e) :: rest else (k, old) :: addEntry key e rest

def OpenWindow.add (w : OpenWindow) (e : Event) : OpenWindow :=
  { w with entries := addEntry (windowPathKey e) e w.entries }

def OpenWindow.orderedEvents (w : OpenWindow) : List Event := w.entries.map Prod.snd

@[simp] theorem OpenWindow.pendingCR_add (w : OpenWindow) (e : Event) :
    (w.add e).pendingCR = w.pendingCR := rfl

@[simp] theorem pendingCR_newOpenWindow (e : Event) : (newOpenWindow e).pendingCR = none := rfl

/-! ## 3. Pending writes -/

inductive PendingWriteKind where
  | commit
  | atomic
  | resync
  deriving DecidableEq

structure ResyncScope where
  gvr : String
  ns : String
  deriving DecidableEq

def ResyncScope.render : Option ResyncScope → String
  | none => ""
  | some s => if s.ns = "" then s.gvr else s.gvr ++ " in " ++ s.ns

/-- A retained write. `appliedAt` is a specification field: the local head right after the write
    was last applied, which is its own commit, or the commit it was a no-op on. -/
structure PendingWrite (H : Type) where
  kind : PendingWriteKind
  events : List Event
  commitMessage : String
  target : TargetKey
  targets : List (TargetKey × ResolvedTargetMetadata)
  byteSize : Nat
  desired : List String
  scope : Option ResyncScope
  revision : String
  commitRequest : Option CommitRequestId
  commitSHA : Option H
  appliedAt : Option H
  deriving DecidableEq

variable {H : Type}

/-- A commit recorded on a write is the one it was last applied as. -/
def PendingWrite.ShaCurrent (w : PendingWrite H) : Prop :=
  ∀ sha, w.commitSHA = some sha → w.appliedAt = some sha

structure WriteRequest where
  events : List Event
  commitMessage : String
  target : TargetKey
  atomic : Bool
  deriving DecidableEq

def atomicRefusalTarget (r : WriteRequest) : TargetKey :=
  if r.target.name ≠ "" ∧ r.target.ns ≠ "" then r.target
  else match r.events.find? (fun e => e.target.name ≠ "" ∧ e.target.ns ≠ "") with
    | some e => e.target
    | none => ⟨"", ""⟩

structure AttachCommitRequest where
  id : CommitRequestId
  author : String
  attribution : AttributionOutcome
  target : TargetKey
  message : String
  closeDelaySeconds : Nat
  deriving DecidableEq

/-- `channel` identifies the reply channel of the request. -/
structure ResyncRequest where
  desired : List String
  revision : String
  target : TargetKey
  scope : Option ResyncScope
  heal : Bool
  channel : Nat
  deriving DecidableEq

def resyncHealKey (r : ResyncRequest) : TargetKey × String := (r.target, ResyncScope.render r.scope)

structure PendingCommitRequest where
  id : CommitRequestId
  author : String
  attribution : AttributionOutcome
  target : TargetKey
  message : String
  finalizeAt : Int
  attached : Bool
  deriving DecidableEq

def PendingCommitRequest.matchesWindow (p : PendingCommitRequest) (w : OpenWindow) : Bool :=
  p.author = w.author ∧ p.attribution.namesActor = w.attribution.namesActor ∧ p.target = w.target

inductive FinalizeOutcome where
  | committed
  | noOpenWindow
  | alreadyPresent
  deriving DecidableEq

/-- The outcome of a CommitRequest; `outcome` is meaningful when `err` is empty. -/
structure FinalizeResult (H : Type) where
  outcome : Option FinalizeOutcome
  sha : Option H
  branch : Branch
  err : Option String
  deriving DecidableEq

end GitopsReverser.Git
