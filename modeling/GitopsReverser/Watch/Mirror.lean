import GitopsReverser.Git.RenderFidelityGate
import GitopsReverser.Watch.TargetWatch

/-!
# Mirror — one GitTarget from its watches to its worker

The goroutines of every declared scope hand live events and replay resyncs to one worker queue.
The worker drops live events while the render fidelity gate is closed; the replies to resyncs
open it. Any of these may run at any time, and a goroutine whose declaration has been replaced
may still deliver events before it notices.
-/

namespace GitopsReverser.Watch

open Git (RenderFidelityGate ScopeKey RenderDivergence FidelityState)

/-- A live event on its way to Git: the scope that delivered it and its resource version. -/
structure LiveItem where
  key : TargetWatchKey
  resourceVersion : String
  deriving DecidableEq, Repr

/-- A resync handed to the worker, with the epoch its reply will be recorded under. -/
structure SentResync where
  key : TargetWatchKey
  epoch : Nat
  revision : String
  fate : ResyncFate
  /-- `drainScopedResync` has finished. -/
  drained : Bool
  deriving DecidableEq, Repr

inductive QueueItem where
  | live (item : LiveItem)
  | resync (index : Nat)
  deriving DecidableEq, Repr

structure Goroutine (B D X : Type) where
  key : TargetWatchKey
  ops : OperationSet
  cancelled : Bool
  watch : TargetWatch B D X

/-- `projected` is the epoch of the manager's own copy of the gate status, `publishing` those that
    have left the gate and are still to be stored. `consumed` and `dropped` are the events handed
    to the queue and those lost at the closed gate. -/
structure Mirror (B D X : Type) where
  gate : RenderFidelityGate
  projected : Nat
  publishing : List Nat
  goroutines : List (Goroutine B D X)
  cursors : TargetWatchKey → Option String
  dedup : String → Option X
  queue : List QueueItem
  window : List LiveItem
  resyncs : List SentResync
  consumed : List LiveItem
  dropped : List LiveItem

variable {B D X : Type} (cfg : WatchConfig B D X)

/-! ## 1. Declaring and watching -/

def declare (scopes : List (TargetWatchKey × OperationSet)) (m : Mirror B D X) : Mirror B D X :=
  let (gate, status) := m.gate.begin cfg.gitDest (scopes.map (·.1))
  { m with
    gate := gate
    projected := status.epoch
    goroutines := m.goroutines.map (fun g => { g with cancelled := true }) ++
      scopes.map (fun s => ⟨s.1, s.2, false, declaredWatch (m.cursors s.1) m.dedup []⟩) }

/-- A replay carries the epoch the manager knows when it is enqueued. -/
def WatchInput.withEpoch (epoch : Nat) : WatchInput B → WatchInput B
  | .session a => .session { a with epoch := epoch }
  | .event ev a => .event ev { a with epoch := epoch }
  | input => input

def routedItem (key : TargetWatchKey) : WatchNote B D → Option LiveItem
  | .routed u _ => some ⟨key, u.resourceVersion⟩
  | _ => none

def sentItems (key : TargetWatchKey) (w w' : TargetWatch B D X) : List LiveItem :=
  (w'.trace.take (w'.trace.length - w.trace.length)).filterMap (routedItem key)

def sentResyncs (key : TargetWatchKey) (w w' : TargetWatch B D X) : List SentResync :=
  (w'.resyncs.drop w.resyncs.length).map (fun r => ⟨key, r.epoch, r.revision, .awaiting, false⟩)

/-- What a goroutine makes of an input: once cancelled it opens no session. -/
def Goroutine.takes (g : Goroutine B D X) (epoch : Nat) (input : WatchInput B) : WatchInput B :=
  match g.cancelled, input with
  | true, .session _ => .cancelled
  | _, input => input.withEpoch epoch

/-- A goroutine has gone from `w` to `w'`; what it sent joins the worker queue. -/
def handOver (index : Nat) (g : Goroutine B D X) (w w' : TargetWatch B D X) (m : Mirror B D X) :
    Mirror B D X :=
  -- an input sends live events or a resync, never both
  let items := sentItems g.key w w'
  let sent := sentResyncs g.key w w'
  { m with
    goroutines := m.goroutines.set index { g with watch := w' }
    cursors := Function.update m.cursors g.key w'.cursor
    dedup := w'.dedup
    queue := m.queue ++ items.map .live ++
      (List.range sent.length).map (fun i => .resync (m.resyncs.length + i))
    resyncs := m.resyncs ++ sent
    consumed := items ++ m.consumed }

def watchInput [DecidableEq X] (index : Nat) (input : WatchInput B) (m : Mirror B D X) :
    Mirror B D X :=
  match m.goroutines[index]? with
  | none => m
  | some g =>
    let w := { g.watch with dedup := m.dedup, cursor := m.cursors g.key }
    handOver index g w (watchStep { cfg with key := g.key, ops := g.ops } w
      (g.takes m.projected input)) m

/-! ## 2. The worker -/

def gateOpen (m : Mirror B D X) : Bool := m.gate.allowsWrites cfg.gitDest

def closeWindow (m : Mirror B D X) : Mirror B D X :=
  if gateOpen cfg m then { m with window := [] }
  else { m with window := [], dropped := m.window ++ m.dropped }

def settleSent (index : Nat) (fate : ResyncFate) (resyncs : List SentResync) : List SentResync :=
  resyncs.mapIdx (fun i r => if i = index ∧ r.fate = .awaiting then { r with fate := fate } else r)

/-- The worker takes one item; `identityChange` says that the event does not fit the window. -/
def handleItem (identityChange : Bool) (fate : ResyncFate) (m : Mirror B D X) : Mirror B D X :=
  match m.queue with
  | [] => m
  | .live item :: rest =>
    -- the cursor has moved past the event already
    if gateOpen cfg m = false then { m with queue := rest, dropped := item :: m.dropped }
    else
      let m₁ := if identityChange then closeWindow cfg m else m
      { m₁ with queue := rest, window := m₁.window ++ [item] }
  | .resync index :: rest =>
    -- a replay resync closes the window before it is applied
    let m₁ := closeWindow cfg m
    { m₁ with queue := rest, resyncs := settleSent index fate m₁.resyncs }

/-! ## 3. Replies -/

def drainResync (index : Nat) (timedOut : Bool) (divergence : RenderDivergence)
    (m : Mirror B D X) : Mirror B D X :=
  match m.resyncs[index]? with
  | none => m
  | some r =>
    let finish := fun m : Mirror B D X =>
      { m with resyncs := m.resyncs.set index { r with drained := true } }
    let record := fun divergence =>
      -- no epoch was known when the resync was enqueued
      if r.epoch = 0 then finish m
      else match m.gate.recordScope cfg.gitDest r.epoch (.scope r.key) divergence with
        | (gate, some status) =>
          finish { m with gate := gate, publishing := status.epoch :: m.publishing }
        -- a reply for an epoch that has passed
        | (_, none) => finish m
    if r.drained then m
    else if timedOut then finish m
    else match r.fate with
      | .awaiting => m
      | .applied => record none
      | .diverged => record (some divergence)
      -- unsupported content leaves the scope pending
      | .refused => finish m
      | .failed => finish m
      | .timedOut => finish m

/-- The manager stores a status that left the gate earlier. -/
def publishStatus (index : Nat) (m : Mirror B D X) : Mirror B D X :=
  match m.publishing[index]? with
  | none => m
  | some epoch => { m with projected := epoch }

def failTarget (divergence : RenderDivergence) (m : Mirror B D X) : Mirror B D X :=
  let (gate, status) := m.gate.fail cfg.gitDest divergence
  { m with gate := gate, publishing := status.epoch :: m.publishing }

/-! ## 4. Runs -/

inductive MirrorInput (B : Type) where
  | declare (scopes : List (TargetWatchKey × OperationSet))
  | watch (index : Nat) (input : WatchInput B)
  | handle (identityChange : Bool) (fate : ResyncFate)
  | finalize
  | drain (index : Nat) (timedOut : Bool) (divergence : RenderDivergence)
  | publish (index : Nat)
  | diverge (divergence : RenderDivergence)

def mirrorStep [DecidableEq X] (m : Mirror B D X) : MirrorInput B → Mirror B D X
  | .declare scopes => declare cfg scopes m
  | .watch index input => watchInput cfg index input m
  | .handle identityChange fate => handleItem cfg identityChange fate m
  | .finalize => closeWindow cfg m
  | .drain index timedOut divergence => drainResync cfg index timedOut divergence m
  | .publish index => publishStatus index m
  | .diverge divergence => failTarget cfg divergence m

def initialMirror (cursors : TargetWatchKey → Option String) : Mirror B D X :=
  ⟨fun _ => none, 0, [], [], cursors, fun _ => none, [], [], [], [], []⟩

end GitopsReverser.Watch
