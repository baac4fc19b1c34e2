import GitopsReverser.Git.Worker

/-!
# EventLoop — the state machine of the branch worker

One goroutine owns the open window, the retained writes, the parked heals and the registered
CommitRequests. `wake` is one turn of its loop: one queue item, timer or shutdown, followed by
the CommitRequest service and the parked heals.
-/

namespace GitopsReverser.Git

open Reasoning

structure OutcomeEntry (H : Type) where
  result : FinalizeResult H
  resolvedAt : Int

/-- The configuration a loop runs under; durations are in seconds. -/
structure LoopConfig where
  branch : Branch
  commitWindow : Nat
  branchBufferMaxBytes : Nat

def pushCooldown : Nat := 5

def commitRequestOutcomeTTL : Nat := 15 * 60

/-- `pushTried` is a specification field: a push has been attempted since the last append to
    `pendingWrites`. -/
structure Loop (H T : Type) where
  w : Worker H T
  openWindow : Option OpenWindow
  windowBytes : Nat
  pendingWrites : List (PendingWrite H)
  pendingWritesBytes : Nat
  lastPushAt : Option Int
  commitTimer : Option Int
  pushTimer : Option Int
  attachTimer : Option Int
  deferredHeals : List ResyncRequest
  pendingCRs : List PendingCommitRequest
  crOutcomes : List (CommitRequestId × OutcomeEntry H)
  stopped : Bool
  pushTried : Bool

variable {H T : Type} [DecidableEq H] [EmptyCollection T] {S : ObjectStore H T}
  (env : Nat → World S) (cfg : LoopConfig)

def Loop.hasPending (l : Loop H T) : Bool := decide (l.pendingWrites ≠ [])

def Loop.next (l : Loop H T) : Loop H T := { l with w := l.w.next }

/-! ## 1. CommitRequest outcomes -/

def outcomeExpired (now : Int) (entry : CommitRequestId × OutcomeEntry H) : Bool :=
  now - entry.2.resolvedAt > commitRequestOutcomeTTL

def recordCommitRequestOutcome (id : CommitRequestId) (result : FinalizeResult H) (now : Int)
    (outcomes : List (CommitRequestId × OutcomeEntry H)) :
    List (CommitRequestId × OutcomeEntry H) :=
  ((id, ⟨result, now⟩) :: outcomes.filter (fun entry => entry.1 ≠ id)).filter
    (fun entry => !outcomeExpired now entry)

def hasCommitRequestOutcome (id : CommitRequestId)
    (outcomes : List (CommitRequestId × OutcomeEntry H)) : Bool :=
  outcomes.any (fun entry => entry.1 = id)

def expiredNotes (id : CommitRequestId) (now : Int)
    (outcomes : List (CommitRequestId × OutcomeEntry H)) : List (Note H) :=
  ((outcomes.filter (fun entry => entry.1 ≠ id)).filter (outcomeExpired now)).map
    (fun entry => Note.expired entry.1)

def removePending (id : CommitRequestId) (crs : List PendingCommitRequest) :
    List PendingCommitRequest := crs.filter (fun p => p.id ≠ id)

def resolveCommitRequest (id : CommitRequestId) (result : FinalizeResult H)
    (carried : Option (PendingWrite H × Nat)) (l : Loop H T) : Loop H T :=
  let now := (env l.w.tick).now
  let w := l.w.contact env
  let notes := expiredNotes id now l.crOutcomes ++
    [Note.resolved id result carried (w.remote.refs cfg.branch)]
  { l with
    w := { w with trace := notes ++ w.trace }
    crOutcomes := recordCommitRequestOutcome id result now l.crOutcomes
    pendingCRs := removePending id l.pendingCRs }

def handleAttachCommitRequest (req : AttachCommitRequest) (l : Loop H T) : Loop H T :=
  if hasCommitRequestOutcome req.id l.crOutcomes then l
  else if l.pendingCRs.any (fun p => p.id = req.id) then l
  else
    -- the source asks `crOutcomes` and `pendingCRs`; whether the id rides a write is only noted
    let riding := l.pendingWrites.any (fun pw => pw.commitRequest = some req.id)
    let w := (l.w.log (.registered req.id)).next
    { l with
      w := if riding then w.log (.reattached req.id) else w
      pendingCRs := l.pendingCRs ++ [⟨req.id, req.author, req.attribution, req.target, req.message,
          (env l.w.tick).now + req.closeDelaySeconds, false⟩] }

/-! ## 2. Pushing -/

def resolvePushedCommitRequests : List (PendingWrite H) → Loop H T → Loop H T
  | [], l => l
  | pw :: rest, l =>
    match pw.commitRequest, pw.commitSHA with
    | some id, some sha =>
      resolvePushedCommitRequests rest (resolveCommitRequest env cfg id
        ⟨some .committed, some sha, cfg.branch, none⟩ none l)
    -- a write that was replayed to nothing: its request is passed over
    | _, _ => resolvePushedCommitRequests rest l

def pushPending (l : Loop H T) : Loop H T :=
  if l.pendingWrites = [] then { l with pushTimer := none }
  else match pushPendingCommits env cfg.branch l.pendingWrites l.w with
    -- kept for the next push, with the hashes of the last replay
    | (w, writes, false) =>
      { l with w := w, pendingWrites := writes, pushTimer := none, pushTried := true }
    | (w, writes, true) =>
      let resolved := resolvePushedCommitRequests env cfg writes
        { l with w := w, pendingWrites := writes }
      let world := env resolved.w.tick
      let w' := resolved.w.contact env
      { resolved with
        w := w'.log (.cleared writes (w'.remote.refs cfg.branch))
        pendingWrites := []
        pendingWritesBytes := 0
        lastPushAt := some world.now
        pushTimer := none
        pushTried := true }

def maybeSchedulePush (l : Loop H T) : Loop H T :=
  if l.pendingWrites = [] then l
  else match l.lastPushAt with
    | none => pushPending env cfg l
    | some last =>
      -- within the cooldown one timer is armed for the end of it
      let now := (env l.w.tick).now
      if now - last ≥ pushCooldown then pushPending env cfg l.next
      else if l.pushTimer = none then { l.next with pushTimer := some (last + pushCooldown) }
      else l.next

/-! ## 3. Building writes -/

def resolveTargets : List Event → List (TargetKey × ResolvedTargetMetadata) → Worker H T →
    Worker H T × Option (List (TargetKey × ResolvedTargetMetadata))
  | [], targets, w => (w, some targets)
  | e :: events, targets, w =>
    if e.target.name = "" ∨ e.target.ns = "" then resolveTargets events targets w
    else if targets.any (fun t => t.1 = e.target) then resolveTargets events targets w
    else match (env w.tick).getGitTarget e.target with
      | .found path mode =>
        resolveTargets events (targets ++ [(e.target, ⟨e.target, path, mode.orDefault⟩)]) w.next
      -- one target that cannot be read fails the whole window
      | _ => (w.next, none)

def fillPath (targets : List (TargetKey × ResolvedTargetMetadata)) (e : Event) : Event :=
  match targets.find? (fun t => t.1 = e.target) with
  | some t => if e.path = [] then { e with path := t.2.path } else e
  | none => e

def buildGroupedPendingWrite (events : List Event) (w : Worker H T) :
    Worker H T × Option (PendingWrite H) :=
  if events = [] ∨ (env w.tick).apiOk = false then (w.next, none)
  else match resolveTargets env events [] w.next with
    | (w₁, none) => (w₁, none)
    | (w₁, some targets) =>
      let resolved := events.map (fillPath targets)
      (w₁, some ⟨.commit, resolved, "", ⟨"", ""⟩, targets, estimateEventsSize resolved, [], none,
        "", none, none, none⟩)

def buildAtomicPendingWrite (r : WriteRequest) (w : Worker H T) :
    Worker H T × Option (PendingWrite H) :=
  if r.events = [] ∨ (env w.tick).apiOk = false then (w.next, none)
  else if r.target.name ≠ "" ∧ r.target.ns ≠ "" then
    match (env w.next.tick).getGitTarget r.target with
    | .found path mode =>
      -- the request names the target of all its events
      let resolved := r.events.map (fun e =>
        { e with path := if e.path = [] then path else e.path, target := r.target })
      (w.next.next, some ⟨.atomic, resolved, r.commitMessage, r.target,
        [(r.target, ⟨r.target, path, mode.orDefault⟩)], estimateEventsSize resolved, [], none,
        "", none, none, none⟩)
    | _ => (w.next.next, none)
  -- without a target the events keep their own
  else (w.next, some ⟨.atomic, r.events, r.commitMessage, r.target, [],
    estimateEventsSize r.events, [], none, "", none, none, none⟩)

def buildResyncPendingWrite (r : ResyncRequest) (w : Worker H T) :
    Worker H T × Option (PendingWrite H) :=
  if r.target.name = "" ∨ r.target.ns = "" ∨ (env w.tick).apiOk = false then (w.next, none)
  else match (env w.next.tick).getGitTarget r.target with
    | .found path mode =>
      (w.next.next, some ⟨.resync, [], "", r.target, [(r.target, ⟨r.target, path, mode.orDefault⟩)],
        (r.desired.map String.utf8ByteSize).sum, r.desired, r.scope, r.revision, none, none, none⟩)
    | _ => (w.next.next, none)

/-! ## 4. Closing the window -/

def dropOpenWindow (pendingCR : Option CommitRequestId) (cause : String) (l : Loop H T) : Loop H T :=
  let dropped := { l with openWindow := none, windowBytes := 0 }
  match pendingCR with
  | none => dropped
  | some id => resolveCommitRequest env cfg id ⟨none, none, cfg.branch, some cause⟩ none dropped

/-- The bookkeeping of a request whose window `planned` has been applied as `pw`: it rides the
    retained write, or is resolved at once when there was nothing to change. -/
def settleCommitRequest (id : CommitRequestId) (planned pw : PendingWrite H) (appliedTick : Nat)
    (l : Loop H T) : Loop H T :=
  match pw.commitSHA with
  | none =>
    -- the comparison was with the worktree: noted when that is not the remote tip, or when the
    -- window changes nothing because it was not applied
    let doubtful := !(decide (l.pendingWrites = []) &&
      decide ((l.w.contact env).remote.refs cfg.branch = headHash l.w.repo) &&
      !(env appliedTick).skips planned (treeAt S (headHash l.w.repo)))
    let retained := { l with
      w := if doubtful then l.w.log (.doubtfulComparison id) else l.w
      pendingWrites := l.pendingWrites ++ [{ pw with commitRequest := none }]
      pushTried := false }
    resolveCommitRequest env cfg id ⟨some .alreadyPresent, none, cfg.branch, none⟩
      (some (planned, appliedTick)) retained
  | some _ =>
    { l with
      pendingWrites := l.pendingWrites ++ [pw]
      pushTried := false
      pendingCRs := removePending id l.pendingCRs }

def finalizeOpenWindowWithMessage (message : String) (l : Loop H T) : Loop H T × Bool :=
  match l.openWindow with
  | none => (l, false)
  | some window =>
    let effectiveMessage := if message = "" then window.pendingMessage else message
    let l₁ := { l.next with commitTimer := none }
    if (env l.w.tick).writesAllowed window.target = false then
      (dropOpenWindow env cfg window.pendingCR "render fidelity gate is closed" l₁, false)
    else match buildGroupedPendingWrite env window.orderedEvents l₁.w with
      | (w₂, none) =>
        (dropOpenWindow env cfg window.pendingCR "build pending write" { l₁ with w := w₂ }, false)
      | (w₂, some built) =>
        let pw := { built with commitMessage := effectiveMessage
                               commitRequest := window.pendingCR }
        match commitPendingWrites env cfg.branch [pw] l.hasPending w₂ with
        | (w₃, [committed], some _) =>
          let closed := { l₁ with
            w := w₃
            openWindow := none
            windowBytes := 0
            pendingWritesBytes := l.pendingWritesBytes + committed.byteSize }
          match window.pendingCR with
          | none =>
            ({ closed with
                pendingWrites := l.pendingWrites ++ [committed]
                pushTried := false }, true)
          -- the one write of the batch was applied under the last answer read
          | some id => (settleCommitRequest env cfg id pw committed (w₃.tick - 1) closed, true)
        | (w₃, _, _) =>
          (dropOpenWindow env cfg window.pendingCR "commit failed" { l₁ with w := w₃ }, false)

def finalizeOpenWindow (l : Loop H T) : Loop H T × Bool :=
  finalizeOpenWindowWithMessage env cfg "" l

/-! ## 5. Resyncs and atomic writes -/

def replyTo (r : ResyncRequest) (failed : Bool) (l : Loop H T) : Loop H T :=
  { l with w := l.w.log (.replied r.channel failed) }

/-- Commit one write outside the window and retain it; `keepNoOp` is false for a resync, which is
    retained only when it made a commit. The retained copy carries no commit hash. -/
def commitAndRetain (pw : PendingWrite H) (keepNoOp : Bool) (l : Loop H T) : Loop H T × Option Bool :=
  match commitPendingWrites env cfg.branch [pw] l.hasPending l.w with
  | (w, [applied], some count) =>
    let created := decide (count ≠ 0)
    if created || keepNoOp then
      ({ l with
          w := w
          pendingWrites := l.pendingWrites ++ [{ pw with appliedAt := applied.appliedAt }]
          pendingWritesBytes := l.pendingWritesBytes + pw.byteSize
          pushTried := false }, some created)
    else ({ l with w := w }, some false)
  | (w, _, _) => ({ l with w := w }, none)

def applyResync (r : ResyncRequest) (l : Loop H T) : Loop H T :=
  -- heals come here only while no window is open
  let closing := if r.heal then (l, false) else finalizeOpenWindow env cfg l
  match buildResyncPendingWrite env r closing.1.w with
  | (w, none) => replyTo r true { closing.1 with w := w }
  | (w, some pw) =>
    match commitAndRetain env cfg pw false { closing.1 with w := w } with
    | (l₂, none) => replyTo r true l₂
    | (l₂, some committed) =>
      -- closing the window may have retained a write even when the resync did not
      let pushed := if committed || closing.2 then maybeSchedulePush env cfg l₂ else l₂
      replyTo r false pushed

def replaceHeal (r : ResyncRequest) : List ResyncRequest → Option (List ResyncRequest × ResyncRequest)
  | [] => none
  | h :: heals =>
    if resyncHealKey h = resyncHealKey r then some (r :: heals, h)
    else (replaceHeal r heals).map (fun p => (h :: p.1, p.2))

def stashDeferredHeal (r : ResyncRequest) (l : Loop H T) : Loop H T :=
  match replaceHeal r l.deferredHeals with
  | some (heals, old) => replyTo old false { l with deferredHeals := heals }
  | none => { l with deferredHeals := l.deferredHeals ++ [r] }

def handleResyncRequest (r : ResyncRequest) (l : Loop H T) : Loop H T :=
  if r.heal ∧ l.openWindow ≠ none then stashDeferredHeal r l else applyResync env cfg r l

def applyDeferredHeals (l : Loop H T) : Loop H T :=
  if l.openWindow ≠ none then l
  else l.deferredHeals.foldl (fun s r => applyResync env cfg r s) { l with deferredHeals := [] }

def handleAtomicRequest (r : WriteRequest) (l : Loop H T) : Loop H T :=
  let l₁ := applyDeferredHeals env cfg (finalizeOpenWindow env cfg l).1
  match buildAtomicPendingWrite env r l₁.w with
  | (w, none) => { l₁ with w := w }
  | (w, some pw) =>
    match commitAndRetain env cfg pw true { l₁ with w := w } with
    | (l₂, none) => l₂
    | (l₂, some _) => maybeSchedulePush env cfg l₂

/-! ## 6. Live events -/

def totalRetainedBytes (l : Loop H T) : Nat := l.windowBytes + l.pendingWritesBytes

def appendToWindow (e : Event) (l : Loop H T) : Loop H T :=
  { l with
    openWindow := some ((l.openWindow.getD (newOpenWindow e)).add e)
    windowBytes := l.windowBytes + estimateEventSize e }

def handleEvent (e : Event) (l : Loop H T) : Loop H T :=
  -- dropped, and not reported to the watch
  if (env l.w.tick).writesAllowed e.target = false then l.next
  else
    -- a window has one author and one target
    let fits := l.openWindow.all (fun window => window.canAppend e)
    let l₁ := if fits then l.next
      else applyDeferredHeals env cfg (maybeSchedulePush env cfg (finalizeOpenWindow env cfg l.next).1)
    let l₂ := appendToWindow e l₁
    if totalRetainedBytes l₂ ≥ cfg.branchBufferMaxBytes ∨ cfg.commitWindow = 0 then
      maybeSchedulePush env cfg (finalizeOpenWindow env cfg l₂).1
    else { l₂.next with commitTimer := some ((env l₂.w.tick).now + cfg.commitWindow) }

inductive WorkItem where
  | attach (r : AttachCommitRequest)
  | resync (r : ResyncRequest)
  | write (r : WriteRequest)

def handleQueueItem (item : WorkItem) (l : Loop H T) : Loop H T :=
  match item with
  | .attach r => handleAttachCommitRequest env r l
  | .resync r => handleResyncRequest env cfg r l
  | .write r =>
    if r.atomic then
      if (env l.w.tick).writesAllowed (atomicRefusalTarget r) = false then l.next
      else handleAtomicRequest env cfg r l.next
    else r.events.foldl (fun s e => handleEvent env cfg e s) l

/-! ## 7. Serving CommitRequests -/

def oldestWaiting (window : OpenWindow) : List PendingCommitRequest → Option PendingCommitRequest
  | [] => none
  | p :: rest =>
    match oldestWaiting window rest with
    | none => if p.attached || !p.matchesWindow window then none else some p
    | some best =>
      if p.attached || !p.matchesWindow window then some best
      else if best.finalizeAt < p.finalizeAt then some best else some p

def pendingInOrder (ids : List CommitRequestId) (crs : List PendingCommitRequest) :
    List PendingCommitRequest := ids.filterMap (fun id => crs.find? (fun p => p.id = id))

def markAttached (id : CommitRequestId) (crs : List PendingCommitRequest) : List PendingCommitRequest :=
  crs.map (fun p => if p.id = id then { p with attached := true } else p)

def attachWaitingCommitRequests (l : Loop H T) : Loop H T :=
  match l.openWindow with
  | none => l
  | some window =>
    if window.pendingCR ≠ none then l
    else
      -- the map is iterated in an order the environment chooses
      let iterated := pendingInOrder ((env l.w.tick).order (l.pendingCRs.map (·.id))) l.pendingCRs
      match oldestWaiting window iterated with
      | none => l.next
      | some p =>
        { l.next with
          openWindow := some { window with pendingMessage := p.message, pendingCR := some p.id }
          pendingCRs := markAttached p.id l.pendingCRs }

def processDue : List CommitRequestId → Loop H T → Loop H T
  | [], l => l
  | id :: due, l =>
    if l.pendingCRs.all (fun p => p.id ≠ id) then processDue due l
    else if l.openWindow.bind (·.pendingCR) = some id then
      let pushed := maybeSchedulePush env cfg (finalizeOpenWindow env cfg l).1
      -- a window that claimed the request has always settled it by now
      if pushed.pendingCRs.any (fun p => p.id = id) then
        processDue due (resolveCommitRequest env cfg id
          ⟨some .noOpenWindow, none, cfg.branch, none⟩ none pushed)
      else processDue due pushed
    else processDue due (resolveCommitRequest env cfg id
      ⟨some .noOpenWindow, none, cfg.branch, none⟩ none l)

def dueIds (now : Int) (l : Loop H T) : List CommitRequestId :=
  (l.pendingCRs.filter (fun p => decide (p.finalizeAt ≤ now))).map (·.id)

def processDueCommitRequests (l : Loop H T) : Loop H T :=
  let world := env l.w.tick
  let due := (world.order (l.pendingCRs.map (·.id))).filter (fun id => (dueIds world.now l).contains id)
  processDue env cfg due l.next

def rearmAttachTimer (l : Loop H T) : Loop H T :=
  { l with attachTimer := (l.pendingCRs.map (·.finalizeAt)).min? }

def serviceCommitRequests (l : Loop H T) : Loop H T :=
  if l.pendingCRs = [] then { l with attachTimer := none }
  else rearmAttachTimer (processDueCommitRequests env cfg (attachWaitingCommitRequests env l))

/-! ## 8. The loop -/

inductive Wake where
  | item (i : WorkItem)
  | commitTimer
  | pushTimer
  | attachTimer
  | shutdown

def timerFired (timer : Option Int) (now : Int) : Bool := timer.any (fun d => decide (d ≤ now))

def handleShutdown (l : Loop H T) : Loop H T :=
  let drained := applyDeferredHeals env cfg (finalizeOpenWindow env cfg l).1
  let pushed := if drained.pendingWrites ≠ [] then pushPending env cfg drained else drained
  { pushed with stopped := true, commitTimer := none, pushTimer := none, attachTimer := none }

def wakeReady (wake : Wake) (l : Loop H T) : Bool :=
  let now := (env l.w.tick).now
  match wake with
  | .commitTimer => timerFired l.commitTimer now
  | .pushTimer => timerFired l.pushTimer now
  | .attachTimer => timerFired l.attachTimer now
  | _ => true

def handleWake (wake : Wake) (l : Loop H T) : Loop H T :=
  match wake with
  | .item i => handleQueueItem env cfg i l
  | .commitTimer =>
    maybeSchedulePush env cfg (finalizeOpenWindow env cfg { l.next with commitTimer := none }).1
  | .pushTimer => pushPending env cfg { l.next with pushTimer := none }
  | .attachTimer => { l.next with attachTimer := none }
  | .shutdown => handleShutdown env cfg l

def turn (l : Loop H T) (wake : Wake) : Loop H T :=
  if l.stopped || !wakeReady env wake l then l
  else
    let handled := handleWake env cfg wake l
    -- a shutdown leaves the loop at once
    if handled.stopped then handled
    else applyDeferredHeals env cfg (serviceCommitRequests env cfg handled)

def initialLoop (repo : Repo H T) (remote : Remote H) : Loop H T :=
  ⟨⟨repo, remote, none, none, 0, [], []⟩, none, 0, [], 0, none, none, none, none, [], [], [], false, false⟩

def run (repo : Repo H T) (remote : Remote H) (wakes : List Wake) : Loop H T :=
  wakes.foldl (turn env cfg) (initialLoop repo remote)

end GitopsReverser.Git
