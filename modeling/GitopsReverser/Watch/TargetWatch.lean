import GitopsReverser.Watch.ReplayFold

/-!
# TargetWatch — the goroutine of one watch scope

`runTargetWatch` opens sessions for one (GVR, namespace) until it is cancelled. The model takes
one input per wake: the start of a session, a watch event, the end of the stream, or the reply to
a resync. The answers of the API server, the worker queue and the cursor store come with it.
-/

namespace GitopsReverser.Watch

variable {B D X : Type}

/-! ## 1. State -/

inductive StreamState where
  | replaying
  | streaming
  | blocked
  deriving DecidableEq, Repr

inductive StreamReason where
  | initialReplay
  | resumeReplay
  | expiredResourceVersion
  | watchError
  | allStreamsReady
  deriving DecidableEq, Repr

structure StreamStatus where
  state : StreamState
  reason : StreamReason
  message : String
  deriving DecidableEq, Repr

/-- What became of a resync: its reply, as `drainScopedResync` sorts it. -/
inductive ResyncFate where
  | awaiting
  | applied
  | diverged
  | refused
  | failed
  | timedOut
  deriving DecidableEq, Repr

structure ReplayResync (D : Type) where
  desired : List (DesiredResource D)
  revision : String
  epoch : Nat
  fate : ResyncFate
  deriving DecidableEq

/-- Where the goroutine is. `replaying` also keeps the objects behind the folded entries, which
    the source does not. -/
inductive Phase (B D : Type) where
  | waiting
  | replaying (replay : List (DesiredResource D)) (objects : List (Unstructured B))
  | live
  | resumed
  | listed (floor : String)
  | stopped
  deriving DecidableEq

/-- What happened to live events and snapshots, newest first. -/
inductive WatchNote (B D : Type) where
  | routed (u : Unstructured B) (event : GitEvent D)
  | routeFailed (u : Unstructured B) (event : GitEvent D)
  | skipped (u : Unstructured B) (event : GitEvent D)
  /-- A replay or list of these objects was accepted by the worker queue. -/
  | snapshot (objects : List (Unstructured B))
  deriving DecidableEq

/-- The declared scope. `hasCursors` says that a cursor store and the target's UID are known;
    `hash` is `none` when the content cannot be marshalled. -/
structure WatchConfig (B D X : Type) where
  gitDest : ResourceReference
  key : TargetWatchKey
  ops : OperationSet
  hasCursors : Bool
  sanitize : Unstructured B → D
  hash : D → Option X

/-- `stream` is the state marked last, `resyncs` those this declaration has enqueued. -/
structure TargetWatch (B D X : Type) where
  phase : Phase B D
  resumeFromCursor : Bool
  cursor : Option String
  dedup : String → Option X
  stream : Option StreamStatus
  resyncs : List (ReplayResync D)
  trace : List (WatchNote B D)

inductive OpenAnswer where
  | opened
  | failed (text : String) (status : Option ApiStatus)
  deriving DecidableEq

inductive EnqueueAnswer where
  | enqueued
  | queueFull
  | failed (text : String)
  deriving DecidableEq

inductive RouteAnswer where
  | accepted
  | queueFull
  | noStream
  deriving DecidableEq

/-- Everything the outside world answers while one input is handled. -/
structure Answers (B : Type) where
  cursorFound : Bool
  resumeOpen : OpenAnswer
  replayOpen : OpenAnswer
  listOpen : OpenAnswer
  list : Except String (List (Unstructured B) × String)
  epoch : Nat
  enqueue : EnqueueAnswer
  route : RouteAnswer
  /-- The error of the cursor store, if it refuses a write. -/
  storeError : Option String

inductive WatchInput (B : Type) where
  | session (a : Answers B)
  | event (ev : WatchEvent B) (a : Answers B)
  | closed
  | cancelled
  | reply (index : Nat) (fate : ResyncFate)
  /-- The watch set is declared again: a new goroutine takes over the scope. -/
  | declared (force : Bool)

variable (cfg : WatchConfig B D X)

/-! ## 2. Sessions -/

def mark (state : StreamState) (reason : StreamReason) (message : String)
    (w : TargetWatch B D X) : TargetWatch B D X :=
  { w with stream := some ⟨state, reason, message⟩ }

def errTargetWatchClosed : String := "target watch result channel closed"
def errTargetWatchExpired : String := "target watch resourceVersion expired"
def errFinalizeQueueFull : String := "branch worker event queue full; item dropped"

/-- The loop of `runTargetWatch` after a session that returned an error. -/
def endSession (err : String) (w : TargetWatch B D X) : TargetWatch B D X :=
  { mark .blocked .watchError err w with phase := .waiting, resumeFromCursor := true }

def recordTargetWatchCursor (a : Answers B) (rv : String) (w : TargetWatch B D X) :
    Except String (TargetWatch B D X) :=
  -- without a store, or without a version, there is nothing to record
  if cfg.hasCursors = false ∨ rv = "" then .ok w
  else match a.storeError with
    | some err => .error err
    | none => .ok { w with cursor := some rv }

def enqueueReplayResync (a : Answers B) (desired : List (DesiredResource D)) (revision : String)
    (objects : List (Unstructured B)) (w : TargetWatch B D X) :
    Except String (TargetWatch B D X) :=
  match a.enqueue with
  | .failed text => .error text
  | .queueFull => .error ("target replay resync for " ++ cfg.key.gvr.toString ++ " on " ++
      cfg.gitDest.key ++ " dropped: " ++ errFinalizeQueueFull)
  | .enqueued => .ok { w with
      resyncs := w.resyncs ++ [⟨desired, revision, a.epoch, .awaiting⟩]
      trace := .snapshot objects :: w.trace }

/-- The end of a replay or list: the snapshot is enqueued, the cursor recorded, and the stream
    marked `Streaming`. -/
def completeReplay (a : Answers B) (desired : List (DesiredResource D)) (revision : String)
    (objects : List (Unstructured B)) (message : String) (next : Phase B D)
    (w : TargetWatch B D X) : TargetWatch B D X :=
  match enqueueReplayResync cfg a desired revision objects w with
  | .error err => endSession err w
  | .ok w₁ =>
    -- the snapshot is with the worker by now; only the cursor can still fail
    match recordTargetWatchCursor cfg a revision w₁ with
    | .error err => endSession err w₁
    | .ok w₂ => { mark .streaming .allStreamsReady message w₂ with phase := next }

def quoted (s : String) : String := "\"" ++ s ++ "\""

def watchListUnsupported (text : String) : Bool :=
  text.toList.tails.any ("sendInitialEvents".toList.isPrefixOf ·)

def watchOpenExpired (status : Option ApiStatus) : Bool :=
  status.any (fun s => decide (s.reason = "Gone") || statusExpired s)

def blockedSession (err text : String) (w : TargetWatch B D X) : TargetWatch B D X :=
  endSession (err ++ ": " ++ text) (mark .blocked .watchError text w)

def scopeText : String := cfg.key.gvr.toString ++ "/" ++ quoted cfg.key.ns

def targetWatchListAndStream (a : Answers B) (w : TargetWatch B D X) : TargetWatch B D X :=
  match a.listOpen with
  | .failed text _ =>
    blockedSession ("open target watch " ++ scopeText cfg ++ " for list fallback") text w
  | .opened =>
    match a.list with
    | .error text => blockedSession ("list target watch snapshot " ++ scopeText cfg) text w
    | .ok (items, revision) =>
      completeReplay cfg a (desiredFromList cfg.sanitize cfg.key.gvr items) revision items
        "target watch list fallback complete" (.listed revision) w

def startReplay (a : Answers B) (cursorExpired : Bool) (w : TargetWatch B D X) : TargetWatch B D X :=
  let reason := if cursorExpired then .resumeReplay else .initialReplay
  let replaying := mark .replaying reason "target watch replay in progress" w
  match a.replayOpen with
  | .opened => { replaying with phase := .replaying [] [] }
  -- an API server without `sendInitialEvents` is listed instead
  | .failed text _ =>
    if watchListUnsupported text then targetWatchListAndStream cfg a replaying
    else blockedSession ("open target watch " ++ scopeText cfg) text replaying

/-- A stored cursor that the server no longer accepts: rebuild from a fresh replay. -/
def rebuildExpired (a : Answers B) (w : TargetWatch B D X) : TargetWatch B D X :=
  startReplay cfg a true (mark .replaying .expiredResourceVersion
    "stored watch cursor expired; rebuilding from a fresh replay" w)

def lookupTargetWatchCursor (a : Answers B) (w : TargetWatch B D X) : Option String :=
  if cfg.hasCursors && a.cursorFound then w.cursor else none

def targetWatchReplayAndStream (a : Answers B) (w : TargetWatch B D X) : TargetWatch B D X :=
  match w.resumeFromCursor, lookupTargetWatchCursor cfg a w with
  -- only a session after the first one resumes, whatever the first one achieved
  | true, some cursor =>
    match a.resumeOpen with
    | .opened =>
      { mark .streaming .allStreamsReady "target watch resumed from durable cursor" w with
        phase := .resumed }
    | .failed text status =>
      if watchOpenExpired status then rebuildExpired cfg a w
      else blockedSession ("open target watch " ++ scopeText cfg ++ " from cursor " ++
        quoted cursor) text w
  | _, _ => startReplay cfg a false w

/-! ## 3. Live events -/

def liveContentDedupKey (u : Unstructured B) : String :=
  cfg.gitDest.key ++ "|" ++ cfg.key.gvr.toString ++ "|" ++ u.uid

def skipUnchangedLiveUpdate (u : Unstructured B) (event : GitEvent D) [DecidableEq X]
    (dedup : String → Option X) : (String → Option X) × Bool :=
  let key := liveContentDedupKey cfg u
  if event.operation = some .delete then (Function.update dedup key none, false)
  else match event.object.bind cfg.hash with
    | none => (dedup, false)
    | some hash =>
      -- the hash is stored before anyone has taken the event
      if event.operation = some .update ∧ dedup key = some hash then (dedup, true)
      else (Function.update dedup key (some hash), false)

/-- `RouteToGitTargetEventStream` and `OnWatchEvent`: the error, if the event is not taken. -/
def routeToGitTargetEventStream (answer : RouteAnswer) (event : GitEvent D) : Option String :=
  match answer with
  | .noStream => some ("no GitTargetEventStream registered for " ++ cfg.gitDest.key)
  | .queueFull =>
    -- an event without content is dropped by the stream and counts as taken
    if event.object.isNone && decide (event.operation ≠ some .delete) then none
    else some ("branch worker queue full for gitTarget " ++ cfg.gitDest.key ++ "; dropped " ++
      (event.operation.map Operation.toString).getD "" ++ " event for " ++ event.identifier.key)
  | .accepted => none

def routeLiveTargetWatchEvent [DecidableEq X] (ev : WatchEvent B) (a : Answers B)
    (w : TargetWatch B D X) : TargetWatch B D X × Except String String :=
  let rv := targetWatchEventResourceVersion ev
  match ev.type with
  | .added | .modified | .deleted =>
    match ev.object with
    | .unstructured u =>
      let op := operationForLiveTargetWatchEvent ev.type u
      if cfg.ops.matches op = false then (w, .ok rv)
      else
        let event := targetWatchGitEvent cfg.sanitize cfg.key.gvr u op
        match skipUnchangedLiveUpdate cfg u event w.dedup with
        | (dedup, true) => ({ w with dedup := dedup, trace := .skipped u event :: w.trace }, .ok rv)
        | (dedup, false) =>
          match routeToGitTargetEventStream cfg a.route event with
          | some err =>
            ({ w with dedup := dedup, trace := .routeFailed u event :: w.trace }, .error err)
          | none => ({ w with dedup := dedup, trace := .routed u event :: w.trace }, .ok rv)
    | _ => (w, .ok rv)
  | .error => (w, .error ("target watch error for " ++ cfg.key.gvr.toString ++ ": " ++ ev.text))
  -- bookmarks move the cursor and nothing else
  | .bookmark | .other => (w, .ok rv)

def routeAndRecord [DecidableEq X] (ev : WatchEvent B) (a : Answers B) (w : TargetWatch B D X) :
    TargetWatch B D X :=
  match routeLiveTargetWatchEvent cfg ev a w with
  | (w₁, .error err) => endSession err w₁
  | (w₁, .ok rv) =>
    match recordTargetWatchCursor cfg a rv w₁ with
    | .error err => endSession err w₁
    | .ok w₂ => w₂

def replayObjects (ev : WatchEvent B) (objects : List (Unstructured B)) : List (Unstructured B) :=
  match ev.type, ev.object with
  | .added, .unstructured u => objects ++ [u]
  | .modified, .unstructured u => objects ++ [u]
  | _, _ => objects

def handleEvent [DecidableEq X] (ev : WatchEvent B) (a : Answers B) (w : TargetWatch B D X) :
    TargetWatch B D X :=
  match w.phase with
  | .waiting | .stopped => w
  | .replaying replay objects =>
    match foldTargetReplayEvent cfg.sanitize cfg.key.gvr ev replay with
    | .error err => endSession err w
    | .ok (replay', none) => { w with phase := .replaying replay' (replayObjects ev objects) }
    | .ok (replay', some rv) =>
      completeReplay cfg a replay' rv objects "target watch replay complete" .live w
  | .live => routeAndRecord cfg ev a w
  | .resumed =>
    if targetWatchExpired ev then rebuildExpired cfg a w else routeAndRecord cfg ev a w
  -- the watch was opened before the list, so early events repeat it
  | .listed floor =>
    if targetWatchEventAtOrBeforeFloor ev floor then w
    else if targetWatchExpired ev then endSession errTargetWatchExpired w
    else routeAndRecord cfg ev a w

/-! ## 4. The goroutine -/

def Phase.isWaiting : Phase B D → Bool
  | .waiting => true
  | _ => false

def Phase.isOpen : Phase B D → Bool
  | .waiting => false
  | .stopped => false
  | _ => true

def Phase.isLive : Phase B D → Bool
  | .live => true
  | .resumed => true
  | .listed _ => true
  | _ => false

def settleResync (index : Nat) (fate : ResyncFate) (resyncs : List (ReplayResync D)) :
    List (ReplayResync D) :=
  resyncs.mapIdx (fun i r => if i = index ∧ r.fate = .awaiting then { r with fate := fate } else r)

def initialReplay : StreamStatus :=
  ⟨.replaying, .initialReplay, "waiting for target watch replay to complete"⟩

def declaredWatch (cursor : Option String) (dedup : String → Option X)
    (trace : List (WatchNote B D)) : TargetWatch B D X :=
  ⟨.waiting, false, cursor, dedup, some initialReplay, [], trace⟩

/-- `replaceGitTargetWatches` on a scope that is watched already: unless it is forced to, it leaves
    the state of the stream as the replaced goroutine marked it. -/
def redeclaredWatch (force : Bool) (w : TargetWatch B D X) : TargetWatch B D X :=
  { declaredWatch w.cursor w.dedup w.trace with
    stream := if force then some initialReplay else w.stream.or (some initialReplay) }

def watchStep [DecidableEq X] (w : TargetWatch B D X) (input : WatchInput B) : TargetWatch B D X :=
  match input with
  | .session a => if w.phase.isWaiting then targetWatchReplayAndStream cfg a w else w
  | .event ev a => handleEvent cfg ev a w
  | .closed => if w.phase.isOpen then endSession errTargetWatchClosed w else w
  | .cancelled => { w with phase := .stopped }
  | .reply index fate => { w with resyncs := settleResync index fate w.resyncs }
  -- the cursor and the cache outlive the goroutine
  | .declared force => redeclaredWatch force w

/-! ## 5. What the calls leave alone -/

theorem recordTargetWatchCursor_frame {a : Answers B} {rv : String}
    (h : recordTargetWatchCursor cfg a rv w = .ok w') :
    w'.resyncs = w.resyncs ∧ w'.stream = w.stream ∧ w'.phase = w.phase ∧ w'.trace = w.trace ∧
      w'.dedup = w.dedup := by
  unfold recordTargetWatchCursor at h
  split at h
  · exact Except.ok.inj h ▸ ⟨rfl, rfl, rfl, rfl, rfl⟩
  · split at h
    · simp at h
    · exact Except.ok.inj h ▸ ⟨rfl, rfl, rfl, rfl, rfl⟩

variable (ev : WatchEvent B)

variable (a : Answers B)

theorem routeLiveTargetWatchEvent_frame [DecidableEq X] (w : TargetWatch B D X) :
    let w' := (routeLiveTargetWatchEvent cfg ev a w).1
    w'.resyncs = w.resyncs ∧ w'.stream = w.stream ∧ w'.phase = w.phase := by
  unfold routeLiveTargetWatchEvent
  simp only
  split <;> try exact ⟨rfl, rfl, rfl⟩
  all_goals
    split
    · split
      · exact ⟨rfl, rfl, rfl⟩
      · split
        · exact ⟨rfl, rfl, rfl⟩
        · split <;> exact ⟨rfl, rfl, rfl⟩
    · exact ⟨rfl, rfl, rfl⟩

/-! ## 6. What one input hands over -/

/-- Nothing was handed to the worker and the cache is as it was. -/
structure Same (w w' : TargetWatch B D X) : Prop where
  resyncs : w'.resyncs = w.resyncs
  trace : w'.trace = w.trace
  dedup : w'.dedup = w.dedup

structure Snapshotted (a : Answers B) (desired : List (DesiredResource D)) (revision : String)
    (objects : List (Unstructured B)) (w w' : TargetWatch B D X) : Prop where
  enqueued : a.enqueue = .enqueued
  resyncs : w'.resyncs = w.resyncs ++ [⟨desired, revision, a.epoch, .awaiting⟩]
  trace : w'.trace = .snapshot objects :: w.trace
  dedup : w'.dedup = w.dedup

/-- Nothing was handed over, or the answered list was. -/
def Listed (a : Answers B) (w w' : TargetWatch B D X) : Prop :=
  Same w w' ∨ ∃ items revision, a.list = .ok (items, revision) ∧
    Snapshotted a (desiredFromList cfg.sanitize cfg.key.gvr items) revision items w w'

/-- The Git event made of a watch event for `u`. -/
structure LiveEvent (ev : WatchEvent B) (u : Unstructured B) (event : GitEvent D) : Prop where
  object : ev.object = .unstructured u
  event : event = targetWatchGitEvent cfg.sanitize cfg.key.gvr u
    (operationForLiveTargetWatchEvent ev.type u)
  operation : operationForLiveTargetWatchEvent ev.type u ≠ none

/-- A live event was skipped, refused by the queue, or accepted. -/
inductive Handled [DecidableEq X] (ev : WatchEvent B) (a : Answers B) (w w' : TargetWatch B D X) :
    Prop where
  | ignored (h : Same w w')
  | skipped (u : Unstructured B) (event : GitEvent D)
      (hskip : skipUnchangedLiveUpdate cfg u event w.dedup = (w'.dedup, true))
      (hevent : LiveEvent cfg ev u event)
      (hresyncs : w'.resyncs = w.resyncs) (htrace : w'.trace = .skipped u event :: w.trace)
  | refused (u : Unstructured B) (event : GitEvent D)
      (hskip : skipUnchangedLiveUpdate cfg u event w.dedup = (w'.dedup, false))
      (hevent : LiveEvent cfg ev u event)
      (hroute : a.route ≠ .accepted)
      (hresyncs : w'.resyncs = w.resyncs) (htrace : w'.trace = .routeFailed u event :: w.trace)
  | accepted (u : Unstructured B) (event : GitEvent D)
      (hskip : skipUnchangedLiveUpdate cfg u event w.dedup = (w'.dedup, false))
      (hevent : LiveEvent cfg ev u event)
      (hresyncs : w'.resyncs = w.resyncs) (htrace : w'.trace = .routed u event :: w.trace)

theorem Same.refl (w : TargetWatch B D X) : Same w w := ⟨rfl, rfl, rfl⟩

variable (a : Answers B)

theorem completeReplay_effect (desired : List (DesiredResource D))
    (revision : String) (objects : List (Unstructured B)) (message : String) (next : Phase B D)
    (w : TargetWatch B D X) :
    Same w (completeReplay cfg a desired revision objects message next w) ∨
      Snapshotted a desired revision objects w
        (completeReplay cfg a desired revision objects message next w) := by
  unfold completeReplay enqueueReplayResync
  cases henqueue : a.enqueue with
  | failed text | queueFull => exact Or.inl ⟨rfl, rfl, rfl⟩
  | enqueued =>
    right
    simp only
    split
    · exact ⟨henqueue, rfl, rfl, rfl⟩
    · rename_i w₂ hrec
      obtain ⟨hres, -, -, htrace, hdedup⟩ := recordTargetWatchCursor_frame cfg hrec
      exact ⟨henqueue, hres, htrace, hdedup⟩

theorem targetWatchListAndStream_effect (w : TargetWatch B D X) :
    Listed cfg a w (targetWatchListAndStream cfg a w) := by
  unfold targetWatchListAndStream
  split
  · exact Or.inl ⟨rfl, rfl, rfl⟩
  · split
    · exact Or.inl ⟨rfl, rfl, rfl⟩
    · rename_i items revision hlist
      rcases completeReplay_effect cfg a (desiredFromList cfg.sanitize cfg.key.gvr items) revision
        items "target watch list fallback complete" (.listed revision) w with hsame | hsnapshot
      · exact Or.inl hsame
      · exact Or.inr ⟨items, revision, hlist, hsnapshot⟩

theorem Listed.of_mark {a : Answers B} {state : StreamState} {reason : StreamReason}
    {message : String} {w w' : TargetWatch B D X}
    (h : Listed cfg a (mark state reason message w) w') : Listed cfg a w w' := by
  rcases h with hsame | ⟨items, revision, hlist, hsnap⟩
  · exact Or.inl ⟨hsame.resyncs, hsame.trace, hsame.dedup⟩
  · exact Or.inr ⟨items, revision, hlist, hsnap.enqueued, hsnap.resyncs, hsnap.trace, hsnap.dedup⟩

theorem startReplay_effect (cursorExpired : Bool) (w : TargetWatch B D X) :
    Listed cfg a w (startReplay cfg a cursorExpired w) := by
  unfold startReplay
  cases a.replayOpen with
  | opened => exact Or.inl ⟨rfl, rfl, rfl⟩
  | failed text status =>
    simp only
    split
    · exact (targetWatchListAndStream_effect cfg a _).of_mark
    · exact Or.inl ⟨rfl, rfl, rfl⟩

theorem rebuildExpired_effect (w : TargetWatch B D X) :
    Listed cfg a w (rebuildExpired cfg a w) := (startReplay_effect cfg a true _).of_mark

theorem targetWatchReplayAndStream_effect (w : TargetWatch B D X) :
    Listed cfg a w (targetWatchReplayAndStream cfg a w) := by
  unfold targetWatchReplayAndStream
  split
  · split
    · exact Or.inl ⟨rfl, rfl, rfl⟩
    · split
      · exact rebuildExpired_effect cfg a w
      · exact Or.inl ⟨rfl, rfl, rfl⟩
  · exact startReplay_effect cfg a false w

theorem operationForLiveTargetWatchEvent_ne_none (u : Unstructured B)
    (h : operationForWatchEvent type ≠ none) : operationForLiveTargetWatchEvent type u ≠ none := by
  unfold operationForLiveTargetWatchEvent
  split
  · simp
  · exact h

theorem routeLiveTargetWatchEvent_effect [DecidableEq X]
    (w : TargetWatch B D X) : Handled cfg ev a w (routeLiveTargetWatchEvent cfg ev a w).1 := by
  unfold routeLiveTargetWatchEvent
  simp only
  -- added, modified and deleted are left, and go the same way
  split <;> try exact .ignored (Same.refl w)
  all_goals
    rename_i htype
    have hop : operationForWatchEvent ev.type ≠ none := by simp [htype, operationForWatchEvent]
    split
    · rename_i u hu
      have hevent : LiveEvent cfg ev u (targetWatchGitEvent cfg.sanitize cfg.key.gvr u
          (operationForLiveTargetWatchEvent ev.type u)) :=
        ⟨hu, rfl, operationForLiveTargetWatchEvent_ne_none u hop⟩
      split
      · exact .ignored (Same.refl w)
      · split
        · rename_i dedup hskip
          exact .skipped u _ hskip hevent rfl rfl
        · rename_i dedup hskip
          split
          · rename_i err hroute
            refine .refused u _ hskip hevent ?_ rfl rfl
            -- the queue refused it, so the route was not accepted
            intro haccept
            simp [routeToGitTargetEventStream, haccept] at hroute
          · exact .accepted u _ hskip hevent rfl rfl
    · exact .ignored (Same.refl w)

theorem Handled.congr [DecidableEq X] {ev : WatchEvent B} {a : Answers B}
    (h : Handled cfg ev a w w₁) (hsame : Same w₁ w') :
    Handled cfg ev a w w' := by
  -- recording the cursor afterwards changes nothing the effect speaks of
  cases h with
  | ignored h =>
    exact .ignored ⟨hsame.resyncs.trans h.resyncs, hsame.trace.trans h.trace, hsame.dedup.trans h.dedup⟩
  | skipped u event hskip hevent hres htrace =>
    exact .skipped u event (by rw [hskip, hsame.dedup]) hevent (hsame.resyncs.trans hres)
      (hsame.trace.trans htrace)
  | refused u event hskip hevent hroute hres htrace =>
    exact .refused u event (by rw [hskip, hsame.dedup]) hevent hroute
      (hsame.resyncs.trans hres) (hsame.trace.trans htrace)
  | accepted u event hskip hevent hres htrace =>
    exact .accepted u event (by rw [hskip, hsame.dedup]) hevent (hsame.resyncs.trans hres)
      (hsame.trace.trans htrace)

theorem routeAndRecord_effect [DecidableEq X]
    (w : TargetWatch B D X) : Handled cfg ev a w (routeAndRecord cfg ev a w) := by
  have h := routeLiveTargetWatchEvent_effect cfg ev a w
  unfold routeAndRecord
  split
  · rename_i w₁ err hroute
    rw [hroute] at h
    exact h.congr cfg ⟨rfl, rfl, rfl⟩
  · rename_i w₁ rv hroute
    rw [hroute] at h
    split
    · exact h.congr cfg ⟨rfl, rfl, rfl⟩
    · rename_i w₂ hrec
      obtain ⟨hres, -, -, htrace, hdedup⟩ := recordTargetWatchCursor_frame cfg hrec
      exact h.congr cfg ⟨hres, htrace, hdedup⟩

/-- Everything one input can hand to the worker. -/
inductive WatchEffect [DecidableEq X] (w : TargetWatch B D X) :
    WatchInput B → TargetWatch B D X → Prop where
  | same {input : WatchInput B} {w' : TargetWatch B D X} (h : Same w w') : WatchEffect w input w'
  | opened {a : Answers B} {w' : TargetWatch B D X} (h : Listed cfg a w w') :
      WatchEffect w (.session a) w'
  | reopened {ev : WatchEvent B} {a : Answers B} {w' : TargetWatch B D X}
      (hphase : w.phase = .resumed) (h : Listed cfg a w w') : WatchEffect w (.event ev a) w'
  | replayed {ev : WatchEvent B} {a : Answers B} {w' : TargetWatch B D X}
      (replay replay' : List (DesiredResource D)) (objects : List (Unstructured B)) (rv : String)
      (hphase : w.phase = .replaying replay objects)
      (hfold : foldTargetReplayEvent cfg.sanitize cfg.key.gvr ev replay = .ok (replay', some rv))
      (h : Snapshotted a replay' rv objects w w') : WatchEffect w (.event ev a) w'
  | handled {ev : WatchEvent B} {a : Answers B} {w' : TargetWatch B D X}
      (hlive : w.phase.isLive = true) (h : Handled cfg ev a w w') : WatchEffect w (.event ev a) w'
  | settled {index : Nat} {fate : ResyncFate} {w' : TargetWatch B D X}
      (hresyncs : w'.resyncs = settleResync index fate w.resyncs) (htrace : w'.trace = w.trace)
      (hdedup : w'.dedup = w.dedup) : WatchEffect w (.reply index fate) w'
  | declared {w' : TargetWatch B D X} (hresyncs : w'.resyncs = []) (htrace : w'.trace = w.trace)
      (hdedup : w'.dedup = w.dedup) : WatchEffect w (.declared force) w'

theorem handleEvent_effect [DecidableEq X]
    (w : TargetWatch B D X) : WatchEffect cfg w (.event ev a) (handleEvent cfg ev a w) := by
  unfold handleEvent
  split
  · exact .same (Same.refl w)
  · exact .same (Same.refl w)
  · rename_i replay objects hphase
    split
    · exact .same ⟨rfl, rfl, rfl⟩
    · exact .same ⟨rfl, rfl, rfl⟩
    · rename_i replay' rv hfold
      rcases completeReplay_effect cfg a replay' rv objects "target watch replay complete" .live w
        with hsame | hsnap
      · exact .same hsame
      · exact .replayed replay replay' objects rv hphase hfold hsnap
  · rename_i hphase
    exact .handled (by rw [hphase]; rfl) (routeAndRecord_effect cfg ev a w)
  · rename_i hphase
    split
    · exact .reopened hphase (rebuildExpired_effect cfg a w)
    · exact .handled (by rw [hphase]; rfl) (routeAndRecord_effect cfg ev a w)
  · rename_i floor hphase
    split
    · exact .same (Same.refl w)
    · split
      · exact .same ⟨rfl, rfl, rfl⟩
      · exact .handled (by rw [hphase]; rfl) (routeAndRecord_effect cfg ev a w)

theorem watchStep_effect [DecidableEq X] (w : TargetWatch B D X) (input : WatchInput B) :
    WatchEffect cfg w input (watchStep cfg w input) := by
  cases input with
  | session a =>
    simp only [watchStep]
    split
    · exact .opened (targetWatchReplayAndStream_effect cfg a w)
    · exact .same (Same.refl w)
  | event ev a => exact handleEvent_effect cfg ev a w
  | closed =>
    simp only [watchStep]
    split
    · exact .same ⟨rfl, rfl, rfl⟩
    · exact .same (Same.refl w)
  | cancelled => exact .same ⟨rfl, rfl, rfl⟩
  | reply index fate => exact .settled rfl rfl rfl
  | declared force => exact .declared rfl rfl rfl

end GitopsReverser.Watch
