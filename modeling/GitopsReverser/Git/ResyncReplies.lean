import GitopsReverser.Git.StrandedCommits

/-!
# ResyncReplies — every accepted resync is answered once

The emitter of a resync waits on its reply channel. A request waits in the queue, or parked as a
heal, until the loop answers it; `Served` adds the queue to the loop.
-/

namespace GitopsReverser.Git

open Reasoning

variable {H T : Type} {S : ObjectStore H T}
  (env : Nat → World S) (cfg : LoopConfig)

/-! ## 1. The queue -/

def branchWorkerQueueSize : Nat := 100

/-- A worker with its queue. `issued` counts the reply channels made so far, and `accepted` are
    those of the resyncs that entered the queue. -/
structure Served (H T : Type) where
  loop : Loop H T
  queue : List WorkItem
  issued : Nat
  accepted : List Nat

inductive Timer where
  | commit
  | push
  | attach
  deriving DecidableEq

def Timer.wake : Timer → Wake
  | commit => .commitTimer
  | push => .pushTimer
  | attach => .attachTimer

inductive QueueInput where
  | enqueueResync (r : ResyncRequest)
  | enqueueWrite (r : WriteRequest)
  | enqueueAttach (r : AttachCommitRequest)
  | receive
  | fire (timer : Timer)
  | stop

def enqueueResync (r : ResyncRequest) (s : Served H T) : Served H T :=
  let request := { r with channel := s.issued }
  if s.queue.length < branchWorkerQueueSize then
    { s with
      queue := s.queue ++ [.resync request]
      issued := s.issued + 1
      accepted := s.accepted ++ [s.issued] }
  else { s with loop := replyTo request true s.loop, issued := s.issued + 1 }

/-- `enqueueRequest` and `EnqueueAttach`: a full queue drops the item. -/
def enqueueItem (item : WorkItem) (s : Served H T) : Served H T :=
  if s.queue.length < branchWorkerQueueSize then { s with queue := s.queue ++ [item] } else s

def serve [DecidableEq H] [EmptyCollection T] (s : Served H T) : QueueInput → Served H T
  | .enqueueResync r => enqueueResync r s
  | .enqueueWrite r => enqueueItem (.write r) s
  | .enqueueAttach r => enqueueItem (.attach r) s
  | .receive =>
    if s.loop.stopped then s
    else match s.queue with
      | [] => s
      | item :: rest => { s with queue := rest, loop := turn env cfg s.loop (.item item) }
  | .fire timer => { s with loop := turn env cfg s.loop timer.wake }
  -- `drainUnhandledQueueItems` empties the queue without answering anyone
  | .stop =>
    if s.loop.stopped then s
    else { s with queue := [], loop := turn env cfg s.loop .shutdown }

def initialServed (repo : Repo H T) (remote : Remote H) : Served H T :=
  ⟨initialLoop repo remote, [], 0, []⟩

def WorkItem.isResync : WorkItem → Bool
  | .resync _ => true
  | _ => false

/-- The stop finds no resync in the queue, and none is enqueued after it. -/
def StopFindsNoResync (s : Served H T) : QueueInput → Prop
  | .enqueueResync _ => s.loop.stopped = false
  | .stop => s.queue.all (fun item => !item.isResync) = true
  | _ => True

instance (s : Served H T) (input : QueueInput) : Decidable (StopFindsNoResync s input) :=
  match input with
  | .enqueueResync _ | .stop => inferInstanceAs (Decidable (_ = _))
  | .enqueueWrite _ | .enqueueAttach _ | .receive | .fire _ => instDecidableTrue

/-! ## 2. Counting replies -/

def Note.repliesTo (channel : Nat) : Note H → Bool
  | .replied c _ => c = channel
  | _ => false

def replies (channel : Nat) (l : Loop H T) : Nat := l.w.trace.countP (Note.repliesTo channel)

def parked (channel : Nat) (heals : List ResyncRequest) : Nat :=
  heals.countP (fun r => r.channel = channel)

def WorkItem.waitsOn (channel : Nat) : WorkItem → Bool
  | .resync r => r.channel = channel
  | _ => false

def queued (channel : Nat) (queue : List WorkItem) : Nat := queue.countP (WorkItem.waitsOn channel)

def accounted (channel : Nat) (l : Loop H T) : Nat := replies channel l + parked channel l.deferredHeals

/-- Nobody is answered, no heal is parked or taken, and the loop goes on. -/
structure Unreplied (l l' : Loop H T) : Prop where
  heals : l'.deferredHeals = l.deferredHeals
  stopped : l'.stopped = l.stopped
  replies : ∀ channel, replies channel l' = replies channel l

theorem Unreplied.refl (l : Loop H T) : Unreplied l l := ⟨rfl, rfl, fun _ => rfl⟩

theorem Unreplied.trans (hab : Unreplied a b) (hbc : Unreplied b c) : Unreplied a c :=
  ⟨hbc.heals.trans hab.heals, hbc.stopped.trans hab.stopped,
    fun channel => (hbc.replies channel).trans (hab.replies channel)⟩

/-- The accounts change by `owed`, and the loop goes on. -/
structure Accounts (owed : Nat → Nat) (l l' : Loop H T) : Prop where
  count : ∀ channel, accounted channel l' = accounted channel l + owed channel
  stopped : l'.stopped = l.stopped

theorem Accounts.refl (l : Loop H T) : Accounts 0 l l := ⟨fun _ => rfl, rfl⟩

theorem Accounts.trans (hab : Accounts owed a b)
    (hbc : Accounts owed' b c) : Accounts (owed + owed') a c where
  count channel := by
    rw [hbc.count, hab.count, Nat.add_assoc]
    rfl
  stopped := hbc.stopped.trans hab.stopped

def owes (r : ResyncRequest) (channel : Nat) : Nat := if r.channel = channel then 1 else 0

variable {l l' : Loop H T}

theorem Unreplied.accounts (h : Unreplied l l') : Accounts 0 l l' where
  count channel := by
    unfold accounted
    rw [h.heals, h.replies]
    rfl
  stopped := h.stopped

theorem Accounts.unreplied (h : Accounts owed l₀ l)
    (hsame : Unreplied l l') : Accounts owed l₀ l' := h.trans hsame.accounts

theorem unreplied_of_notes (hheal : l'.deferredHeals = l.deferredHeals) (hstop : l'.stopped = l.stopped)
    (htrace : l'.w.trace = notes ++ l.w.trace)
    (hnot : ∀ note ∈ notes, ∀ channel, note.repliesTo channel = false) : Unreplied l l' := by
  refine ⟨hheal, hstop, fun channel => ?_⟩
  unfold Git.replies
  rw [htrace, List.countP_append, List.countP_eq_zero.mpr (fun note hnote => by
    rw [hnot note hnote channel]
    simp), Nat.zero_add]

theorem unreplied_of_trace (hheal : l'.deferredHeals = l.deferredHeals)
    (hstop : l'.stopped = l.stopped) (htrace : l'.w.trace = l.w.trace) : Unreplied l l' :=
  unreplied_of_notes hheal hstop (show l'.w.trace = [] ++ l.w.trace from htrace) (by simp)

/-! ## 3. Steps that answer nobody -/

theorem unreplied_resolve (id : CommitRequestId) (result : FinalizeResult H)
    (carried : Option (PendingWrite H × Nat)) (l : Loop H T) :
    Unreplied l (resolveCommitRequest env cfg id result carried l) := by
  have htrace : (resolveCommitRequest env cfg id result carried l).w.trace =
      (expiredNotes id (env l.w.tick).now l.crOutcomes ++
        [Note.resolved id result carried ((l.w.contact env).remote.refs cfg.branch)]) ++ l.w.trace := rfl
  refine unreplied_of_notes rfl rfl htrace ?_
  intro note hnote channel
  rcases List.mem_append.mp hnote with hnote | hnote
  · obtain ⟨entry, -, rfl⟩ := List.mem_map.mp hnote
    rfl
  · rw [List.mem_singleton.mp hnote]
    rfl

theorem unreplied_drop (cr : Option CommitRequestId) (cause : String) (l : Loop H T) :
    Unreplied l (dropOpenWindow env cfg cr cause l) := by
  have hclose : Unreplied l { l with openWindow := none, windowBytes := 0 } :=
    unreplied_of_trace rfl rfl rfl
  cases cr with
  | none => exact hclose
  | some id => exact hclose.trans (unreplied_resolve env cfg id _ _ _)

theorem unreplied_of_onlyTick (l : Loop H T) (h : OnlyTick l.w w) : Unreplied l { l with w := w } :=
  unreplied_of_trace rfl rfl h.trace

theorem unreplied_attach (l : Loop H T) : Unreplied l (attachWaitingCommitRequests env l) := by
  unfold attachWaitingCommitRequests
  split
  · exact Unreplied.refl l
  · split
    · exact Unreplied.refl l
    · simp only
      split <;> exact unreplied_of_trace rfl rfl rfl

theorem unreplied_resolvePushed (writes : List (PendingWrite H)) (l : Loop H T) :
    Unreplied l (resolvePushedCommitRequests env cfg writes l) := by
  induction writes generalizing l with
  | nil => exact Unreplied.refl l
  | cons pw rest ih =>
    rw [resolvePushedCommitRequests]
    split
    · exact (unreplied_resolve env cfg _ _ _ l).trans (ih _)
    · exact ih l

theorem accounts_replyTo (r : ResyncRequest) (failed : Bool) (l : Loop H T) :
    Accounts (owes r) l (replyTo r failed l) where
  count channel := by
    unfold accounted replies replyTo Worker.log owes
    rw [List.countP_cons]
    simp only [Note.repliesTo, decide_eq_true_eq]
    omega
  stopped := rfl

section Handling

variable [DecidableEq H] [EmptyCollection T]

theorem unreplied_settle (id : CommitRequestId) (planned pw : PendingWrite H) (appliedTick : Nat)
    (l : Loop H T) : Unreplied l (settleCommitRequest env cfg id planned pw appliedTick l) := by
  unfold settleCommitRequest
  split
  · refine Unreplied.trans ?_ (unreplied_resolve env cfg id _ _ _)
    split
    · exact unreplied_of_notes rfl rfl (List.singleton_append (x := Note.doubtfulComparison id)).symm
        (by simp [Note.repliesTo])
    · exact unreplied_of_trace rfl rfl rfl
  · exact unreplied_of_trace rfl rfl rfl

theorem unreplied_finalize (l : Loop H T) : Unreplied l (finalizeOpenWindow env cfg l).1 := by
  have hclose : Closing env cfg l (finalizeOpenWindow env cfg l) :=
    finalizeOpenWindow_closing env cfg "" l
  generalize finalizeOpenWindow env cfg l = closed at hclose
  cases hclose with
  | idle => exact Unreplied.refl l
  | dropped window cause w₂ w hopen htick hcommit =>
    have htrace : w.trace = l.w.trace := by
      rcases hcommit with rfl | ⟨pw, applied, result, hcommit⟩
      · exact htick.trace
      · exact (commit_trace env cfg hcommit).trans htick.trace
    refine Unreplied.trans ?_ (unreplied_drop env cfg _ _ _)
    exact unreplied_of_trace rfl rfl htrace
  | retained window pw committed w₂ w count hopen hfree hreq htick hcommit =>
    exact unreplied_of_trace rfl rfl ((commit_trace env cfg hcommit).trans htick.trace)
  | settled window id pw committed w₂ w count hopen hclaim hkind hreq htick hcommit =>
    refine Unreplied.trans ?_ (unreplied_settle env cfg _ _ _ _ _)
    exact unreplied_of_trace rfl rfl ((commit_trace env cfg hcommit).trans htick.trace)

theorem unreplied_commitAndRetain (pw : PendingWrite H) (keepNoOp : Bool) (l : Loop H T) :
    Unreplied l (commitAndRetain env cfg pw keepNoOp l).1 := by
  unfold commitAndRetain
  split
  · rename_i w applied count hcommitted
    have hcommit := commit_trace env cfg hcommitted
    simp only
    split
    · exact unreplied_of_trace rfl rfl hcommit
    · exact unreplied_of_trace rfl rfl hcommit
  · rename_i w applied result _ hcommitted
    have hcommit := commit_trace env cfg hcommitted
    exact unreplied_of_trace rfl rfl hcommit

theorem unreplied_pushPending (l : Loop H T) : Unreplied l (pushPending env cfg l) := by
  unfold pushPending
  split
  · exact unreplied_of_trace rfl rfl rfl
  · rename_i hne
    -- a replay notes what happened to the writes
    have hpushed : ∀ w writes ok, pushPendingCommits env cfg.branch l.pendingWrites l.w =
        (w, writes, ok) → Unreplied l { l with w := w, pendingWrites := writes } := by
      intro w writes ok hpush
      obtain ⟨notes, hnot, hreport⟩ := (pushPendingCommits_spec env cfg.branch hne hpush).1.onto
      refine unreplied_of_notes rfl rfl hnot (fun note hnote channel => ?_)
      rcases hreport note hnote with rfl | ⟨id, rfl⟩ <;> rfl
    split
    · rename_i w writes hpush
      exact (hpushed w writes false hpush).trans (unreplied_of_trace rfl rfl rfl)
    · rename_i w writes hpush
      refine ((hpushed w writes true hpush).trans (unreplied_resolvePushed env cfg writes _)).trans ?_
      exact unreplied_of_notes rfl rfl (List.singleton_append (x := Note.cleared writes _)).symm
        (by simp [Note.repliesTo])

theorem unreplied_maybeSchedulePush (l : Loop H T) : Unreplied l (maybeSchedulePush env cfg l) := by
  have hnext : Unreplied l l.next := unreplied_of_trace rfl rfl rfl
  unfold maybeSchedulePush
  split
  · exact Unreplied.refl l
  · split
    · exact unreplied_pushPending env cfg l
    · simp only
      split
      · exact hnext.trans (unreplied_pushPending env cfg l.next)
      · split
        · exact unreplied_of_trace rfl rfl rfl
        · exact hnext

/-! ## 4. Answers -/

variable (r : ResyncRequest)

/-- A property that holds on as long as nobody is answered is kept by the writes. -/
theorem keptByWrites_of_unreplied
    (h : ∀ {l l' : Loop H T}, Unreplied l l' → P l → P l') : KeptByWrites env cfg P where
  tick l _ hw := h (unreplied_of_onlyTick l hw)
  retain l pw keepNoOp _ _ := h (unreplied_commitAndRetain env cfg pw keepNoOp l)
  push l := h (unreplied_maybeSchedulePush env cfg l)

theorem applyResync_answers (l : Loop H T) :
    ∃ l' failed, Unreplied l l' ∧ applyResync env cfg r l = replyTo r failed l' := by
  -- a heal leaves the window open, any other resync closes it first
  have hclose : Unreplied l (if r.heal then (l, false) else finalizeOpenWindow env cfg l).1 := by
    split
    · exact Unreplied.refl l
    · exact unreplied_finalize env cfg l
  have hkept : KeptByWrites env cfg (Unreplied l) :=
    keptByWrites_of_unreplied env cfg (fun hsame hl => hl.trans hsame)
  exact hkept.applyResync r hclose

theorem accounts_applyResync (l : Loop H T) : Accounts (owes r) l (applyResync env cfg r l) := by
  obtain ⟨l', failed, hsame, heq⟩ := applyResync_answers env cfg r l
  rw [heq, ← zero_add (owes r)]
  exact hsame.accounts.trans (accounts_replyTo r failed l')

theorem deferredHeals_applyResync (l : Loop H T) :
    (applyResync env cfg r l).deferredHeals = l.deferredHeals := by
  obtain ⟨l', failed, hsame, heq⟩ := applyResync_answers env cfg r l
  rw [heq]
  exact hsame.heals

theorem accounts_foldl_applyResync (heals : List ResyncRequest) (l : Loop H T) :
    Accounts (fun channel => parked channel heals) l
        (heals.foldl (fun s r => applyResync env cfg r s) l) ∧
      (heals.foldl (fun s r => applyResync env cfg r s) l).deferredHeals = l.deferredHeals := by
  induction heals generalizing l with
  | nil => exact ⟨Accounts.refl l, rfl⟩
  | cons r heals ih =>
    obtain ⟨hcount, hheal⟩ := ih (applyResync env cfg r l)
    have hcons : (fun channel => parked channel (r :: heals)) =
        owes r + (fun channel => parked channel heals) := by
      funext channel
      simp only [parked, List.countP_cons, decide_eq_true_eq, Pi.add_apply, owes]
      omega
    rw [List.foldl_cons, hcons]
    exact ⟨(accounts_applyResync env cfg r l).trans hcount,
      hheal.trans (deferredHeals_applyResync env cfg r l)⟩

theorem accounts_applyDeferredHeals (l : Loop H T) : Accounts 0 l (applyDeferredHeals env cfg l) := by
  unfold applyDeferredHeals
  split
  · exact Accounts.refl l
  · obtain ⟨hcount, -⟩ := accounts_foldl_applyResync env cfg l.deferredHeals { l with deferredHeals := [] }
    exact ⟨fun channel => hcount.count channel, hcount.stopped⟩

theorem parked_replaceHeal {r old : ResyncRequest}
    (h : replaceHeal r heals = some (heals', old)) (channel : Nat) :
    parked channel heals' + owes old channel = parked channel heals + owes r channel := by
  induction heals generalizing heals' with
  | nil => simp [replaceHeal] at h
  | cons first rest ih =>
    rw [replaceHeal] at h
    split at h
    · obtain ⟨rfl, rfl⟩ := Prod.mk.inj (Option.some.inj h)
      simp only [parked, List.countP_cons, decide_eq_true_eq, owes]
      omega
    · obtain ⟨⟨rest', found⟩, hrest, heq⟩ := Option.map_eq_some_iff.mp h
      obtain ⟨rfl, rfl⟩ := Prod.mk.inj heq
      have hcount := ih hrest
      simp only [parked, List.countP_cons] at hcount ⊢
      omega

theorem accounts_handleResyncRequest (l : Loop H T) :
    Accounts (owes r) l (handleResyncRequest env cfg r l) := by
  unfold handleResyncRequest
  split
  · unfold stashDeferredHeal
    split
    · -- the older heal is answered, the newer one waits
      rename_i heals old hreplies
      refine ⟨fun channel => ?_, rfl⟩
      rw [(accounts_replyTo old false { l with deferredHeals := heals }).count channel]
      have hcount := parked_replaceHeal hreplies channel
      show replies channel l + parked channel heals + _ = replies channel l + _ + _
      omega
    · refine ⟨fun channel => ?_, rfl⟩
      show replies channel l + parked channel (l.deferredHeals ++ [r]) =
        replies channel l + parked channel l.deferredHeals + owes r channel
      simp only [parked, List.countP_append, List.countP_singleton, decide_eq_true_eq, owes]
      omega
  · exact accounts_applyResync env cfg r l

/-! ## 5. The loop -/

theorem keptByService_accounts (owed : Nat → Nat) (l : Loop H T) :
    KeptByService env cfg (Accounts owed l) where
  next _ hl := hl.unreplied (unreplied_of_trace rfl rfl rfl)
  timers _ _ _ hl := hl.unreplied (unreplied_of_trace rfl rfl rfl)
  attach l' hl := hl.unreplied (unreplied_attach env l')
  reject l' id _ _ hl := hl.unreplied (unreplied_resolve env cfg id _ _ l')
  close _ hl := (hl.unreplied (unreplied_finalize env cfg _)).unreplied
    (unreplied_maybeSchedulePush env cfg _)
  heals l' hl := hl.trans (accounts_applyDeferredHeals env cfg l')

theorem accounts_handleAtomicRequest (r : WriteRequest) (l : Loop H T) :
    Accounts 0 l (handleAtomicRequest env cfg r l) := by
  have hkept : KeptByWrites env cfg (Accounts 0 l) :=
    keptByWrites_of_unreplied env cfg (fun hsame hl => hl.unreplied hsame)
  exact hkept.handleAtomicRequest r
    ((unreplied_finalize env cfg l).accounts.trans (accounts_applyDeferredHeals env cfg _))

/-- One item: a resync adds its own channel, the others add none. -/
theorem accounts_handleQueueItem (item : WorkItem) (l : Loop H T) :
    Accounts (fun channel => queued channel [item]) l (handleQueueItem env cfg item l) := by
  unfold handleQueueItem
  split
  · rename_i r
    obtain ⟨-, -, notes, hnot, hnew⟩ := handleAttachCommitRequest_frame env r l
    have hkept : (handleAttachCommitRequest env r l).deferredHeals = l.deferredHeals ∧
        (handleAttachCommitRequest env r l).stopped = l.stopped := by
      unfold handleAttachCommitRequest
      split
      · exact ⟨rfl, rfl⟩
      · split <;> exact ⟨rfl, rfl⟩
    refine (unreplied_of_notes hkept.1 hkept.2 hnot (fun note hnote c => ?_)).accounts
    rcases hnew note hnote with rfl | rfl <;> rfl
  · rename_i r
    have howed : (fun channel => queued channel [.resync r]) = owes r := by
      funext channel
      simp [queued, WorkItem.waitsOn, owes]
    rw [howed]
    exact accounts_handleResyncRequest env cfg r l
  · rename_i r
    show Accounts 0 l _
    split
    · split
      · exact Unreplied.accounts (unreplied_of_trace rfl rfl rfl)
      · have hnext : Unreplied l l.next := unreplied_of_trace rfl rfl rfl
        exact hnext.accounts.trans (accounts_handleAtomicRequest env cfg r l.next)
    · exact List.foldlRecOn r.events _ (Accounts.refl l) (fun _ hl e _ =>
        (keptByService_accounts env cfg 0 l).handleEvent
          (fun _ hl' => hl'.unreplied (unreplied_of_trace rfl rfl rfl)) hl)

/-- What a shutdown leaves: everyone it knows of is answered. -/
theorem handleShutdown_accounted (l : Loop H T) :
    (∀ channel, accounted channel (handleShutdown env cfg l) = accounted channel l) ∧
      (handleShutdown env cfg l).deferredHeals = [] := by
  have hopen : (finalizeOpenWindow env cfg l).1.openWindow = none :=
    finalizeOpenWindow_openWindow env cfg "" l
  have hdrain := (unreplied_finalize env cfg l).accounts.trans
    (accounts_applyDeferredHeals env cfg (finalizeOpenWindow env cfg l).1)
  have hheal : (applyDeferredHeals env cfg (finalizeOpenWindow env cfg l).1).deferredHeals = [] := by
    unfold applyDeferredHeals
    rw [if_neg (not_not.mpr hopen)]
    exact (accounts_foldl_applyResync env cfg _ _).2
  unfold handleShutdown
  simp only
  generalize applyDeferredHeals env cfg (finalizeOpenWindow env cfg l).1 = drained at hdrain hheal
  split
  · have hpush := unreplied_pushPending env cfg drained
    exact ⟨fun channel => (hdrain.trans hpush.accounts).count channel, hpush.heals.trans hheal⟩
  · exact ⟨fun channel => hdrain.count channel, hheal⟩

theorem accounts_turn (l : Loop H T) (hrun : l.stopped = false) :
    (∀ item, Accounts (fun channel => queued channel [item]) l (turn env cfg l (.item item))) ∧
      ∀ timer : Timer, Accounts 0 l (turn env cfg l timer.wake) := by
  unfold turn
  rw [hrun]
  refine ⟨fun item => (keptByService_accounts env cfg _ l).afterWake
    (accounts_handleQueueItem env cfg item l), fun timer => ?_⟩
  rw [Bool.false_or]
  split
  · exact Accounts.refl l
  · apply (keptByService_accounts env cfg 0 l).afterWake
    cases timer with
    | commit =>
      have hfirst : Unreplied l { l.next with commitTimer := none } := unreplied_of_trace rfl rfl rfl
      exact ((hfirst.trans (unreplied_finalize env cfg _)).trans
        (unreplied_maybeSchedulePush env cfg _)).accounts
    | push =>
      have hfirst : Unreplied l { l.next with pushTimer := none } := unreplied_of_trace rfl rfl rfl
      exact (hfirst.trans (unreplied_pushPending env cfg _)).accounts
    | attach => exact Unreplied.accounts (unreplied_of_trace rfl rfl rfl)

theorem turn_of_stopped (h : l.stopped = true) (wake : Wake) : turn env cfg l wake = l := by
  unfold turn
  rw [h]
  rfl

end Handling

/-! ## 6. Runs -/

/-- Every channel made so far is replied to, queued or parked exactly once. -/
structure OneReply (s : Served H T) : Prop where
  once : ∀ channel, accounted channel s.loop + queued channel s.queue =
    if channel < s.issued then 1 else 0
  accepted : ∀ channel ∈ s.accepted, channel < s.issued
  drained : s.loop.stopped = true → s.loop.deferredHeals = [] ∧ ∀ item ∈ s.queue, item.isResync = false

theorem queued_append (channel : Nat) (queue items : List WorkItem) :
    queued channel (queue ++ items) = queued channel queue + queued channel items :=
  List.countP_append

theorem queued_eq_zero (h : ∀ item ∈ queue, item.isResync = false)
    (channel : Nat) : queued channel queue = 0 := by
  apply List.countP_eq_zero.mpr
  intro item hitem
  have hkind := h item hitem
  cases item with
  | resync r => simp [WorkItem.isResync] at hkind
  | attach r | write r => simp [WorkItem.waitsOn]

theorem oneReply_enqueueResync (r : ResyncRequest) (s : Served H T) (hok : s.loop.stopped = false)
    (h : OneReply s) : OneReply (enqueueResync r s) := by
  have hissue : ∀ channel, (if channel < s.issued + 1 then 1 else 0) =
      (if channel < s.issued then 1 else 0) + (if s.issued = channel then 1 else 0) := by
    intro channel
    split <;> split <;> split <;> omega
  unfold enqueueResync
  simp only
  split
  · refine ⟨fun channel => ?_, ?_, fun hstop => absurd hstop (by simp [hok])⟩
    · rw [queued_append, hissue, ← h.once channel]
      simp only [queued, List.countP_singleton, WorkItem.waitsOn, decide_eq_true_eq]
      omega
    · intro channel hchannel
      rcases List.mem_append.mp hchannel with hchannel | hchannel
      · exact Nat.lt_succ_of_lt (h.accepted channel hchannel)
      · rw [List.mem_singleton.mp hchannel]
        exact Nat.lt_succ_self _
  · -- the queue is full: answered at once
    refine ⟨fun channel => ?_, fun channel hchannel => Nat.lt_succ_of_lt (h.accepted channel hchannel),
      fun hstop => absurd hstop (by simp [replyTo, hok])⟩
    rw [(accounts_replyTo _ true s.loop).count, hissue, ← h.once channel]
    simp only [owes]
    omega

theorem oneReply_enqueueItem (item : WorkItem) (hitem : item.isResync = false) (s : Served H T)
    (h : OneReply s) : OneReply (enqueueItem item s) := by
  unfold enqueueItem
  split
  · refine ⟨fun channel => ?_, h.accepted, fun hstop => ⟨(h.drained hstop).1, ?_⟩⟩
    · have hsingle : ∀ other ∈ [item], other.isResync = false := by simpa using hitem
      rw [queued_append, queued_eq_zero hsingle channel]
      exact h.once channel
    · intro other hother
      rcases List.mem_append.mp hother with hother | hother
      · exact (h.drained hstop).2 other hother
      · rw [List.mem_singleton.mp hother]
        exact hitem
  · exact h

variable [DecidableEq H] [EmptyCollection T] (s : Served H T)

theorem oneReply_receive (h : OneReply s) : OneReply (serve env cfg s .receive) := by
  simp only [serve]
  split
  · exact h
  · rename_i hstopped
    have hrun : s.loop.stopped = false := by simpa using hstopped
    split
    · exact h
    · rename_i item rest hqueue
      have hturn := (accounts_turn env cfg s.loop hrun).1 item
      refine ⟨fun channel => ?_, h.accepted, fun hstop => ?_⟩
      · have hsplit : queued channel s.queue = queued channel [item] + queued channel rest := by
          rw [hqueue]
          exact queued_append channel [item] rest
        rw [hturn.count, ← h.once channel, hsplit]
        simp only
        omega
      · rw [hturn.stopped, hrun] at hstop
        simp at hstop

theorem oneReply_fire (timer : Timer) (s : Served H T) (h : OneReply s) :
    OneReply (serve env cfg s (.fire timer)) := by
  cases hstopped : s.loop.stopped with
  | true =>
    simp only [serve, turn_of_stopped env cfg hstopped]
    exact h
  | false =>
    have hturn := (accounts_turn env cfg s.loop hstopped).2 timer
    refine ⟨fun channel => ?_, h.accepted, fun hstop => ?_⟩
    · show accounted channel (turn env cfg s.loop timer.wake) + queued channel s.queue = _
      rw [hturn.count]
      exact h.once channel
    · rw [show (serve env cfg s (.fire timer)).loop.stopped = false from hturn.stopped.trans hstopped]
        at hstop
      simp at hstop

theorem oneReply_stop (hok : s.queue.all (fun item => !item.isResync) = true)
    (h : OneReply s) : OneReply (serve env cfg s .stop) := by
  simp only [serve]
  split
  · exact h
  · rename_i hstop
    obtain ⟨hcount, hhead⟩ := handleShutdown_accounted env cfg s.loop
    have hturn : turn env cfg s.loop .shutdown = handleShutdown env cfg s.loop := by
      unfold turn
      simp only [hstop, wakeReady, Bool.not_true, Bool.or_false]
      rfl
    have hempty : ∀ item ∈ s.queue, item.isResync = false := by simpa using hok
    refine ⟨fun channel => ?_, h.accepted, fun _ => ⟨?_, by simp⟩⟩
    · simp only [hturn, hcount]
      rw [← h.once channel, queued_eq_zero hempty channel]
      rfl
    · simp only [hturn]
      exact hhead

theorem oneReply_step (input : QueueInput) (hok : StopFindsNoResync s input)
    (h : OneReply s) : OneReply (serve env cfg s input) := by
  cases input with
  | enqueueResync r => exact oneReply_enqueueResync r s hok h
  | enqueueWrite r => exact oneReply_enqueueItem (.write r) rfl s h
  | enqueueAttach r => exact oneReply_enqueueItem (.attach r) rfl s h
  | receive => exact oneReply_receive env cfg s h
  | fire timer => exact oneReply_fire env cfg timer s h
  | stop => exact oneReply_stop env cfg s hok h

/-- Resync replies: in a run in which the stop finds no resync in the queue and none is enqueued
    after it, an accepted resync is at every moment either answered once, or not yet answered and in
    one place of the worker; once the worker has stopped it has been answered exactly once. -/
theorem run_answers_resyncs_once (repo : Repo H T) (remote : Remote H) (inputs : List QueueInput)
    (hinputs : AllSteps (serve env cfg) StopFindsNoResync (initialServed repo remote) inputs) :
    let s := inputs.foldl (serve env cfg) (initialServed repo remote)
    ∀ channel ∈ s.accepted,
      replies channel s.loop + (parked channel s.loop.deferredHeals + queued channel s.queue) = 1 ∧
        (s.loop.stopped = true → replies channel s.loop = 1) := by
  intro s channel hchannel
  have hstep : ∀ (s : Served H T) (input : QueueInput), StopFindsNoResync s input → OneReply s →
      OneReply (serve env cfg s input) := oneReply_step env cfg
  have h : OneReply s := hinputs.invariant hstep ⟨fun _ => rfl, by simp [initialServed],
    by simp [initialServed, initialLoop]⟩
  have honce := h.once channel
  rw [if_pos (h.accepted channel hchannel), accounted, Nat.add_assoc] at honce
  refine ⟨honce, fun hstopped => ?_⟩
  obtain ⟨hheals, hqueue⟩ := h.drained hstopped
  rw [hheals, queued_eq_zero hqueue channel] at honce
  exact honce

def sampleHeal (revision : String) (heal : Bool) : ResyncRequest :=
  ⟨[], revision, ⟨"target", "default"⟩, none, heal, 0⟩

def Served.answers (s : Served (Chain (List Nat)) (List Nat)) : Bool × List (Nat × Nat) :=
  (s.loop.stopped, s.accepted.map (fun channel => (channel, replies channel s.loop)))

-- The second request is still queued when the worker is told to stop.
theorem queued_resync_never_answered :
    ([QueueInput.enqueueResync (sampleHeal "8" false), .receive, .enqueueResync (sampleHeal "9" false),
      .stop].foldl (serve (fun _ => sampleWorld) slowConfig)
        (initialServed freshClone mainOnly)).answers = (true, [(0, 1), (1, 0)]) := by
  decide

def parkedInputs : List QueueInput :=
  [.enqueueWrite ⟨[sampleEvent "set"], "", ⟨"", ""⟩, false⟩, .receive,
    .enqueueResync (sampleHeal "8" true), .receive, .enqueueResync (sampleHeal "9" true), .receive,
    .stop]

theorem parked_resyncs_answered_once :
    let s := parkedInputs.foldl (serve (fun _ => sampleWorld) slowConfig)
      (initialServed freshClone mainOnly)
    s.accepted = [0, 1] ∧ ∀ channel ∈ s.accepted, replies channel s.loop = 1 := by
  refine ⟨by decide, fun channel hchannel => ?_⟩
  exact (run_answers_resyncs_once (fun _ => sampleWorld) slowConfig freshClone mainOnly parkedInputs
    (by decide) channel hchannel).2 (by decide)

end GitopsReverser.Git
