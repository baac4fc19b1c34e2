import GitopsReverser.Git.EventLoop
import GitopsReverser.Git.WorkerSpec

/-!
# LoopSteps — the event loop as a sequence of atomic steps

Every function of the event loop is a sequence of the steps of `LoopStep`, each of which either
leaves the published state alone or is one commit, one push or one piece of CommitRequest
bookkeeping. An invariant of the loop is checked on these steps once.
-/

namespace GitopsReverser.Git

open Reasoning Relation

variable {H T : Type} {S : ObjectStore H T} (env : Nat → World S) (cfg : LoopConfig)

/-! ## 1. Quiet steps -/

def Loop.claimed (l : Loop H T) : Option CommitRequestId := l.openWindow.bind (·.pendingCR)

/-- A step that touches neither Git nor any CommitRequest. -/
structure Quiet (l l' : Loop H T) : Prop where
  repo : l'.w.repo = l.w.repo
  remote : l'.w.remote = l.w.remote
  pendingWrites : l'.pendingWrites = l.pendingWrites
  pendingCRs : l'.pendingCRs = l.pendingCRs
  crOutcomes : l'.crOutcomes = l.crOutcomes
  claimed : l'.claimed = l.claimed
  history : l'.w.history = l.w.history
  tick : l.w.tick ≤ l'.w.tick
  trace : ∃ notes, l'.w.trace = notes ++ l.w.trace ∧
    ∀ note ∈ notes, ∃ channel failed, note = .replied channel failed

theorem quiet_of_onlyTick (l l' : Loop H T) (hw : OnlyTick l.w l'.w)
    (hwrite : l'.pendingWrites = l.pendingWrites) (hcrs : l'.pendingCRs = l.pendingCRs)
    (hout : l'.crOutcomes = l.crOutcomes) (hclaim : l'.claimed = l.claimed) :
    Quiet l l' := by
  obtain ⟨hw, htick⟩ := hw
  exact ⟨by rw [hw], by rw [hw], hwrite, hcrs, hout, hclaim, by rw [hw], htick, [],
    by rw [hw]; rfl, by simp⟩

theorem resolveTargets_onlyTick (events : List Event)
    (targets : List (TargetKey × ResolvedTargetMetadata)) (w : Worker H T) :
    OnlyTick w (resolveTargets env events targets w).1 := by
  induction events generalizing targets w with
  | nil => exact onlyTick_refl w
  | cons e events ih =>
    rw [resolveTargets]
    split
    · exact ih targets w
    · split
      · exact ih targets w
      · split
        · exact (onlyTick_next _).trans (ih _ w.next)
        · exact onlyTick_next w

theorem buildGroupedPendingWrite_spec (events : List Event) (w : Worker H T) :
    OnlyTick w (buildGroupedPendingWrite env events w).1 ∧
      ∀ pw, (buildGroupedPendingWrite env events w).2 = some pw → pw.kind = .commit := by
  unfold buildGroupedPendingWrite
  split
  · exact ⟨onlyTick_next w, by simp⟩
  · have h := resolveTargets_onlyTick env events [] w.next
    split
    · rename_i w₁ hres
      rw [hres] at h
      exact ⟨(onlyTick_next _).trans h, by simp⟩
    · rename_i w₁ targets hres
      rw [hres] at h
      refine ⟨(onlyTick_next _).trans h, ?_⟩
      intro pw hpw
      rw [← Option.some.inj hpw]

theorem buildAtomicPendingWrite_spec (r : WriteRequest) (w : Worker H T) :
    OnlyTick w (buildAtomicPendingWrite env r w).1 ∧
      ∀ pw, (buildAtomicPendingWrite env r w).2 = some pw →
        pw.commitRequest = none ∧ pw.commitSHA = none := by
  have htwo := (onlyTick_next w).trans (onlyTick_next w.next)
  unfold buildAtomicPendingWrite
  split
  · exact ⟨onlyTick_next w, by simp⟩
  · split
    · split
      · refine ⟨htwo, fun pw hpw => ?_⟩
        rw [← Option.some.inj hpw]
        exact ⟨rfl, rfl⟩
      · exact ⟨htwo, by simp⟩
    · refine ⟨onlyTick_next w, fun pw hpw => ?_⟩
      rw [← Option.some.inj hpw]
      exact ⟨rfl, rfl⟩

variable (r : ResyncRequest)

theorem buildResyncPendingWrite_spec (w : Worker H T) : OnlyTick w (buildResyncPendingWrite env r w).1 ∧
      ∀ pw, (buildResyncPendingWrite env r w).2 = some pw →
        pw.commitRequest = none ∧ pw.commitSHA = none := by
  have htwo := (onlyTick_next w).trans (onlyTick_next w.next)
  unfold buildResyncPendingWrite
  split
  · exact ⟨onlyTick_next w, by simp⟩
  · split
    · refine ⟨htwo, fun pw hpw => ?_⟩
      rw [← Option.some.inj hpw]
      exact ⟨rfl, rfl⟩
    · exact ⟨htwo, by simp⟩

theorem handleAttachCommitRequest_frame (req : AttachCommitRequest) (l : Loop H T) :
    (handleAttachCommitRequest env req l).w.repo = l.w.repo ∧
      (handleAttachCommitRequest env req l).pendingWrites = l.pendingWrites ∧
      ∃ notes, (handleAttachCommitRequest env req l).w.trace = notes ++ l.w.trace ∧
        ∀ note ∈ notes, note = .registered req.id ∨ note = .reattached req.id := by
  unfold handleAttachCommitRequest
  split
  · exact ⟨rfl, rfl, [], rfl, by simp⟩
  · split
    · exact ⟨rfl, rfl, [], rfl, by simp⟩
    · simp only
      split
      · exact ⟨rfl, trivial, [.reattached req.id, .registered req.id], rfl, by simp⟩
      · exact ⟨rfl, trivial, [.registered req.id], rfl, by simp⟩

theorem appendToWindow_quiet (e : Event) (l : Loop H T) : Quiet l (appendToWindow e l) := by
  refine quiet_of_onlyTick l _ (onlyTick_refl _) rfl rfl rfl ?_
  cases hopen : l.openWindow with
  | none | some window => simp [Loop.claimed, appendToWindow, hopen]

/-! ## 2. The steps -/

variable [DecidableEq H] [EmptyCollection T]

inductive LoopStep : Loop H T → Loop H T → Prop where
  | quiet {l l' : Loop H T} (h : Quiet l l') : LoopStep l l'
  | register (l : Loop H T) (req : AttachCommitRequest) :
      LoopStep l (handleAttachCommitRequest env req l)
  -- the oldest waiting request claims the open window
  | claim (l : Loop H T) (window : OpenWindow) (p : PendingCommitRequest)
      (hopen : l.openWindow = some window) (hfree : window.pendingCR = none)
      (hp : p ∈ l.pendingCRs) :
      LoopStep l { l with
        openWindow := some { window with pendingMessage := p.message, pendingCR := some p.id }
        pendingCRs := markAttached p.id l.pendingCRs }
  -- the window is discarded, and a request that claims it fails
  | drop (l : Loop H T) (window : OpenWindow) (cause : String) (hopen : l.openWindow = some window) :
      LoopStep l (dropOpenWindow env cfg window.pendingCR cause l)
  -- a due request without a window
  | reject (l : Loop H T) (id : CommitRequestId) (hclaim : l.claimed ≠ some id)
      (hmem : ∃ p ∈ l.pendingCRs, p.id = id) :
      LoopStep l (resolveCommitRequest env cfg id ⟨some .noOpenWindow, none, cfg.branch, none⟩ none l)
  -- a commit that is not retained: it failed, or changed nothing
  | attempt (l : Loop H T) (pw : PendingWrite H) (w' : Worker H T)
      (applied : List (PendingWrite H)) (count : Option Nat)
      (h : commitPendingWrites env cfg.branch [pw] l.hasPending l.w = (w', applied, count)) :
      LoopStep l { l with w := w' }
  -- a commit that carries no request
  | retain (l : Loop H T) (pw applied kept : PendingWrite H) (w' : Worker H T) (count : Nat)
      (h : commitPendingWrites env cfg.branch [pw] l.hasPending l.w = (w', [applied], some count))
      (hat : kept.appliedAt = applied.appliedAt) (hreq : kept.commitRequest = none)
      (hsha : kept.commitSHA = applied.commitSHA ∨ kept.commitSHA = none) :
      LoopStep l { l with w := w', pendingWrites := l.pendingWrites ++ [kept] }
  -- the commit of a claimed window: its request gets an outcome or rides on the retained write
  | settle (l : Loop H T) (window : OpenWindow) (id : CommitRequestId)
      (pw applied : PendingWrite H) (w' : Worker H T) (count : Nat)
      (hopen : l.openWindow = some window) (hclaim : window.pendingCR = some id)
      (hkind : pw.kind = .commit) (hreq : pw.commitRequest = some id)
      (h : commitPendingWrites env cfg.branch [pw] l.hasPending l.w = (w', [applied], some count)) :
      LoopStep l (settleCommitRequest env cfg id pw applied (w'.tick - 1)
        { l with w := w', openWindow := none })
  | push (l : Loop H T) : LoopStep l (pushPending env cfg l)

abbrev Steps (l l' : Loop H T) : Prop := ReflTransGen (LoopStep env cfg) l l'

theorem quiet_steps {l l' : Loop H T} (h : Quiet l l') : Steps env cfg l l' :=
  ReflTransGen.single (.quiet h)

theorem commit_trace {pw : PendingWrite H} {applied : List (PendingWrite H)} {has : Bool}
    {w w' : Worker H T} {result : Option Nat}
    (hcommit : commitPendingWrites env cfg.branch [pw] has w = (w', applied, result)) :
    w'.trace = w.trace :=
  (commitPendingWrites_spec env cfg.branch (by simp) hcommit).1

variable (l : Loop H T)

theorem next_steps : Steps env cfg l l.next :=
  quiet_steps env cfg (quiet_of_onlyTick l l.next (onlyTick_next l.w) rfl rfl rfl rfl)

theorem replyTo_steps (failed : Bool) (l : Loop H T) : Steps env cfg l (replyTo r failed l) :=
  quiet_steps env cfg ⟨rfl, rfl, rfl, rfl, rfl, rfl, rfl, le_refl _, [.replied r.channel failed], rfl,
    fun _ hnote => ⟨r.channel, failed, List.mem_singleton.mp hnote⟩⟩

theorem pushPending_steps : Steps env cfg l (pushPending env cfg l) :=
  ReflTransGen.single (.push l)

theorem maybeSchedulePush_steps : Steps env cfg l (maybeSchedulePush env cfg l) := by
  unfold maybeSchedulePush
  split
  · exact ReflTransGen.refl
  · split
    · exact pushPending_steps env cfg l
    · simp only
      split
      · exact (next_steps env cfg l).trans (pushPending_steps env cfg l.next)
      · split
        · exact quiet_steps env cfg (quiet_of_onlyTick l _ (onlyTick_next l.w) rfl rfl rfl rfl)
        · exact next_steps env cfg l

/-! ## 3. Closing the window -/

/-- What closing the window comes to. -/
inductive Closing (l : Loop H T) : Loop H T × Bool → Prop where
  | idle (hopen : l.openWindow = none) : Closing l (l, false)
  -- the gate is closed, or the write cannot be built or committed
  | dropped (window : OpenWindow) (cause : String) (w₂ w : Worker H T)
      (hopen : l.openWindow = some window) (htick : OnlyTick l.w w₂)
      (hcommit : w = w₂ ∨ ∃ pw applied result,
        commitPendingWrites env cfg.branch [pw] l.hasPending w₂ = (w, applied, result)) :
      Closing l (dropOpenWindow env cfg window.pendingCR cause
        { l with w := w, commitTimer := none }, false)
  | retained (window : OpenWindow) (pw committed : PendingWrite H) (w₂ w : Worker H T)
      (count : Nat) (hopen : l.openWindow = some window) (hfree : window.pendingCR = none)
      (hreq : pw.commitRequest = none) (htick : OnlyTick l.w w₂)
      (hcommit : commitPendingWrites env cfg.branch [pw] l.hasPending w₂ = (w, [committed], some count)) :
      Closing l ({ l with
        w := w, openWindow := none, windowBytes := 0, commitTimer := none
        pendingWrites := l.pendingWrites ++ [committed]
        pendingWritesBytes := l.pendingWritesBytes + committed.byteSize
        pushTried := false }, true)
  | settled (window : OpenWindow) (id : CommitRequestId) (pw committed : PendingWrite H)
      (w₂ w : Worker H T) (count : Nat) (hopen : l.openWindow = some window)
      (hclaim : window.pendingCR = some id) (hkind : pw.kind = .commit)
      (hreq : pw.commitRequest = some id) (htick : OnlyTick l.w w₂)
      (hcommit : commitPendingWrites env cfg.branch [pw] l.hasPending w₂ = (w, [committed], some count)) :
      Closing l (settleCommitRequest env cfg id pw committed (w.tick - 1) { l with
        w := w, openWindow := none, windowBytes := 0, commitTimer := none
        pendingWritesBytes := l.pendingWritesBytes + committed.byteSize }, true)

variable (message : String)

variable (l : Loop H T)

theorem finalizeOpenWindow_closing :
    Closing env cfg l (finalizeOpenWindowWithMessage env cfg message l) := by
  unfold finalizeOpenWindowWithMessage
  split
  · rename_i hopen
    exact .idle hopen
  · rename_i window hopen
    have hnext := onlyTick_next l.w
    obtain ⟨htick, hkind⟩ := buildGroupedPendingWrite_spec env window.orderedEvents l.next.w
    simp only
    split
    · exact .dropped window _ _ _ hopen hnext (Or.inl rfl)
    · split
      · rename_i w₂ hbuilt
        rw [show ({ l.next with commitTimer := none } : Loop H T).w = l.next.w from rfl] at hbuilt
        rw [hbuilt] at htick
        exact .dropped window _ _ _ hopen (hnext.trans htick) (Or.inl rfl)
      · rename_i w₂ built hbuilt
        rw [show ({ l.next with commitTimer := none } : Loop H T).w = l.next.w from rfl] at hbuilt
        rw [hbuilt] at htick hkind
        split
        · rename_i w₃ committed count hcommit
          cases hcr : window.pendingCR with
          | none =>
            rw [hcr] at hcommit
            exact .retained window _ committed w₂ w₃ count hopen hcr rfl (hnext.trans htick) hcommit
          | some id =>
            rw [hcr] at hcommit
            exact .settled window id _ committed w₂ w₃ count hopen hcr (hkind built rfl) rfl
              (hnext.trans htick) hcommit
        · rename_i w₃ applied result _ hcommit
          exact .dropped window _ w₂ w₃ hopen (hnext.trans htick) (Or.inr ⟨_, applied, result, hcommit⟩)

theorem finalizeOpenWindow_openWindow :
    (finalizeOpenWindowWithMessage env cfg message l).1.openWindow = none := by
  have hclose := finalizeOpenWindow_closing env cfg message l
  generalize finalizeOpenWindowWithMessage env cfg message l = closed at hclose
  cases hclose with
  | idle hopen => exact hopen
  | dropped window => cases window.pendingCR <;> rfl
  | retained => rfl
  | settled =>
    unfold settleCommitRequest
    split <;> rfl

theorem finalizeOpenWindow_steps :
    Steps env cfg l (finalizeOpenWindowWithMessage env cfg message l).1 := by
  have hclose := finalizeOpenWindow_closing env cfg message l
  generalize finalizeOpenWindowWithMessage env cfg message l = closed at hclose
  cases hclose with
  | idle => exact ReflTransGen.refl
  | dropped window cause w₂ w hopen htick hcommit =>
    have hquiet := quiet_steps env cfg
      (quiet_of_onlyTick l { l with w := w₂, commitTimer := none } htick rfl rfl rfl rfl)
    rcases hcommit with rfl | ⟨pw, applied, result, hcommit⟩
    · exact hquiet.tail (.drop _ window _ hopen)
    -- the commit failed: what it did to the clone stays, the window goes
    · exact (hquiet.tail (.attempt _ pw w applied result hcommit)).tail (.drop _ window _ hopen)
  | retained window pw committed w₂ w count hopen hfree hreq htick hcommit =>
    have hquiet := quiet_steps env cfg (quiet_of_onlyTick l { l with
      w := w₂, commitTimer := none, windowBytes := 0
      pendingWritesBytes := l.pendingWritesBytes + committed.byteSize } htick rfl rfl rfl rfl)
    have hkept : committed.commitRequest = none := by
      cases (commitPendingWrites_spec env cfg.branch (by simp) hcommit).2.1 with
      | cons h _ => exact h.commitRequest.trans hreq
    refine (hquiet.tail (.retain _ pw committed committed w count hcommit rfl hkept (Or.inl rfl))).trans
      (quiet_steps env cfg (quiet_of_onlyTick _ _ (onlyTick_refl _) rfl rfl rfl ?_))
    simp [Loop.claimed, hopen, hfree]
  | settled window id pw committed w₂ w count hopen hclaim hkind hreq htick hcommit =>
    have hquiet := quiet_steps env cfg (quiet_of_onlyTick l { l with
      w := w₂, commitTimer := none, windowBytes := 0
      pendingWritesBytes := l.pendingWritesBytes + committed.byteSize } htick rfl rfl rfl rfl)
    exact hquiet.tail (.settle _ window id pw committed w count hopen hclaim hkind hreq hcommit)

/-! ## 4. The handlers, for any property of the loop -/

theorem pushPending_openWindow : (pushPending env cfg l).openWindow = l.openWindow := by
  have hres : ∀ (writes : List (PendingWrite H)) (l : Loop H T),
      (resolvePushedCommitRequests env cfg writes l).openWindow = l.openWindow := by
    intro writes
    induction writes with
    | nil => intro l; rfl
    | cons pw rest ih =>
      intro l
      rw [resolvePushedCommitRequests]
      split
      · rw [ih]
        rfl
      · exact ih l
  unfold pushPending
  split
  · rfl
  · split
    · rfl
    · rename_i w writes _
      exact hres writes _

theorem maybeSchedulePush_openWindow : (maybeSchedulePush env cfg l).openWindow = l.openWindow := by
  unfold maybeSchedulePush
  split
  · rfl
  · split
    · exact pushPending_openWindow env cfg l
    · simp only
      split
      · exact pushPending_openWindow env cfg l.next
      · split <;> rfl

section Handlers

variable {env cfg} {P : Loop H T → Prop} {l : Loop H T}

/-- `P` is kept by what a write outside the window is made of. -/
structure KeptByWrites (env : Nat → World S) (cfg : LoopConfig) (P : Loop H T → Prop) : Prop where
  tick : ∀ l w, OnlyTick l.w w → P l → P { l with w := w }
  retain : ∀ l pw keepNoOp, pw.commitRequest = none → pw.commitSHA = none → P l →
    P (commitAndRetain env cfg pw keepNoOp l).1
  push : ∀ l, P l → P (maybeSchedulePush env cfg l)

theorem KeptByWrites.applyResync (h : KeptByWrites env cfg P) (r : ResyncRequest)
    (hclose : P (if r.heal then (l, false) else finalizeOpenWindow env cfg l).1) :
    ∃ l' failed, P l' ∧ applyResync env cfg r l = replyTo r failed l' := by
  unfold Git.applyResync
  simp only
  generalize (if r.heal then (l, false) else finalizeOpenWindow env cfg l) = closing at hclose
  obtain ⟨htick, hbuild⟩ := buildResyncPendingWrite_spec env r closing.1.w
  split
  · rename_i w hbuilt
    rw [hbuilt] at htick
    exact ⟨_, true, h.tick closing.1 w htick hclose, rfl⟩
  · rename_i w pw hbuilt
    rw [hbuilt] at htick hbuild
    obtain ⟨hreq, hsha⟩ := hbuild pw rfl
    have hcommit := h.retain _ pw false hreq hsha (h.tick closing.1 w htick hclose)
    split
    · rename_i l₂ hres
      rw [hres] at hcommit
      exact ⟨l₂, true, hcommit, rfl⟩
    · rename_i l₂ committed hres
      rw [hres] at hcommit
      refine ⟨_, false, ?_, rfl⟩
      split
      · exact h.push l₂ hcommit
      · exact hcommit

theorem KeptByWrites.handleAtomicRequest (h : KeptByWrites env cfg P) (r : WriteRequest)
    (hclose : P (applyDeferredHeals env cfg (finalizeOpenWindow env cfg l).1)) :
    P (handleAtomicRequest env cfg r l) := by
  unfold Git.handleAtomicRequest
  simp only
  generalize applyDeferredHeals env cfg (finalizeOpenWindow env cfg l).1 = l₁ at hclose
  obtain ⟨htick, hbuild⟩ := buildAtomicPendingWrite_spec env r l₁.w
  split
  · rename_i w hbuilt
    rw [hbuilt] at htick
    exact h.tick l₁ w htick hclose
  · rename_i w pw hbuilt
    rw [hbuilt] at htick hbuild
    obtain ⟨hreq, hsha⟩ := hbuild pw rfl
    have hcommit := h.retain _ pw true hreq hsha (h.tick l₁ w htick hclose)
    split
    · rename_i l₂ hres
      rw [hres] at hcommit
      exact hcommit
    · rename_i l₂ _ hres
      rw [hres] at hcommit
      exact h.push l₂ hcommit

/-- `P` is kept by what live events and the CommitRequest service are made of. -/
structure KeptByService (env : Nat → World S) (cfg : LoopConfig) (P : Loop H T → Prop) : Prop where
  next : ∀ l, P l → P l.next
  timers : ∀ l commit attach, P l → P { l with commitTimer := commit, attachTimer := attach }
  attach : ∀ l, P l → P (attachWaitingCommitRequests env l)
  -- a due request that claims no window
  reject : ∀ l id, (∃ p ∈ l.pendingCRs, p.id = id) → l.claimed ≠ some id → P l →
    P (resolveCommitRequest env cfg id ⟨some .noOpenWindow, none, cfg.branch, none⟩ none l)
  close : ∀ l, P l → P (maybeSchedulePush env cfg (finalizeOpenWindow env cfg l).1)
  heals : ∀ l, P l → P (applyDeferredHeals env cfg l)

section

variable (h : KeptByService env cfg P)

include h

theorem KeptByService.handleEvent {e : Event}
    (happend : ∀ l, P l → P (appendToWindow e l)) (hl : P l) : P (handleEvent env cfg e l) := by
  unfold Git.handleEvent
  split
  · exact h.next l hl
  · simp only
    -- an event of another author or target closes the window before it opens its own
    have hbefore : P (if (l.openWindow.all fun window => window.canAppend e) = true then l.next
        else applyDeferredHeals env cfg
          (maybeSchedulePush env cfg (finalizeOpenWindow env cfg l.next).1)) := by
      split
      · exact h.next l hl
      · exact h.heals _ (h.close _ (h.next l hl))
    generalize (if (l.openWindow.all fun window => window.canAppend e) = true then l.next
      else applyDeferredHeals env cfg
        (maybeSchedulePush env cfg (finalizeOpenWindow env cfg l.next).1)) = l₁ at hbefore
    -- the window is full, or its timer is set
    split
    · exact h.close _ (happend l₁ hbefore)
    · exact h.timers _ _ _ (h.next _ (happend l₁ hbefore))

theorem KeptByService.processDue (due : List CommitRequestId)
    (hl : P l) : P (processDue env cfg due l) := by
  induction due generalizing l with
  | nil => exact hl
  | cons id due ih =>
    rw [Git.processDue]
    split
    · exact ih hl
    · rename_i hpend
      split
      · simp only
        have hpush := h.close l hl
        -- the due request claims the window, which is closed for it; it may still be pending
        have hclose : (maybeSchedulePush env cfg (finalizeOpenWindow env cfg l).1).openWindow =
            none := by
          rw [maybeSchedulePush_openWindow]
          exact finalizeOpenWindow_openWindow env cfg "" l
        generalize maybeSchedulePush env cfg (finalizeOpenWindow env cfg l).1 = pushed at hpush hclose
        split
        · rename_i hstill
          refine ih (h.reject pushed id ?_ ?_ hpush)
          · simpa using hstill
          · simp [Loop.claimed, hclose]
        · exact ih hpush
      -- it claims no window
      · rename_i hclaim
        refine ih (h.reject l id ?_ hclaim hl)
        simpa using hpend

theorem KeptByService.service (hl : P l) : P (serviceCommitRequests env cfg l) := by
  unfold serviceCommitRequests
  split
  · exact h.timers l _ _ hl
  · have hdue : P (processDueCommitRequests env cfg (attachWaitingCommitRequests env l)) :=
      h.processDue _ (h.next _ (h.attach l hl))
    exact h.timers _ _ _ hdue

/-- What follows the wake in a turn; a stopped loop serves no requests any more. -/
theorem KeptByService.afterWake (hl : P l) :
    P (if l.stopped then l else applyDeferredHeals env cfg (serviceCommitRequests env cfg l)) := by
  split
  · exact hl
  · exact h.heals _ (h.service hl)

end

end Handlers

/-! ## 5. Resyncs, atomic writes and events -/

theorem commitAndRetain_steps (pw : PendingWrite H) (keepNoOp : Bool) (l : Loop H T)
    (hreq : pw.commitRequest = none) (hsha : pw.commitSHA = none) :
    Steps env cfg l (commitAndRetain env cfg pw keepNoOp l).1 := by
  unfold commitAndRetain
  split
  · rename_i w applied count hcommit
    simp only
    split
    · refine ReflTransGen.tail (ReflTransGen.single (.retain l pw applied
        { pw with appliedAt := applied.appliedAt } w count hcommit rfl hreq (Or.inr hsha))) ?_
      exact .quiet (quiet_of_onlyTick _ _ (onlyTick_refl _) rfl rfl rfl rfl)
    · exact ReflTransGen.single (.attempt l pw w [applied] (some count) hcommit)
  · rename_i w applied result _ hcommit
    exact ReflTransGen.single (.attempt l pw w applied result hcommit)

theorem keptByWrites_steps : KeptByWrites env cfg (Steps env cfg l) where
  tick _ _ hw hl := hl.trans (quiet_steps env cfg (quiet_of_onlyTick _ _ hw rfl rfl rfl rfl))
  retain l' pw keepNoOp hreq hsha hl :=
    hl.trans (commitAndRetain_steps env cfg pw keepNoOp l' hreq hsha)
  push l' hl := hl.trans (maybeSchedulePush_steps env cfg l')

theorem applyResync_steps : Steps env cfg l (applyResync env cfg r l) := by
  -- a heal finds no window open, a replay closes it first
  have hclose : Steps env cfg l (if r.heal then (l, false) else finalizeOpenWindow env cfg l).1 := by
    split
    · exact ReflTransGen.refl
    · exact finalizeOpenWindow_steps env cfg "" l
  obtain ⟨l', failed, hl', heq⟩ := (keptByWrites_steps env cfg l).applyResync r hclose
  rw [heq]
  exact hl'.trans (replyTo_steps env cfg r failed l')

theorem applyDeferredHeals_steps : Steps env cfg l (applyDeferredHeals env cfg l) := by
  unfold applyDeferredHeals
  split
  · exact ReflTransGen.refl
  · refine (quiet_steps env cfg (quiet_of_onlyTick l { l with deferredHeals := [] }
      (onlyTick_refl _) rfl rfl rfl rfl)).trans ?_
    exact List.foldlRecOn l.deferredHeals _ ReflTransGen.refl
      (fun l' hl' r _ => hl'.trans (applyResync_steps env cfg r l'))

theorem handleResyncRequest_steps : Steps env cfg l (handleResyncRequest env cfg r l) := by
  unfold handleResyncRequest
  split
  · unfold stashDeferredHeal
    split
    · rename_i heals old _
      exact (quiet_steps env cfg (quiet_of_onlyTick l { l with deferredHeals := heals }
        (onlyTick_refl _) rfl rfl rfl rfl)).trans (replyTo_steps env cfg old false _)
    · exact quiet_steps env cfg (quiet_of_onlyTick l _ (onlyTick_refl _) rfl rfl rfl rfl)
  · exact applyResync_steps env cfg r l

theorem handleAtomicRequest_steps (r : WriteRequest) (l : Loop H T) :
    Steps env cfg l (handleAtomicRequest env cfg r l) := by
  refine (keptByWrites_steps env cfg l).handleAtomicRequest r ?_
  exact (finalizeOpenWindow_steps env cfg "" l).trans (applyDeferredHeals_steps env cfg _)

theorem oldestWaiting_mem (window : OpenWindow) (crs : List PendingCommitRequest)
    (p : PendingCommitRequest) (h : oldestWaiting window crs = some p) : p ∈ crs := by
  -- from the back: the best of the rest is compared with the first
  induction crs generalizing p with
  | nil => simp [oldestWaiting] at h
  | cons q rest ih =>
    rw [oldestWaiting] at h
    split at h
    · split at h
      · simp at h
      · simp [Option.some.inj h]
    · rename_i best hbest
      have hmem := ih best hbest
      split at h
      · rw [← Option.some.inj h]
        exact List.mem_cons_of_mem q hmem
      · split at h
        · rw [← Option.some.inj h]
          exact List.mem_cons_of_mem q hmem
        · simp [Option.some.inj h]

theorem mem_of_mem_pendingInOrder (ids : List CommitRequestId) (crs : List PendingCommitRequest)
    (p : PendingCommitRequest) (h : p ∈ pendingInOrder ids crs) : p ∈ crs := by
  rw [pendingInOrder, List.mem_filterMap] at h
  obtain ⟨id, -, hfind⟩ := h
  exact List.mem_of_find?_eq_some hfind

theorem attachWaitingCommitRequests_steps : Steps env cfg l (attachWaitingCommitRequests env l) := by
  unfold attachWaitingCommitRequests
  split
  · exact ReflTransGen.refl
  · rename_i window hopen
    split
    · exact ReflTransGen.refl
    · rename_i hfree
      simp only
      split
      · exact next_steps env cfg l
      · rename_i p hold
        have hp : p ∈ l.pendingCRs :=
          mem_of_mem_pendingInOrder _ _ p (oldestWaiting_mem window _ p hold)
        exact (next_steps env cfg l).tail (.claim l.next window p hopen (by simpa using hfree) hp)

theorem keptByService_steps : KeptByService env cfg (Steps env cfg l) where
  next l' hl := hl.trans (next_steps env cfg l')
  timers _ _ _ hl :=
    hl.trans (quiet_steps env cfg (quiet_of_onlyTick _ _ (onlyTick_refl _) rfl rfl rfl rfl))
  attach l' hl := hl.trans (attachWaitingCommitRequests_steps env cfg l')
  reject l' id hpend hclaim hl := hl.tail (.reject l' id hclaim hpend)
  close _ hl := (hl.trans (finalizeOpenWindow_steps env cfg "" _)).trans
    (maybeSchedulePush_steps env cfg _)
  heals l' hl := hl.trans (applyDeferredHeals_steps env cfg l')

theorem handleQueueItem_steps (item : WorkItem) (l : Loop H T) :
    Steps env cfg l (handleQueueItem env cfg item l) := by
  unfold handleQueueItem
  split
  · rename_i req
    exact ReflTransGen.single (.register l req)
  · rename_i req
    exact handleResyncRequest_steps env cfg req l
  · rename_i req
    split
    · split
      · exact next_steps env cfg l
      · exact (next_steps env cfg l).trans (handleAtomicRequest_steps env cfg req l.next)
    · exact List.foldlRecOn req.events _ ReflTransGen.refl (fun _ hl e _ =>
        (keptByService_steps env cfg l).handleEvent
          (fun l' hl' => hl'.tail (.quiet (appendToWindow_quiet e l'))) hl)

/-! ## 6. Runs -/

theorem handleShutdown_steps : Steps env cfg l (handleShutdown env cfg l) := by
  unfold handleShutdown
  simp only
  have hdrain := (finalizeOpenWindow_steps env cfg "" l).trans
    (applyDeferredHeals_steps env cfg (finalizeOpenWindow env cfg l).1)
  generalize applyDeferredHeals env cfg (finalizeOpenWindow env cfg l).1 = drained at hdrain
  have hpush : Steps env cfg drained
      (if drained.pendingWrites ≠ [] then pushPending env cfg drained else drained) := by
    split
    · exact pushPending_steps env cfg drained
    · exact ReflTransGen.refl
  generalize (if drained.pendingWrites ≠ [] then pushPending env cfg drained else drained) =
    pushed at hpush
  exact (hdrain.trans hpush).trans
    (quiet_steps env cfg (quiet_of_onlyTick pushed _ (onlyTick_refl _) rfl rfl rfl rfl))

theorem handleWake_steps (wake : Wake) (l : Loop H T) :
    Steps env cfg l (handleWake env cfg wake l) := by
  cases wake with
  | item i => exact handleQueueItem_steps env cfg i l
  | commitTimer =>
    refine ((quiet_steps env cfg (quiet_of_onlyTick l { l.next with commitTimer := none }
      (onlyTick_next l.w) rfl rfl rfl rfl)).trans ?_).trans (maybeSchedulePush_steps env cfg _)
    exact finalizeOpenWindow_steps env cfg "" _
  | pushTimer =>
    exact (quiet_steps env cfg (quiet_of_onlyTick l { l.next with pushTimer := none }
      (onlyTick_next l.w) rfl rfl rfl rfl)).trans (pushPending_steps env cfg _)
  | attachTimer => exact quiet_steps env cfg (quiet_of_onlyTick l _ (onlyTick_next l.w) rfl rfl rfl rfl)
  | shutdown => exact handleShutdown_steps env cfg l

theorem turn_steps (wake : Wake) : Steps env cfg l (turn env cfg l wake) := by
  unfold turn
  split
  · exact ReflTransGen.refl
  · simp only
    exact (keptByService_steps env cfg l).afterWake (handleWake_steps env cfg wake l)

theorem run_steps (repo : Repo H T) (remote : Remote H) (wakes : List Wake) :
    Steps env cfg (initialLoop repo remote) (run env cfg repo remote wakes) := by
  unfold run
  generalize initialLoop repo remote = l
  induction wakes generalizing l with
  | nil => exact ReflTransGen.refl
  | cons wake wakes ih => exact (turn_steps env cfg l wake).trans (ih _)

/-- The invariant rule: what holds initially and is kept by every step holds after every run. -/
theorem run_invariant (P : Loop H T → Prop) (repo : Repo H T) (remote : Remote H)
    (hinit : P (initialLoop repo remote))
    (hstep : ∀ l l', LoopStep env cfg l l' → P l → P l') (wakes : List Wake) :
    P (run env cfg repo remote wakes) := by
  have hsteps := run_steps env cfg repo remote wakes
  generalize run env cfg repo remote wakes = final at hsteps
  induction hsteps with
  | refl => exact hinit
  | tail _ hlast ih => exact hstep _ _ hlast ih

/-! ## 7. The closed gate -/

/-- Live events that find the gate closed leave no trace in the loop. -/
theorem closedGate_drops_events (r : WriteRequest) (hlive : r.atomic = false) (l : Loop H T)
    (hclose : ∀ tick, ∀ e ∈ r.events, (env tick).writesAllowed e.target = false) :
    ∃ tick, handleQueueItem env cfg (.write r) l = { l with w := { l.w with tick := tick } } := by
  simp only [handleQueueItem, hlive, Bool.false_eq_true, if_false]
  generalize r.events = events at hclose
  induction events generalizing l with
  | nil => exact ⟨l.w.tick, rfl⟩
  | cons e events ih =>
    have hdrop : handleEvent env cfg e l = l.next := by
      rw [handleEvent, if_pos (hclose _ e List.mem_cons_self)]
    rw [List.foldl_cons, hdrop]
    obtain ⟨tick, hrest⟩ := ih l.next (fun t e' he' => hclose t e' (List.mem_cons_of_mem _ he'))
    exact ⟨tick, hrest⟩

/-- A window that finds the gate closed is discarded: nothing is retained of it. -/
theorem closedGate_drops_window (window : OpenWindow) (hopen : l.openWindow = some window)
    (hclose : (env l.w.tick).writesAllowed window.target = false) :
    (finalizeOpenWindow env cfg l).1.openWindow = none ∧
    (finalizeOpenWindow env cfg l).1.pendingWrites = l.pendingWrites ∧
    (finalizeOpenWindow env cfg l).1.w.repo = l.w.repo := by
  simp only [finalizeOpenWindow, finalizeOpenWindowWithMessage, hopen, hclose, if_true, dropOpenWindow]
  cases window.pendingCR with
  | none | some id => exact ⟨rfl, rfl, rfl⟩

end GitopsReverser.Git
