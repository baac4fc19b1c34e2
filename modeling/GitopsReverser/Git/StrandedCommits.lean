import GitopsReverser.Git.Publication
import GitopsReverser.Reasoning.Runs

/-!
# StrandedCommits — every retained commit has a push coming or behind it

A retained write reaches the remote by a push only, so after each turn of the loop either the push
timer is armed or a push has been tried since the last write was retained.
-/

namespace GitopsReverser.Git

open Reasoning

variable {H T : Type} {S : ObjectStore H T}
  (env : Nat → World S) (cfg : LoopConfig)

def Loop.Unstranded (l : Loop H T) : Prop :=
  l.pendingWrites = [] ∨ l.pushTimer ≠ none ∨ l.pushTried = true

/-! ## 1. The condition on a turn -/

/-- A write built outside the window is also committed. -/
def writeLands [DecidableEq H] [EmptyCollection T] (built : Worker H T × Option (PendingWrite H))
    (keepNoOp : Bool) (l : Loop H T) :
    Bool :=
  match built with
  | (_, none) => false
  | (w, some pw) => (commitAndRetain env cfg pw keepNoOp { l with w := w }).2.isSome

/-- An atomic write or replay that closes a window into a retained write gets its own write built
    and committed as well. -/
def OwnWriteLands [DecidableEq H] [EmptyCollection T] (l : Loop H T) : Wake → Prop
  | .item (.write r) => r.atomic = true → (env l.w.tick).writesAllowed (atomicRefusalTarget r) = true →
      (finalizeOpenWindow env cfg l.next).2 = true →
      let closed := applyDeferredHeals env cfg (finalizeOpenWindow env cfg l.next).1
      writeLands env cfg (buildAtomicPendingWrite env r closed.w) true closed = true
  | .item (.resync r) => r.heal = false → (finalizeOpenWindow env cfg l).2 = true →
      let closed := (finalizeOpenWindow env cfg l).1
      writeLands env cfg (buildResyncPendingWrite env r closed.w) false closed = true
  | _ => True

instance [DecidableEq H] [EmptyCollection T] (l : Loop H T) (wake : Wake) :
    Decidable (OwnWriteLands env cfg l wake) :=
  match wake with
  | .item (.write _) => inferInstanceAs (Decidable (_ → _ → _ → _))
  | .item (.resync _) => inferInstanceAs (Decidable (_ → _ → _))
  | .item (.attach _) | .commitTimer | .pushTimer | .attachTimer | .shutdown => instDecidableTrue

/-! ## 2. Steps that retain nothing -/

/-- Retained writes, push timer and attempts are as before. -/
structure SamePush (l l' : Loop H T) : Prop where
  pendingWrites : l'.pendingWrites = l.pendingWrites
  pushTimer : l'.pushTimer = l.pushTimer
  pushTried : l'.pushTried = l.pushTried

variable {l l' : Loop H T}

theorem SamePush.unstranded (hsame : SamePush l l') (h : l.Unstranded) :
    l'.Unstranded := by
  unfold Loop.Unstranded
  rw [hsame.pendingWrites, hsame.pushTimer, hsame.pushTried]
  exact h

theorem samePush_drop (cr : Option CommitRequestId) (cause : String) (l : Loop H T) :
    SamePush l (dropOpenWindow env cfg cr cause l) := by
  cases cr with
  | none | some id => exact ⟨rfl, rfl, rfl⟩

theorem attachWaiting_unstranded (l : Loop H T) (h : l.Unstranded) :
    (attachWaitingCommitRequests env l).Unstranded := by
  unfold attachWaitingCommitRequests
  split
  · exact h
  · split
    · exact h
    · simp only
      split
      · exact h
      · exact h

variable [DecidableEq H] [EmptyCollection T]

theorem samePush_finalize (l : Loop H T) (h : (finalizeOpenWindow env cfg l).2 = false) :
    SamePush l (finalizeOpenWindow env cfg l).1 := by
  have hclose : Closing env cfg l (finalizeOpenWindow env cfg l) :=
    finalizeOpenWindow_closing env cfg "" l
  generalize finalizeOpenWindow env cfg l = closed at hclose h
  cases hclose with
  | idle => exact ⟨rfl, rfl, rfl⟩
  | dropped window cause w₂ w =>
    obtain ⟨hwrite, htimer, htried⟩ := samePush_drop env cfg window.pendingCR cause
      { l with w := w, commitTimer := none }
    exact ⟨hwrite, htimer, htried⟩
  -- a commit that was made is retained
  | retained => cases h
  | settled => cases h

theorem samePush_commitAndRetain {pw : PendingWrite H} {keepNoOp : Bool}
    (h : commitAndRetain env cfg pw keepNoOp l = (l', none)) : SamePush l l' := by
  unfold commitAndRetain at h
  split at h
  · simp only at h
    split at h
    · simp at h
    · simp at h
  · rw [← (Prod.mk.inj h).1]
    exact ⟨rfl, rfl, rfl⟩

theorem samePush_noOp {pw : PendingWrite H}
    (h : commitAndRetain env cfg pw false l = (l', some false)) : SamePush l l' := by
  unfold commitAndRetain at h
  split at h
  · simp only at h
    split at h
    · rename_i hcreate
      rw [Prod.mk.injEq, Option.some.injEq] at h
      simp [h.2] at hcreate
    · rw [← (Prod.mk.inj h).1]
      exact ⟨rfl, rfl, rfl⟩
  · simp at h

theorem commitAndRetain_openWindow (pw : PendingWrite H) (keepNoOp : Bool) (l : Loop H T) :
    (commitAndRetain env cfg pw keepNoOp l).1.openWindow = l.openWindow := by
  unfold commitAndRetain
  split
  · simp only
    split <;> rfl
  · rfl

/-! ## 3. Pushing -/

theorem pushPending_tried (l : Loop H T) :
    (pushPending env cfg l).pendingWrites = [] ∨ (pushPending env cfg l).pushTried = true := by
  unfold pushPending
  split
  · rename_i hnil
    exact Or.inl hnil
  · split
    · exact Or.inr rfl
    · exact Or.inr rfl

theorem pushPending_unstranded (l : Loop H T) : (pushPending env cfg l).Unstranded :=
  (pushPending_tried env cfg l).imp_right Or.inr

theorem maybeSchedulePush_unstranded (l : Loop H T) : (maybeSchedulePush env cfg l).Unstranded := by
  unfold maybeSchedulePush
  split
  · rename_i hnil
    exact Or.inl hnil
  · split
    · exact pushPending_unstranded env cfg l
    · simp only
      split
      · exact pushPending_unstranded env cfg l.next
      · split
        · exact Or.inr (Or.inl (by simp))
        · rename_i harm
          exact Or.inr (Or.inl harm)

/-! ## 4. Resyncs and atomic writes -/

variable (r : ResyncRequest)

/-- A resync keeps every retained write pushed if its own write lands or it closed no window. -/
theorem applyResync_unstranded (l : Loop H T) (h : l.Unstranded)
    (hland : r.heal = false → (finalizeOpenWindow env cfg l).2 = true →
      writeLands env cfg (buildResyncPendingWrite env r (finalizeOpenWindow env cfg l).1.w) false
        (finalizeOpenWindow env cfg l).1 = true) :
    (applyResync env cfg r l).Unstranded := by
  have hkept : (if r.heal then (l, false) else finalizeOpenWindow env cfg l).2 = false →
      (if r.heal then (l, false) else finalizeOpenWindow env cfg l).1.Unstranded := by
    split
    · exact fun _ => h
    · exact fun hfails => (samePush_finalize env cfg l hfails).unstranded h
  have hown : (if r.heal then (l, false) else finalizeOpenWindow env cfg l).2 = true →
      writeLands env cfg (buildResyncPendingWrite env r
          (if r.heal then (l, false) else finalizeOpenWindow env cfg l).1.w) false
        (if r.heal then (l, false) else finalizeOpenWindow env cfg l).1 = true := by
    split
    · simp
    · rename_i hheal
      exact hland (by simpa using hheal)
  unfold applyResync
  simp only
  generalize (if r.heal then (l, false) else finalizeOpenWindow env cfg l) = closing at hkept hown
  unfold writeLands at hown
  split
  · rename_i w hbuilt
    rw [hbuilt] at hown
    cases hclose : closing.2 with
    | true => simp [hclose] at hown
    | false => exact hkept hclose
  · rename_i w pw hbuilt
    rw [hbuilt] at hown
    simp only at hown
    split
    · rename_i l₂ hcommit
      rw [hcommit] at hown
      have hsame := samePush_commitAndRetain env cfg hcommit
      cases hclose : closing.2 with
      | true => simp [hclose] at hown
      | false => exact hsame.unstranded (hkept hclose)
    · rename_i l₂ committed hcommit
      split
      · exact maybeSchedulePush_unstranded env cfg l₂
      · -- neither a commit of its own nor a closed window
        rename_i hquiet
        have hquiet' : committed = false ∧ closing.2 = false := by simpa using hquiet
        rw [hquiet'.1] at hcommit
        exact (samePush_noOp env cfg hcommit).unstranded (hkept hquiet'.2)

theorem finalizeOpenWindow_none {l : Loop H T} (hopen : l.openWindow = none) :
    finalizeOpenWindow env cfg l = (l, false) := by
  unfold finalizeOpenWindow finalizeOpenWindowWithMessage
  rw [hopen]

theorem applyResync_openWindow {l : Loop H T} (hopen : l.openWindow = none) :
    (applyResync env cfg r l).openWindow = none := by
  have hkept : KeptByWrites env cfg (fun l : Loop H T => l.openWindow = none) := ⟨fun _ _ _ h => h,
      fun l pw keepNoOp _ _ h => (commitAndRetain_openWindow env cfg pw keepNoOp l).trans h,
      fun l h => (maybeSchedulePush_openWindow env cfg l).trans h⟩
  have hclose : (if r.heal then (l, false) else finalizeOpenWindow env cfg l).1.openWindow = none := by
    rw [finalizeOpenWindow_none env cfg hopen, ite_self]
    exact hopen
  obtain ⟨l', failed, hl', heq⟩ := hkept.applyResync r hclose
  rw [heq]
  exact hl'

theorem applyDeferredHeals_unstranded (l : Loop H T) (h : l.Unstranded) :
    (applyDeferredHeals env cfg l).Unstranded := by
  unfold applyDeferredHeals
  split
  · exact h
  · rename_i hopen
    -- on the parked heals; no window opens while they are applied
    have hclean : ({ l with deferredHeals := [] } : Loop H T).openWindow = none ∧
        ({ l with deferredHeals := [] } : Loop H T).Unstranded := ⟨not_not.mp hopen, h⟩
    refine (List.foldlRecOn (motive := fun s : Loop H T => s.openWindow = none ∧ s.Unstranded)
      l.deferredHeals _ hclean ?_).2
    rintro s ⟨hnone, hs⟩ r -
    refine ⟨applyResync_openWindow env cfg r hnone, applyResync_unstranded env cfg r s hs ?_⟩
    rw [finalizeOpenWindow_none env cfg hnone]
    simp

theorem handleResyncRequest_unstranded (l : Loop H T) (h : l.Unstranded)
    (hok : OwnWriteLands env cfg l (.item (.resync r))) :
    (handleResyncRequest env cfg r l).Unstranded := by
  unfold handleResyncRequest
  split
  · unfold stashDeferredHeal
    split
    · exact h
    · exact h
  · exact applyResync_unstranded env cfg r l h hok

theorem handleAtomicRequest_unstranded (r : WriteRequest) (l : Loop H T) (h : l.Unstranded)
    (hland : (finalizeOpenWindow env cfg l).2 = true → writeLands env cfg (buildAtomicPendingWrite env r
          (applyDeferredHeals env cfg (finalizeOpenWindow env cfg l).1).w) true
        (applyDeferredHeals env cfg (finalizeOpenWindow env cfg l).1) = true) :
    (handleAtomicRequest env cfg r l).Unstranded := by
  unfold handleAtomicRequest
  simp only
  have hkept : (finalizeOpenWindow env cfg l).2 = false →
      (applyDeferredHeals env cfg (finalizeOpenWindow env cfg l).1).Unstranded := fun hfails =>
    applyDeferredHeals_unstranded env cfg _ ((samePush_finalize env cfg l hfails).unstranded h)
  generalize applyDeferredHeals env cfg (finalizeOpenWindow env cfg l).1 = closed at hland hkept
  unfold writeLands at hland
  split
  · rename_i w hbuilt
    rw [hbuilt] at hland
    cases hclose : (finalizeOpenWindow env cfg l).2 with
    | true => simp [hclose] at hland
    | false => exact hkept hclose
  · rename_i w pw hbuilt
    rw [hbuilt] at hland
    simp only at hland
    split
    · rename_i l₂ hcommit
      rw [hcommit] at hland
      have hsame := samePush_commitAndRetain env cfg hcommit
      cases hclose : (finalizeOpenWindow env cfg l).2 with
      | true => simp [hclose] at hland
      | false => exact hsame.unstranded (hkept hclose)
    · exact maybeSchedulePush_unstranded env cfg _

/-! ## 5. The other items -/

theorem keptByService_unstranded : KeptByService env cfg (Loop.Unstranded (H := H) (T := T)) where
  next _ h := h
  timers _ _ _ h := h
  attach l h := attachWaiting_unstranded env l h
  reject _ _ _ _ h := h
  close _ _ := maybeSchedulePush_unstranded env cfg _
  heals l h := applyDeferredHeals_unstranded env cfg l h

theorem handleQueueItem_unstranded (item : WorkItem) (l : Loop H T) (h : l.Unstranded)
    (hok : OwnWriteLands env cfg l (.item item)) : (handleQueueItem env cfg item l).Unstranded := by
  unfold handleQueueItem
  split
  · rename_i r
    unfold handleAttachCommitRequest
    split
    · exact h
    · split
      · exact h
      · exact h
  · rename_i r
    exact handleResyncRequest_unstranded env cfg r l h hok
  · rename_i r
    split
    · rename_i hato
      split
      · exact h
      · rename_i hgate
        have hnext : l.next.Unstranded := h
        exact handleAtomicRequest_unstranded env cfg r l.next hnext (hok hato (by simpa using hgate))
    · exact List.foldlRecOn r.events _ h
        (fun _ hs _ _ => (keptByService_unstranded env cfg).handleEvent (fun _ hs => hs) hs)

/-! ## 6. Runs -/

theorem handleShutdown_unstranded (l : Loop H T) : (handleShutdown env cfg l).Unstranded := by
  unfold handleShutdown
  simp only
  generalize applyDeferredHeals env cfg (finalizeOpenWindow env cfg l).1 = drained
  -- the timers are stopped, so only the attempt itself counts
  split
  · exact (pushPending_tried env cfg drained).imp_right Or.inr
  · rename_i hnil
    exact Or.inl (not_not.mp hnil)

theorem handleWake_unstranded (wake : Wake) (l : Loop H T) (h : l.Unstranded)
    (hok : OwnWriteLands env cfg l wake) : (handleWake env cfg wake l).Unstranded := by
  cases wake with
  | item i => exact handleQueueItem_unstranded env cfg i l h hok
  | commitTimer => exact maybeSchedulePush_unstranded env cfg _
  | pushTimer => exact pushPending_unstranded env cfg _
  | attachTimer => exact h
  | shutdown => exact handleShutdown_unstranded env cfg l

theorem turn_unstranded (l : Loop H T) (wake : Wake) (hok : OwnWriteLands env cfg l wake)
    (h : l.Unstranded) : (turn env cfg l wake).Unstranded := by
  unfold turn
  split
  · exact h
  · simp only
    exact (keptByService_unstranded env cfg).afterWake (handleWake_unstranded env cfg wake l h hok)

/-- No stranded commits: in a run in which every atomic write or replay that closes a window into a
    retained write has its own write built and committed too, at the end of every turn nothing is
    retained, or the push timer is armed, or a push was tried after the last write was retained. -/
theorem run_leaves_no_stranded_commit (repo : Repo H T) (remote : Remote H) (wakes : List Wake)
    (hwakes : AllSteps (turn env cfg) (OwnWriteLands env cfg) (initialLoop repo remote) wakes) :
    let final := run env cfg repo remote wakes
    final.pendingWrites = [] ∨ final.pushTimer ≠ none ∨ final.pushTried = true := by
  have hstep : ∀ (l : Loop H T) (wake : Wake), OwnWriteLands env cfg l wake → l.Unstranded →
      (turn env cfg l wake).Unstranded := turn_unstranded env cfg
  exact hwakes.invariant hstep (Or.inl rfl)

def slowConfig : LoopConfig := ⟨"main", 10, 1000⟩

def sampleAtomic : Wake := .item (.write ⟨[sampleEvent "set"], "", ⟨"target", "default"⟩, true⟩)

def sampleResync : Wake := .item (.resync ⟨[], "9", ⟨"target", "default"⟩, none, false, 0⟩)

def unreadTargetEnv (failing tick : Nat) : World (freeStore (List Nat)) :=
  if tick = failing then
    { sampleWorld with getGitTarget := fun _ => .failed, order_perm := order_refl }
  else sampleWorld

def Loop.retention (l : Loop (Chain (List Nat)) (List Nat)) :
    Nat × Option Int × Bool × Option (Chain (List Nat)) :=
  (l.pendingWrites.length, l.pushTimer, l.pushTried, l.w.remote.refs "main")

-- The request closes the window into a retained write, then fails to read its own GitTarget.
theorem failed_request_strands_window :
    (run (unreadTargetEnv 12) slowConfig freshClone mainOnly [sampleWrite "set", sampleAtomic]).retention =
      (1, none, false, some (.root [0] 0)) ∧
    (run (unreadTargetEnv 11) slowConfig freshClone mainOnly [sampleWrite "set", sampleResync]).retention =
      (1, none, false, some (.root [0] 0)) := by
  decide

def deadRemoteEnv (_ : Nat) : World (freeStore (List Nat)) :=
  { sampleWorld with push := some .dropped, order_perm := order_refl }

theorem retained_window_has_failed_push :
    let final := run deadRemoteEnv slowConfig freshClone mainOnly [sampleWrite "set", sampleAtomic]
    final.pendingWrites.length = 2 ∧
      (final.pendingWrites = [] ∨ final.pushTimer ≠ none ∨ final.pushTried = true) :=
  ⟨by decide, run_leaves_no_stranded_commit deadRemoteEnv slowConfig freshClone mainOnly _ (by decide)⟩

end GitopsReverser.Git
