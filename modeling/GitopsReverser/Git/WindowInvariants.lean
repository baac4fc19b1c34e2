import GitopsReverser.Git.Requests
import GitopsReverser.Reasoning.Runs

/-!
# WindowInvariants — what the open window and the two byte counters stand for

The loop keeps the bytes of the open window and of the retained writes as running totals, and the
claim of a window in two places: the window names the request, and the request is marked. The
events appended since the window opened are not part of the loop, since the window keeps only the
last one per path, so the invariant is stated over the loop and these events.
-/

namespace GitopsReverser.Git

open Reasoning

variable {H T : Type} {S : ObjectStore H T}
  (env : Nat → World S) (cfg : LoopConfig)

/-! ## 1. The events of the open window -/

def whileOpen (l : Loop H T) (appended : List Event) : List Event :=
  if l.openWindow = none then [] else appended

/-- The events appended since the window opened, once `e` has been handled. -/
def appendedAfterEvent [DecidableEq H] [EmptyCollection T] (e : Event) (l : Loop H T)
    (appended : List Event) : List Event :=
  if (env l.w.tick).writesAllowed e.target = false then appended
  else
    -- an event that does not fit opens its own window
    let extended := if l.openWindow.all (fun window => window.canAppend e) then appended ++ [e]
      else [e]
    whileOpen (handleEvent env cfg e l) extended

def appendedAfterEvents [DecidableEq H] [EmptyCollection T] :
    List Event → Loop H T → List Event → List Event
  | [], _, appended => appended
  | e :: events, l, appended =>
    appendedAfterEvents events (handleEvent env cfg e l) (appendedAfterEvent env cfg e l appended)

/-- Only the events of a per-event request go into a window. -/
def appendedAfterWake [DecidableEq H] [EmptyCollection T] (l : Loop H T) (appended : List Event) :
    Wake → List Event
  | .item (.write r) =>
    if r.atomic then appended else appendedAfterEvents env cfg r.events l appended
  | _ => appended

def appendedAfterTurn [DecidableEq H] [EmptyCollection T] (l : Loop H T) (wake : Wake)
    (appended : List Event) : List Event :=
  if l.stopped || !wakeReady env wake l then appended
  else whileOpen (turn env cfg l wake) (appendedAfterWake env cfg l appended wake)

/-- The loop together with the events appended since its window opened. -/
structure WindowedLoop (H T : Type) where
  loop : Loop H T
  appended : List Event

def windowedTurn [DecidableEq H] [EmptyCollection T] (s : WindowedLoop H T) (wake : Wake) :
    WindowedLoop H T :=
  ⟨turn env cfg s.loop wake, appendedAfterTurn env cfg s.loop wake s.appended⟩

def windowedRun [DecidableEq H] [EmptyCollection T] (repo : Repo H T) (remote : Remote H)
    (wakes : List Wake) : WindowedLoop H T :=
  wakes.foldl (windowedTurn env cfg) ⟨initialLoop repo remote, []⟩

variable (repo : Repo H T)

variable (remote : Remote H)

theorem windowedRun_loop [DecidableEq H] [EmptyCollection T] (wakes : List Wake) :
    (windowedRun env cfg repo remote wakes).loop = run env cfg repo remote wakes :=
  (List.foldl_hom WindowedLoop.loop (fun _ _ => rfl)).symm

/-! ## 2. The invariant -/

def retainedBytes (writes : List (PendingWrite H)) : Nat := (writes.map (·.byteSize)).sum

/-- The loop after `appended` have gone into the open window. -/
structure Isolated (l : Loop H T) (appended : List Event) : Prop where
  closed : l.openWindow = none ↔ appended = []
  held : ∀ window, l.openWindow = some window → ∀ e ∈ window.orderedEvents, e ∈ appended
  uniform : ∀ window, l.openWindow = some window → ∀ e ∈ appended,
    e.username = window.author ∧ e.attribution = window.attribution ∧ e.target = window.target
  windowBytes : l.windowBytes = estimateEventsSize appended
  pendingWritesBytes : l.pendingWritesBytes = retainedBytes l.pendingWrites
  -- the keys of a map
  distinct : (l.pendingCRs.map (·.id)).Nodup
  claimed : ∀ window id, l.openWindow = some window → window.pendingCR = some id →
    ∃ p ∈ l.pendingCRs, p.id = id ∧ p.attached = true ∧ p.matchesWindow window = true
  attached : ∀ p ∈ l.pendingCRs, p.attached = true → l.claimed = some p.id

variable {l : Loop H T} {appended : List Event}

theorem Isolated.openWindow_eq_none (h : Isolated l []) : l.openWindow = none := h.closed.mpr rfl

theorem Isolated.claimed_eq_none (h : Isolated l []) : l.claimed = none := by
  rw [Loop.claimed, h.openWindow_eq_none]
  rfl

section

variable (h : Isolated l appended)

include h

theorem Isolated.attached_unique
    (hp : p ∈ l.pendingCRs) (hq : q ∈ l.pendingCRs) (hpa : p.attached = true)
    (hqa : q.attached = true) : p = q := by
  have hid : p.id = q.id := Option.some.inj ((h.attached p hp hpa).symm.trans (h.attached q hq hqa))
  exact List.inj_on_of_nodup_map h.distinct hp hq hid

theorem Isolated.congr (hopen : l'.openWindow = l.openWindow) (hbyte : l'.windowBytes = l.windowBytes)
    (hretain : l'.pendingWritesBytes = retainedBytes l'.pendingWrites)
    (hcrs : l'.pendingCRs = l.pendingCRs) : Isolated l' appended where
  closed := by rw [hopen]; exact h.closed
  held := by rw [hopen]; exact h.held
  uniform := by rw [hopen]; exact h.uniform
  windowBytes := hbyte.trans h.windowBytes
  pendingWritesBytes := hretain
  distinct := by rw [hcrs]; exact h.distinct
  claimed := by rw [hopen, hcrs]; exact h.claimed
  attached := by rw [Loop.claimed, hopen, hcrs]; exact h.attached

theorem Isolated.worker (w : Worker H T) : Isolated { l with w := w } appended :=
  h.congr rfl rfl h.pendingWritesBytes rfl

theorem Isolated.next : Isolated l.next appended := h.worker _

end

/-! ## 3. Requests -/

variable {crs : List PendingCommitRequest} {id : CommitRequestId}

theorem nodup_ids_removePending (h : (crs.map (·.id)).Nodup)
    (id : CommitRequestId) : ((removePending id crs).map (·.id)).Nodup :=
  h.sublist ((List.filter_sublist).map _)

theorem mem_removePending : p ∈ removePending id crs ↔ p ∈ crs ∧ p.id ≠ id := by
  simp [removePending]

theorem Isolated.resolve (h : Isolated l appended) (id : CommitRequestId)
    (result : FinalizeResult H) (carried : Option (PendingWrite H × Nat))
    (hfree : l.claimed ≠ some id) :
    Isolated (resolveCommitRequest env cfg id result carried l) appended where
  closed := h.closed
  held := h.held
  uniform := h.uniform
  windowBytes := h.windowBytes
  pendingWritesBytes := h.pendingWritesBytes
  distinct := nodup_ids_removePending h.distinct id
  claimed := by
    intro window other hopen hclaim
    obtain ⟨p, hp, hpid, hpa, hpm⟩ := h.claimed window other hopen hclaim
    have hne : p.id ≠ id := by
      rintro rfl
      exact hfree (by rw [Loop.claimed, show l.openWindow = some window from hopen, hpid]; exact hclaim)
    exact ⟨p, mem_removePending.mpr ⟨hp, hne⟩, hpid, hpa, hpm⟩
  attached := fun p hp hpa => h.attached p (mem_removePending.mp hp).1 hpa

theorem Isolated.register (h : Isolated l appended) (req : AttachCommitRequest) :
    Isolated (handleAttachCommitRequest env req l) appended := by
  unfold handleAttachCommitRequest
  split
  · exact h
  · split
    · exact h
    · rename_i hnew
      refine ⟨h.closed, h.held, h.uniform, h.windowBytes, h.pendingWritesBytes, ?_, ?_, ?_⟩
      · simp only [List.any_eq_true, decide_eq_true_eq, not_exists, not_and] at hnew
        rw [List.map_append, List.nodup_append]
        refine ⟨h.distinct, List.nodup_singleton _, ?_⟩
        intro id hid other hother heq
        obtain ⟨p, hp, rfl⟩ := List.mem_map.mp hid
        rw [List.map_singleton, List.mem_singleton] at hother
        exact hnew p hp (heq.trans hother)
      · intro window id hopen hclaim
        obtain ⟨p, hp, hmatch⟩ := h.claimed window id hopen hclaim
        exact ⟨p, List.mem_append_left _ hp, hmatch⟩
      · -- the new entry waits for a window
        intro p hp hpa
        rcases List.mem_append.mp hp with hp | hp
        · exact h.attached p hp hpa
        · rw [List.mem_singleton.mp hp] at hpa
          cases hpa

theorem oldestWaiting_waits (window : OpenWindow) (crs : List PendingCommitRequest)
    (p : PendingCommitRequest) (h : oldestWaiting window crs = some p) :
    p.matchesWindow window = true := by
  -- from the back, as the best of the rest is found first
  induction crs generalizing p with
  | nil => simp [oldestWaiting] at h
  | cons q rest ih =>
    have hq : ¬ (q.attached || !q.matchesWindow window) = true → q.matchesWindow window = true := by
      intro hwait
      simp only [Bool.or_eq_true, Bool.not_eq_true', not_or, Bool.not_eq_false] at hwait
      exact hwait.2
    rw [oldestWaiting] at h
    split at h
    · split at h
      · simp at h
      · rename_i hwait
        rw [← Option.some.inj h]
        exact hq hwait
    · rename_i best hbest
      split at h
      · exact ih p (hbest.trans h)
      · rename_i hwait
        split at h
        · exact ih p (hbest.trans h)
        · rw [← Option.some.inj h]
          exact hq hwait

theorem mem_markAttached (h : p ∈ markAttached id crs) : p.id = id ∨ p ∈ crs := by
  rw [markAttached, List.mem_map] at h
  obtain ⟨q, hq, rfl⟩ := h
  split
  · rename_i hid
    exact Or.inl hid
  · exact Or.inr hq

theorem map_id_markAttached (id : CommitRequestId) (crs : List PendingCommitRequest) :
    (markAttached id crs).map (·.id) = crs.map (·.id) := by
  rw [markAttached, List.map_map]
  refine List.map_congr_left (fun p _ => ?_)
  simp only [Function.comp]
  split <;> rfl

theorem Isolated.attach (h : Isolated l appended) :
    Isolated (attachWaitingCommitRequests env l) appended := by
  unfold attachWaitingCommitRequests
  split
  · exact h
  · rename_i window hopen
    split
    · exact h
    · rename_i hfree
      simp only
      split
      · exact h.next
      · rename_i p holdest
        have hp : p ∈ l.pendingCRs :=
          mem_of_mem_pendingInOrder _ _ p (oldestWaiting_mem window _ p holdest)
        have hmatch := oldestWaiting_waits window _ p holdest
        have hunclaimed : l.claimed = none := by
          rw [Loop.claimed, hopen]
          simpa using hfree
        refine ⟨?_, ?_, ?_, h.windowBytes, h.pendingWritesBytes, ?_, ?_, ?_⟩
        · rw [← h.closed, hopen]
          simp
        · rintro _ ⟨⟩
          exact h.held window hopen
        · rintro _ ⟨⟩
          exact h.uniform window hopen
        · rw [map_id_markAttached]
          exact h.distinct
        · rintro _ id ⟨⟩ hid
          refine ⟨{ p with attached := true }, ?_, Option.some.inj hid, rfl, hmatch⟩
          rw [markAttached, List.mem_map]
          exact ⟨p, hp, if_pos rfl⟩
        · -- no request was attached before, as the window was free
          intro q hq hqa
          rcases mem_markAttached hq with hid | hold
          · exact congrArg some hid.symm
          · have := h.attached q hold hqa
            rw [hunclaimed] at this
            cases this

/-! ## 4. Pushing -/

theorem retainedBytes_refreshed (h : List.Forall₂ Refreshed a b) :
    retainedBytes b = retainedBytes a := by
  induction h with
  | nil => rfl
  | cons hab _ ih =>
    simp only [retainedBytes, List.map_cons, List.sum_cons] at ih ⊢
    rw [hab.byteSize, ih]

/-- A retained write carries no request that claims the open window. -/
def Loop.ClaimRidesNone (l : Loop H T) : Prop :=
  ∀ pw ∈ l.pendingWrites, pw.commitRequest = none ∨ pw.commitRequest ≠ l.claimed
  deriving Decidable

theorem Isolated.claimRidesNone (h : Isolated l []) : l.ClaimRidesNone := by
  intro pw _
  rw [h.claimed_eq_none]
  exact em _

variable (writes : List (PendingWrite H))

theorem Isolated.resolvePushed (h : Isolated l appended)
    (hfree : ∀ pw ∈ writes, pw.commitRequest = none ∨ pw.commitRequest ≠ l.claimed) :
    Isolated (resolvePushedCommitRequests env cfg writes l) appended := by
  induction writes generalizing l with
  | nil => exact h
  | cons pw rest ih =>
    have hrest := fun b hb => hfree b (List.mem_cons_of_mem pw hb)
    rw [resolvePushedCommitRequests]
    split
    · rename_i id sha hreq _
      have hother : l.claimed ≠ some id := by
        intro hclaim
        rcases hfree pw List.mem_cons_self with hnone | hne
        · rw [hreq] at hnone
          cases hnone
        · exact hne (hreq.trans hclaim.symm)
      exact ih (h.resolve env cfg id _ _ hother) hrest
    · exact ih h hrest

theorem claimed_refreshed (h : List.Forall₂ Refreshed a b)
    (hfree : ∀ pw ∈ a, pw.commitRequest = none ∨ pw.commitRequest ≠ claim) :
    ∀ pw ∈ b, pw.commitRequest = none ∨ pw.commitRequest ≠ claim := by
  induction h with
  | nil => simp
  | cons hab _ ih =>
    intro pw hpw
    rcases List.mem_cons.mp hpw with rfl | hpw
    · rw [hab.commitRequest]
      exact hfree _ List.mem_cons_self
    · exact ih (fun b hb => hfree b (List.mem_cons_of_mem _ hb)) pw hpw

theorem Isolated.push [DecidableEq H] [EmptyCollection T] (h : Isolated l appended)
    (hfree : l.ClaimRidesNone) :
    Isolated (pushPending env cfg l) appended := by
  unfold pushPending
  split
  · exact h.congr rfl rfl h.pendingWritesBytes rfl
  · rename_i hne
    cases hpush : pushPendingCommits env cfg.branch l.pendingWrites l.w with
    | mk w rest =>
      obtain ⟨writes, ok⟩ := rest
      have href := (pushPendingCommits_spec env cfg.branch hne hpush).1.refreshed
      have hbyte : l.pendingWritesBytes = retainedBytes writes :=
        h.pendingWritesBytes.trans (retainedBytes_refreshed href).symm
      have hreport : Isolated { l with w := w, pendingWrites := writes } appended :=
        h.congr rfl rfl hbyte rfl
      cases ok with
      | false => exact hreport.congr rfl rfl hbyte rfl
      | true =>
        have hres := hreport.resolvePushed env cfg writes (claimed_refreshed href hfree)
        exact hres.congr rfl rfl rfl rfl

theorem Isolated.schedulePush [DecidableEq H] [EmptyCollection T] (h : Isolated l []) :
    Isolated (maybeSchedulePush env cfg l) [] := by
  unfold maybeSchedulePush
  split
  · exact h
  · split
    · exact h.push env cfg h.claimRidesNone
    · simp only
      split
      · exact h.next.push env cfg h.next.claimRidesNone
      · split
        · exact h.congr rfl rfl h.pendingWritesBytes rfl
        · exact h.next

/-! ## 5. Closing the window -/

theorem Isolated.closing (h : Isolated l appended)
    (hopen : l.openWindow = some window) (hnone : l'.openWindow = none)
    (hbyte : l'.windowBytes = 0)
    (hretain : l'.pendingWritesBytes = retainedBytes l'.pendingWrites)
    (hcrs : l'.pendingCRs = window.pendingCR.elim l.pendingCRs (removePending · l.pendingCRs)) :
    Isolated l' [] := by
  -- the request of the window goes with it; no other one was attached
  have hclaim : l.claimed = window.pendingCR := by
    rw [Loop.claimed, hopen]
    rfl
  refine ⟨by simp [hnone], by simp [hnone], by simp [hnone], hbyte, hretain, ?_, by simp [hnone], ?_⟩
  · rw [hcrs]
    cases window.pendingCR with
    | none => exact h.distinct
    | some id => exact nodup_ids_removePending h.distinct id
  · intro p hp hpa
    rw [hcrs] at hp
    cases hcr : window.pendingCR with
    | none =>
      rw [hcr] at hp hclaim
      have hname := h.attached p hp hpa
      rw [hclaim] at hname
      cases hname
    | some id =>
      rw [hcr] at hp hclaim
      obtain ⟨hp, hne⟩ := mem_removePending.mp hp
      have hname := h.attached p hp hpa
      rw [hclaim] at hname
      exact absurd (Option.some.inj hname).symm hne

theorem Isolated.drop (h : Isolated l appended) (hopen : l.openWindow = some window) (cause : String) :
    Isolated (dropOpenWindow env cfg window.pendingCR cause l) [] := by
  cases hcr : window.pendingCR with
  | none | some id => exact h.closing hopen rfl rfl h.pendingWritesBytes (by rw [hcr]; rfl)

theorem retainedBytes_append_singleton (pw : PendingWrite H) :
    retainedBytes (writes ++ [pw]) = retainedBytes writes + pw.byteSize := by
  simp [retainedBytes]

theorem Isolated.finalize [DecidableEq H] [EmptyCollection T] (h : Isolated l appended)
    (message : String) :
    Isolated (finalizeOpenWindowWithMessage env cfg message l).1 [] := by
  have hclose := finalizeOpenWindow_closing env cfg message l
  generalize finalizeOpenWindowWithMessage env cfg message l = closed at hclose
  have hbyte : ∀ pw : PendingWrite H, l.pendingWritesBytes + pw.byteSize =
      retainedBytes (l.pendingWrites ++ [pw]) := by
    intro pw
    rw [retainedBytes_append_singleton, h.pendingWritesBytes]
  cases hclose with
  | idle hopen => rwa [h.closed.mp hopen] at h
  | dropped window cause w₂ w hopen =>
    have htimer : Isolated { l with w := w, commitTimer := none } appended :=
      h.congr rfl rfl h.pendingWritesBytes rfl
    exact htimer.drop env cfg hopen cause
  | retained window pw committed w₂ w count hopen hfree =>
    exact h.closing hopen rfl rfl (hbyte committed) (by rw [hfree]; rfl)
  -- the request rides the write or is resolved
  | settled window id pw committed w₂ w count hopen hclaim =>
    unfold settleCommitRequest
    split
    · exact h.closing hopen rfl rfl (hbyte { committed with commitRequest := none }) (by rw [hclaim]; rfl)
    · exact h.closing hopen rfl rfl (hbyte committed) (by rw [hclaim]; rfl)

/-! ## 6. Resyncs and atomic writes -/

theorem Isolated.commitAndRetain [DecidableEq H] [EmptyCollection T] (h : Isolated l appended)
    (pw : PendingWrite H) (keepNoOp : Bool) :
    Isolated (commitAndRetain env cfg pw keepNoOp l).1 appended := by
  unfold Git.commitAndRetain
  split
  · simp only
    split
    · refine h.congr rfl rfl ?_ rfl
      simp only [retainedBytes_append_singleton, h.pendingWritesBytes]
    · exact h.worker _
  · exact h.worker _

theorem keptByWrites_isolated [DecidableEq H] [EmptyCollection T] :
    KeptByWrites env cfg (fun l : Loop H T => Isolated l []) where
  tick _ w _ h := h.worker w
  retain _ pw keepNoOp _ _ h := h.commitAndRetain env cfg pw keepNoOp
  push _ h := h.schedulePush env cfg

/-- A resync leaves no window open: a heal waits until there is none. -/
theorem Isolated.resync [DecidableEq H] [EmptyCollection T] (h : Isolated l appended)
    (r : ResyncRequest)
    (hheal : r.heal = true → appended = []) : Isolated (applyResync env cfg r l) [] := by
  -- a heal comes only where the window holds nothing
  have hclose : Isolated (if r.heal then (l, false) else finalizeOpenWindow env cfg l).1 [] := by
    split
    · rename_i hr
      rwa [hheal hr] at h
    · exact h.finalize env cfg ""
  obtain ⟨l', failed, hl', heq⟩ := (keptByWrites_isolated env cfg).applyResync r hclose
  rw [heq]
  exact hl'.worker _

theorem Isolated.deferredHeals [DecidableEq H] [EmptyCollection T] (h : Isolated l appended) :
    Isolated (applyDeferredHeals env cfg l) appended := by
  unfold applyDeferredHeals
  split
  · exact h
  · rename_i hnone
    obtain rfl := h.closed.mp (not_not.mp hnone)
    have hclean : Isolated { l with deferredHeals := [] } [] := h.congr rfl rfl h.pendingWritesBytes rfl
    exact List.foldlRecOn (motive := fun s => Isolated s []) l.deferredHeals _ hclean
      (fun _ hs r _ => hs.resync env cfg r (fun _ => rfl))

theorem Isolated.atomic [DecidableEq H] [EmptyCollection T] (h : Isolated l appended)
    (r : WriteRequest) :
    Isolated (handleAtomicRequest env cfg r l) [] := by
  exact (keptByWrites_isolated env cfg).handleAtomicRequest r
    ((h.finalize env cfg "").deferredHeals env cfg)

/-! ## 7. Live events -/

theorem orderedEvents_add (window : OpenWindow) (e e' : Event)
    (h : e' ∈ (window.add e).orderedEvents) : e' = e ∨ e' ∈ window.orderedEvents := by
  have hentries : ∀ entries : List (Path × Event),
      ∀ entry ∈ addEntry (windowPathKey e) e entries, entry.2 = e ∨ entry ∈ entries := by
    intro entries
    induction entries with
    | nil => simp [addEntry]
    | cons first rest ih =>
      intro entry hentry
      rw [addEntry] at hentry
      split at hentry
      · rcases List.mem_cons.mp hentry with rfl | hrest
        · exact Or.inl rfl
        · exact Or.inr (List.mem_cons_of_mem _ hrest)
      · rcases List.mem_cons.mp hentry with rfl | hrest
        · exact Or.inr List.mem_cons_self
        · exact (ih entry hrest).imp_right (List.mem_cons_of_mem _)
  obtain ⟨entry, hentry, rfl⟩ := List.mem_map.mp h
  exact (hentries window.entries entry hentry).imp_right (List.mem_map_of_mem)

theorem estimateEventsSize_append_singleton (events : List Event) (e : Event) :
    estimateEventsSize (events ++ [e]) = estimateEventsSize events + estimateEventSize e := by
  simp [estimateEventsSize]

theorem Isolated.append (h : Isolated l appended) (e : Event)
    (hfits : (l.openWindow.all fun window => window.canAppend e) = true) :
    Isolated (appendToWindow e l) (appended ++ [e]) := by
  -- the window the event goes into: the open one, or one opened for it
  obtain ⟨window, hwin, hheld, hunique, hclaim⟩ : ∃ window, l.openWindow.getD (newOpenWindow e) = window ∧
      (∀ e' ∈ window.orderedEvents, e' ∈ appended) ∧
      (∀ e' ∈ appended ++ [e], e'.username = window.author ∧
        e'.attribution = window.attribution ∧ e'.target = window.target) ∧
      l.claimed = window.pendingCR := by
    cases hopen : l.openWindow with
    | none =>
      refine ⟨newOpenWindow e, rfl, by simp [newOpenWindow, OpenWindow.orderedEvents], ?_, ?_⟩
      · rw [h.closed.mp hopen]
        simp [newOpenWindow]
      · rw [Loop.claimed, hopen]
        rfl
    | some window =>
      refine ⟨window, rfl, h.held window hopen, ?_, ?_⟩
      · rw [hopen] at hfits
        simp only [Option.all_some, OpenWindow.canAppend, decide_eq_true_eq] at hfits
        intro e' he'
        rcases List.mem_append.mp he' with he' | he'
        · exact h.uniform window hopen e' he'
        · rw [List.mem_singleton.mp he']
          exact ⟨hfits.2.1, hfits.1, hfits.2.2⟩
      · rw [Loop.claimed, hopen]
        rfl
  have hope : (appendToWindow e l).openWindow = some (window.add e) := by
    rw [appendToWindow, hwin]
  refine ⟨by simp [hope], ?_, ?_, ?_, h.pendingWritesBytes, h.distinct, ?_, ?_⟩
  · intro window' hwin' e' he'
    obtain rfl := Option.some.inj (hope.symm.trans hwin')
    rcases orderedEvents_add window e e' he' with rfl | hold
    · simp
    · exact List.mem_append_left _ (hheld e' hold)
  · intro window' hwin'
    obtain rfl := Option.some.inj (hope.symm.trans hwin')
    exact hunique
  · rw [estimateEventsSize_append_singleton, ← h.windowBytes]
    rfl
  · intro window' id hwin' hid
    obtain rfl := Option.some.inj (hope.symm.trans hwin')
    -- a window that is claimed was open before
    cases hopen : l.openWindow with
    | none =>
      rw [Loop.claimed, hopen] at hclaim
      exact absurd (hclaim.trans hid) (by simp)
    | some old =>
      rw [hopen, Option.getD_some] at hwin
      subst hwin
      exact h.claimed old id hopen hid
  · intro p hp hpa
    have hname := h.attached p hp hpa
    rw [hclaim] at hname
    rw [Loop.claimed, hope]
    exact hname

theorem Isolated.whileOpen_eq (h : Isolated l appended) : whileOpen l appended = appended := by
  unfold whileOpen
  split
  · rename_i hnone
    exact (h.closed.mp hnone).symm
  · rfl

theorem Isolated.whileOpen_closed (h : Isolated l []) (events : List Event) : whileOpen l events = [] :=
  if_pos h.openWindow_eq_none

theorem Isolated.event [DecidableEq H] [EmptyCollection T] (h : Isolated l appended) (e : Event) :
    Isolated (handleEvent env cfg e l) (appendedAfterEvent env cfg e l appended) := by
  unfold appendedAfterEvent
  split
  · rename_i hgate
    rw [handleEvent, if_pos hgate]
    exact h.next
  · rename_i hgate
    generalize hext : (if (l.openWindow.all fun window => window.canAppend e) = true
      then appended ++ [e] else [e]) = extended
    -- what is appended to: the window as it was, or none
    have happend : Isolated (appendToWindow e
        (if (l.openWindow.all fun window => window.canAppend e) = true then l.next
          else applyDeferredHeals env cfg
            (maybeSchedulePush env cfg (finalizeOpenWindow env cfg l.next).1))) extended := by
      rw [← hext]
      split
      · rename_i hfits
        exact h.next.append e hfits
      · have hclose := ((h.next.finalize env cfg "").schedulePush env cfg).deferredHeals env cfg
        refine hclose.append e ?_
        rw [hclose.openWindow_eq_none]
        rfl
    have hhand : Isolated (handleEvent env cfg e l) extended ∨
        Isolated (handleEvent env cfg e l) [] := by
      rw [handleEvent, if_neg hgate]
      simp only
      generalize (if (l.openWindow.all fun window => window.canAppend e) = true then l.next
        else applyDeferredHeals env cfg
          (maybeSchedulePush env cfg (finalizeOpenWindow env cfg l.next).1)) = l₁ at happend ⊢
      split
      · exact Or.inr ((happend.finalize env cfg "").schedulePush env cfg)
      · exact Or.inl (happend.congr rfl rfl happend.pendingWritesBytes rfl)
    rcases hhand with hopen | hclose
    · rw [hopen.whileOpen_eq]
      exact hopen
    · rw [hclose.whileOpen_closed]
      exact hclose

theorem Isolated.events [DecidableEq H] [EmptyCollection T] (events : List Event)
    (h : Isolated l appended) :
    Isolated (events.foldl (fun s e => handleEvent env cfg e s) l)
      (appendedAfterEvents env cfg events l appended) := by
  induction events generalizing l appended with
  | nil => exact h
  | cons e events ih => exact ih (h.event env cfg e)

/-! ## 8. Serving requests -/

/-- The window is still the one of these events, or has closed. -/
def IsolatedOrClosed (l : Loop H T) (appended : List Event) : Prop :=
  Isolated l appended ∨ Isolated l []

theorem IsolatedOrClosed.map (h : IsolatedOrClosed l appended)
    (hkept : ∀ events, Isolated l events → IsolatedOrClosed l' events) :
    IsolatedOrClosed l' appended := by
  rcases h with h | h
  · exact hkept appended h
  · exact Or.inr ((hkept [] h).elim id id)

theorem keptByService_isolated [DecidableEq H] [EmptyCollection T] (appended : List Event) :
    KeptByService env cfg (fun l : Loop H T => IsolatedOrClosed l appended) where
  next _ h := h.map (fun _ hs => Or.inl hs.next)
  timers _ _ _ h := h.map (fun _ hs => Or.inl (hs.congr rfl rfl hs.pendingWritesBytes rfl))
  attach _ h := h.map (fun _ hs => Or.inl (hs.attach env))
  reject _ id _ hclaim h := h.map (fun _ hs => Or.inl (hs.resolve env cfg id _ _ hclaim))
  close _ h := h.map (fun _ hs => Or.inr ((hs.finalize env cfg "").schedulePush env cfg))
  heals _ h := h.map (fun _ hs => Or.inl (hs.deferredHeals env cfg))

/-! ## 9. Turns and runs -/

/-- A push started by its timer, the only one that may find a window open, carries no request that
    claims this window. -/
def TimedPushFree (l : Loop H T) : Wake → Prop
  | .pushTimer => l.ClaimRidesNone
  | _ => True

instance (l : Loop H T) (wake : Wake) : Decidable (TimedPushFree l wake) :=
  match wake with
  | .pushTimer => inferInstanceAs (Decidable l.ClaimRidesNone)
  | .item _ | .commitTimer | .attachTimer | .shutdown => instDecidableTrue

section

variable (h : Isolated l appended)

include h

theorem Isolated.shutdown [DecidableEq H] [EmptyCollection T] :
    Isolated (handleShutdown env cfg l) [] := by
  have hdrain : Isolated (applyDeferredHeals env cfg (finalizeOpenWindow env cfg l).1) [] :=
    (h.finalize env cfg "").deferredHeals env cfg
  unfold handleShutdown
  simp only
  split
  · have hpush := hdrain.push env cfg hdrain.claimRidesNone
    exact hpush.congr rfl rfl hpush.pendingWritesBytes rfl
  · exact hdrain.congr rfl rfl hdrain.pendingWritesBytes rfl

theorem Isolated.resyncRequest [DecidableEq H] [EmptyCollection T] (r : ResyncRequest) :
    IsolatedOrClosed (handleResyncRequest env cfg r l) appended := by
  unfold handleResyncRequest
  split
  · unfold stashDeferredHeal
    split
    · exact Or.inl (h.congr rfl rfl h.pendingWritesBytes rfl)
    · exact Or.inl (h.congr rfl rfl h.pendingWritesBytes rfl)
  · rename_i hdue
    refine Or.inr (h.resync env cfg r (fun hheal => h.closed.mp ?_))
    by_contra hopen
    exact hdue ⟨hheal, hopen⟩

theorem Isolated.wake [DecidableEq H] [EmptyCollection T] (wake : Wake)
    (hfree : TimedPushFree l wake) :
    IsolatedOrClosed (handleWake env cfg wake l) (appendedAfterWake env cfg l appended wake) := by
  cases wake with
  | item i =>
    cases i with
    | attach r => exact Or.inl (h.register env r)
    | resync r => exact h.resyncRequest env cfg r
    | write r =>
      simp only [handleWake, handleQueueItem, appendedAfterWake]
      split
      · split
        · exact Or.inl h.next
        · exact Or.inr (h.next.atomic env cfg r)
      · exact Or.inl (h.events env cfg r.events)
  | commitTimer =>
    have htimer : Isolated { l.next with commitTimer := none } appended :=
      h.congr rfl rfl h.pendingWritesBytes rfl
    exact Or.inr ((htimer.finalize env cfg "").schedulePush env cfg)
  | pushTimer =>
    have htimer : Isolated { l.next with pushTimer := none } appended :=
      h.congr rfl rfl h.pendingWritesBytes rfl
    exact Or.inl (htimer.push env cfg hfree)
  | attachTimer => exact Or.inl (h.congr rfl rfl h.pendingWritesBytes rfl)
  | shutdown => exact Or.inr (h.shutdown env cfg)

theorem Isolated.turn [DecidableEq H] [EmptyCollection T] (wake : Wake)
    (hfree : TimedPushFree l wake) :
    Isolated (turn env cfg l wake) (appendedAfterTurn env cfg l wake appended) := by
  unfold appendedAfterTurn
  split
  · rename_i hidle
    rw [Git.turn, if_pos hidle]
    exact h
  · rename_i hready
    have hhandled := h.wake env cfg wake hfree
    generalize appendedAfterWake env cfg l appended wake = events at hhandled ⊢
    have hturn : IsolatedOrClosed (Git.turn env cfg l wake) events := by
      rw [Git.turn, if_neg hready]
      exact (keptByService_isolated env cfg events).afterWake hhandled
    rcases hturn with hopen | hclose
    · rw [hopen.whileOpen_eq]
      exact hopen
    · rw [hclose.whileOpen_closed]
      exact hclose

end

theorem isolated_initialLoop : Isolated (initialLoop repo remote) [] :=
  ⟨by simp [initialLoop], by simp [initialLoop], by simp [initialLoop], rfl, rfl, List.nodup_nil,
    by simp [initialLoop], by simp [initialLoop]⟩

/-- In every state of a run whose timed pushes carry no request that claims the open window: the
    events of the window are of one author, attribution and target, the two counters are the sizes
    of what they count, and the window and the attached request name each other. -/
theorem windows_stay_isolated [DecidableEq H] [EmptyCollection T] (wakes : List Wake)
    (hfree : AllSteps (turn env cfg) TimedPushFree (initialLoop repo remote) wakes) :
    let reached := windowedRun env cfg repo remote wakes
    reached.loop = run env cfg repo remote wakes ∧
    Isolated reached.loop reached.appended ∧
    (reached.loop.openWindow = none → reached.loop.windowBytes = 0) ∧
    (∀ p ∈ reached.loop.pendingCRs, ∀ q ∈ reached.loop.pendingCRs,
      p.attached = true → q.attached = true → p = q) := by
  intro reached
  have hlifted : AllSteps (windowedTurn env cfg) (fun s wake => TimedPushFree s.loop wake)
      ⟨initialLoop repo remote, []⟩ wakes :=
    hfree.lift WindowedLoop.loop (fun _ _ => rfl)
  have hisolated : Isolated reached.loop reached.appended :=
    hlifted.invariant (P := fun s : WindowedLoop H T => Isolated s.loop s.appended)
      (fun s wake hok hs => hs.turn env cfg wake hok) (isolated_initialLoop repo remote)
  refine ⟨windowedRun_loop env cfg repo remote wakes, hisolated, ?_, ?_⟩
  · intro hnone
    rw [hisolated.windowBytes, hisolated.closed.mp hnone]
    rfl
  · intro p hp q hq
    exact hisolated.attached_unique hp hq

def threeWindows (last : String) : List Wake :=
  [sampleWrite "set", sampleAttach "first", sampleWrite "set", sampleAttach "second",
    resentAttach last, sampleWrite "set", .pushTimer]

def cooldownEnv (tick : Nat) : World (freeStore (List Nat)) :=
  { sampleWorld with now := if tick < 32 then 0 else 10, order_perm := order_refl }

theorem three_windows_stay_isolated :
    let reached := windowedRun cooldownEnv windowConfig freshClone mainOnly (threeWindows "third")
    reached.loop.claimed = some (sampleRequest "third") ∧ reached.appended = [sampleEvent "set"] ∧
      reached.loop.lastPushAt = some 10 ∧ Isolated reached.loop reached.appended := by
  have hisolated := windows_stay_isolated cooldownEnv windowConfig freshClone mainOnly
    (threeWindows "third") (by decide +kernel)
  exact ⟨by decide +kernel, by decide +kernel, by decide +kernel, hisolated.2.1⟩

/-! ## 10. A claim that a push takes away -/

/-- The window names a request that is not pending. -/
def Stranded (id : CommitRequestId) (l : Loop H T) : Prop :=
  l.claimed = some id ∧ ∀ p ∈ l.pendingCRs, p.id ≠ id
  deriving Decidable

theorem Stranded.resolve (h : Stranded id l) (other : CommitRequestId) (result : FinalizeResult H)
    (carried : Option (PendingWrite H × Nat)) :
    Stranded id (resolveCommitRequest env cfg other result carried l) :=
  ⟨h.1, fun p hp => h.2 p (mem_removePending.mp hp).1⟩

theorem Stranded.resolvePushed
    (h : Stranded id l) : Stranded id (resolvePushedCommitRequests env cfg writes l) := by
  induction writes generalizing l with
  | nil => exact h
  | cons pw rest ih =>
    rw [resolvePushedCommitRequests]
    split
    · exact ih (h.resolve env cfg _ _ _)
    · exact ih h

theorem stranded_of_pushed (hclaim : l.claimed = some id)
    (hpw : pw ∈ writes) (hreq : pw.commitRequest = some id)
    (hsha : pw.commitSHA ≠ none) :
    Stranded id (resolvePushedCommitRequests env cfg writes l) := by
  induction writes generalizing l with
  | nil => simp at hpw
  | cons first rest ih =>
    rw [resolvePushedCommitRequests]
    rcases List.mem_cons.mp hpw with rfl | hrest
    · obtain ⟨sha, hsha⟩ := Option.ne_none_iff_exists'.mp hsha
      simp only [hreq, hsha]
      refine Stranded.resolvePushed env cfg rest ⟨hclaim, ?_⟩
      exact fun p hp => (mem_removePending.mp hp).2
    · split
      · exact ih hclaim hrest
      · exact ih hclaim hrest

theorem Stranded.processDue [DecidableEq H] [EmptyCollection T] (due : List CommitRequestId)
    (h : Stranded id l) : Stranded id (processDue env cfg due l) := by
  induction due generalizing l with
  | nil => exact h
  | cons other due ih =>
    rw [Git.processDue]
    split
    · exact ih h
    · rename_i hpend
      split
      · -- only the stranded request claims the window, and it is not pending
        rename_i hclaim
        obtain rfl := Option.some.inj (h.1.symm.trans hclaim)
        exact absurd (List.all_eq_true.mpr (fun p hp => decide_eq_true (h.2 p hp))) hpend
      · exact ih (h.resolve env cfg _ _ _)

theorem Stranded.service [DecidableEq H] [EmptyCollection T] (h : Stranded id l) :
    Stranded id (serviceCommitRequests env cfg l) := by
  have hattach : attachWaitingCommitRequests env l = l := by
    unfold attachWaitingCommitRequests
    split
    · rfl
    · rename_i window hopen
      have hclaim := h.1
      rw [Loop.claimed, hopen] at hclaim
      exact if_pos (by rw [show window.pendingCR = some id from hclaim]; simp)
  unfold serviceCommitRequests
  split
  · exact h
  · rw [hattach]
    have hnext : Stranded id l.next := h
    exact hnext.processDue env cfg _

/-- A timed push that lands a request which claims the open window leaves the window with a claim
    that is not pending. -/
theorem landed_push_strands_claim [DecidableEq H] [EmptyCollection T] (hclaimed : l.claimed = some id)
    (hready : (l.stopped || !wakeReady env .pushTimer l) = false) {w : Worker H T}
    {writes : List (PendingWrite H)}
    (hpush : pushPendingCommits env cfg.branch l.pendingWrites l.next.w = (w, writes, true))
    {pw : PendingWrite H} (hpw : pw ∈ writes) (hreq : pw.commitRequest = some id)
    (hsha : pw.commitSHA ≠ none) : Stranded id (turn env cfg l .pushTimer) := by
  have hhand : Stranded id (handleWake env cfg .pushTimer l) := by
    simp only [handleWake, pushPending]
    split
    · rename_i hnone
      rw [show l.pendingWrites = [] from hnone, pushPendingCommits, if_pos rfl] at hpush
      simp [← (triple_inj hpush).2.1] at hpw
    · rw [show pushPendingCommits env cfg.branch l.next.pendingWrites l.next.w = (w, writes, true)
        from hpush]
      exact stranded_of_pushed env cfg writes hclaimed hpw hreq hsha
  rw [turn, if_neg (by simp [hready])]
  simp only
  split
  · exact hhand
  · have hserve := hhand.service env cfg
    -- the window is still open, so no deferred heal can close it
    have hopen : (serviceCommitRequests env cfg (handleWake env cfg .pushTimer l)).openWindow ≠
        none := by
      intro hnone
      have hclaim := hserve.1
      rw [Loop.claimed, hnone] at hclaim
      cases hclaim
    rw [applyDeferredHeals, if_pos hopen]
    exact hserve

theorem landed_push_strands_second : Stranded (sampleRequest "second") (turn cooldownEnv windowConfig
    (run cooldownEnv windowConfig freshClone mainOnly (threeWindows "second").dropLast) .pushTimer) := by
  generalize hl : run cooldownEnv windowConfig freshClone mainOnly _ = l
  obtain ⟨hclaimed, hready, hpushed, pw, hpw, hreq, hsha⟩ : l.claimed = some (sampleRequest "second") ∧
      (l.stopped || !wakeReady cooldownEnv .pushTimer l) = false ∧
      let pushed := (pushPendingCommits cooldownEnv "main" l.pendingWrites l.next.w).2
      pushed.2 = true ∧ ∃ pw ∈ pushed.1, pw.commitRequest = some (sampleRequest "second") ∧
        pw.commitSHA ≠ none := by
    subst hl
    decide +kernel
  exact landed_push_strands_claim cooldownEnv windowConfig hclaimed hready
    (Prod.ext rfl (Prod.ext rfl hpushed)) hpw hreq hsha

-- The second request is sent again while the write it rides waits for the cooldown: it claims the
-- third window, and the push of the second takes it away.
theorem push_takes_claim_away : Stranded (sampleRequest "second")
      (run cooldownEnv windowConfig freshClone mainOnly (threeWindows "second")) := by
  decide +kernel

end GitopsReverser.Git
