import GitopsReverser.Watch.ReplayObligation

/-!
# Terminating — objects that wait for their finalizers

The live path takes a deletion timestamp for a deletion. A replay and a list do not look at it, so
an object whose deletion has been mirrored comes back with the next snapshot that still has it.
-/

namespace GitopsReverser.Watch

open Reasoning

variable {B D X : Type} (cfg : WatchConfig B D X)

/-! ## 1. What a snapshot brings back -/

/-- The deletion of a terminating object was handed to the worker. -/
def WatchNote.mirrorsDeletion (uid : String) : WatchNote B D → Bool
  | .routed u event => decide (u.uid = uid) && u.deletionTimestamp.isSome &&
      decide (event.operation = some .delete)
  | _ => false

/-- The object is still terminating, and Git has been told that it is gone. -/
def revives (older : List (WatchNote B D)) (u : Unstructured B) : Bool :=
  u.deletionTimestamp.isSome && older.any (WatchNote.mirrorsDeletion u.uid)

/-- No snapshot has an object that the notes before it have deleted. -/
def NoneRevived : List (WatchNote B D) → Prop
  | [] => True
  | .snapshot objects :: older => (∀ u ∈ objects, revives older u = false) ∧ NoneRevived older
  | .routed _ _ :: older => NoneRevived older
  | .routeFailed _ _ :: older => NoneRevived older
  | .skipped _ _ :: older => NoneRevived older

def Answers.listed (a : Answers B) : List (Unstructured B) :=
  match a.list with
  | .ok (items, _) => items
  | .error _ => []

/-- The step hands a list of the server to the worker: a session, or the one that follows when a
    resumed watch has expired. -/
def HandsList [DecidableEq X] (w : TargetWatch B D X) : WatchInput B → Prop
  | .session a => (watchStep cfg w (.session a)).resyncs ≠ w.resyncs
  | .event ev a => w.phase = .resumed ∧ (watchStep cfg w (.event ev a)).resyncs ≠ w.resyncs
  | _ => False

/-- The server does not list what it has reported as terminating: neither as a list nor among the
    initial events of a replay. -/
def ListsNoneDeleted [DecidableEq X] (w : TargetWatch B D X) : WatchInput B → Prop
  | .session a => HandsList cfg w (.session a) → ∀ u ∈ a.listed, revives w.trace u = false
  | .event ev a =>
    (HandsList cfg w (.event ev a) → ∀ u ∈ a.listed, revives w.trace u = false) ∧
      (w.phase.isLive = false → ∀ u ∈ replayObjects ev [], revives w.trace u = false)
  | _ => True

section

variable [DecidableEq B] [DecidableEq D] [DecidableEq X] (w : TargetWatch B D X)

instance : (input : WatchInput B) → Decidable (HandsList cfg w input)
  | .session _ => instDecidableNot
  | .event _ _ => instDecidableAnd
  | .closed | .cancelled | .reply _ _ | .declared _ => instDecidableFalse

instance : (input : WatchInput B) → Decidable (ListsNoneDeleted cfg w input)
  | .session a => inferInstanceAs (Decidable (HandsList cfg w (.session a) →
      ∀ u ∈ a.listed, revives w.trace u = false))
  | .event _ _ => instDecidableAnd
  | .closed | .cancelled | .reply _ _ | .declared _ => instDecidableTrue

end

/-! ## 2. The replay under way -/

theorem completeReplay_not_replaying (a : Answers B) (desired : List (DesiredResource D))
    (revision : String) (objects : List (Unstructured B)) (message : String)
    (hnext : next.isLive = true) (w : TargetWatch B D X) (replay : List (DesiredResource D))
    (objects' : List (Unstructured B)) :
    (completeReplay cfg a desired revision objects message next w).phase ≠
      .replaying replay objects' := by
  have hne : next ≠ .replaying replay objects' := by
    rintro rfl
    simp [Phase.isLive] at hnext
  unfold completeReplay
  split
  · simp [endSession]
  · split
    · simp [endSession]
    · exact hne

def BeginsEmpty (w w' : TargetWatch B D X) : Prop :=
  ∀ replay objects, w'.phase = .replaying replay objects →
    replay = [] ∧ objects = [] ∧ w'.trace = w.trace

theorem startReplay_begins (a : Answers B) (cursorExpired : Bool) (w : TargetWatch B D X) :
    BeginsEmpty w (startReplay cfg a cursorExpired w) := by
  intro replay objects hphase
  unfold startReplay at hphase ⊢
  cases hopen : a.replayOpen with
  | opened =>
    simp only [hopen] at hphase ⊢
    obtain ⟨rfl, rfl⟩ := Phase.replaying.inj hphase
    exact ⟨rfl, rfl, rfl⟩
  | failed text status =>
    simp only [hopen] at hphase
    split at hphase
    · -- a list ends in a stream or not at all
      unfold targetWatchListAndStream at hphase
      split at hphase
      · simp [blockedSession, endSession] at hphase
      · split at hphase
        · simp [blockedSession, endSession] at hphase
        · exact absurd hphase (completeReplay_not_replaying cfg _ _ _ _ _ rfl _ _ _)
    · simp [blockedSession, endSession] at hphase

theorem targetWatchReplayAndStream_begins (a : Answers B) (w : TargetWatch B D X) :
    BeginsEmpty w (targetWatchReplayAndStream cfg a w) := by
  unfold targetWatchReplayAndStream
  split
  · split
    · intro replay objects hphase
      simp at hphase
    · split
      · exact startReplay_begins cfg a true _
      · intro replay objects hphase
        simp [blockedSession, endSession] at hphase
  · exact startReplay_begins cfg a false w

theorem routeAndRecord_not_replaying [DecidableEq X] (ev : WatchEvent B) (a : Answers B)
    (hlive : w.phase.isLive = true) (replay : List (DesiredResource D))
    (objects : List (Unstructured B)) :
    (routeAndRecord cfg ev a w).phase ≠ .replaying replay objects := by
  obtain ⟨-, -, hphase⟩ := routeLiveTargetWatchEvent_frame cfg ev a w
  unfold routeAndRecord
  split
  · simp [endSession]
  · rename_i w₁ rv hroute
    rw [hroute] at hphase
    split
    · simp [endSession]
    · rename_i w₂ hrec
      rw [(recordTargetWatchCursor_frame cfg hrec).2.2.1, hphase]
      intro hreplay
      simp [hreplay, Phase.isLive] at hlive

/-- A replay under way has just begun, goes on, or has taken one more event. -/
inductive ReplayStep (w : TargetWatch B D X) (input : WatchInput B) :
    List (DesiredResource D) → List (Unstructured B) → Prop where
  | begun : ReplayStep w input [] []
  | waits {replay : List (DesiredResource D)} {objects : List (Unstructured B)}
      (h : w.phase = .replaying replay objects) : ReplayStep w input replay objects
  | folded {ev : WatchEvent B} {a : Answers B} {replay replay' : List (DesiredResource D)}
      {objects : List (Unstructured B)} (hinput : input = .event ev a)
      (h : w.phase = .replaying replay objects)
      (hfold : foldTargetReplayEvent cfg.sanitize cfg.key.gvr ev replay = .ok (replay', none)) :
      ReplayStep w input replay' (replayObjects ev objects)

variable {objects : List (Unstructured B)} {replay : List (DesiredResource D)}
  {w w' : TargetWatch B D X} {ev : WatchEvent B}

theorem BeginsEmpty.step (h : BeginsEmpty w w') (input : WatchInput B)
    (hphase : w'.phase = .replaying replay objects) :
    w'.trace = w.trace ∧ ReplayStep cfg w input replay objects := by
  obtain ⟨rfl, rfl, htrace⟩ := h replay objects hphase
  exact ⟨htrace, .begun⟩

theorem handleEvent_replaying [DecidableEq X]
    (hphase : (handleEvent cfg ev a w).phase = .replaying replay objects) :
    (handleEvent cfg ev a w).trace = w.trace ∧ ReplayStep cfg w (.event ev a) replay objects := by
  unfold handleEvent at hphase ⊢
  split at hphase
  · rename_i h
    simp [h] at hphase
  · rename_i h
    simp [h] at hphase
  · rename_i replay₀ objects₀ h
    split at hphase
    · simp [endSession] at hphase
    · rename_i replay' hfold
      obtain ⟨rfl, rfl⟩ := Phase.replaying.inj hphase
      exact ⟨rfl, .folded rfl h hfold⟩
    · -- the initial-events bookmark ends the replay
      exact absurd hphase (completeReplay_not_replaying cfg _ _ _ _ _ rfl _ _ _)
  · rename_i h
    exact absurd hphase (routeAndRecord_not_replaying cfg ev a (by rw [h]; rfl) _ _)
  · rename_i h
    split at hphase
    · rename_i hexpire
      rw [if_pos hexpire]
      -- an expired stream is the one event that starts a replay
      have hbegin : BeginsEmpty w (rebuildExpired cfg a w) := startReplay_begins cfg a true _
      exact hbegin.step cfg _ hphase
    · exact absurd hphase (routeAndRecord_not_replaying cfg ev a (by rw [h]; rfl) _ _)
  · rename_i floor h
    split at hphase
    · simp [h] at hphase
    · split at hphase
      · simp [endSession] at hphase
      · exact absurd hphase (routeAndRecord_not_replaying cfg ev a (by rw [h]; rfl) _ _)

theorem watchStep_replaying [DecidableEq X]
    (hphase : (watchStep cfg w input).phase = .replaying replay objects) :
    (watchStep cfg w input).trace = w.trace ∧ ReplayStep cfg w input replay objects := by
  cases input with
  | session a =>
    simp only [watchStep] at hphase ⊢
    split at hphase
    · rename_i hwait
      rw [if_pos hwait]
      exact (targetWatchReplayAndStream_begins cfg a w).step cfg _ hphase
    · rename_i hwait
      rw [if_neg hwait]
      exact ⟨rfl, .waits hphase⟩
  | event ev a => exact handleEvent_replaying cfg hphase
  | closed =>
    simp only [watchStep] at hphase ⊢
    split at hphase
    · simp [endSession] at hphase
    · rename_i hopen
      simp [hphase, Phase.isOpen] at hopen
  | cancelled => simp [watchStep] at hphase
  | reply index fate => exact ⟨rfl, .waits hphase⟩
  | declared force => simp [watchStep, redeclaredWatch, declaredWatch] at hphase

/-! ## 3. The run -/

theorem foldTargetReplayEvent_objects (hfold : foldTargetReplayEvent cfg.sanitize cfg.key.gvr ev
      (desiredFromList cfg.sanitize cfg.key.gvr objects) = .ok (replay', rv)) :
    replay' = desiredFromList cfg.sanitize cfg.key.gvr
      (if rv = none then replayObjects ev objects else objects) := by
  unfold foldTargetReplayEvent at hfold
  split at hfold
  · split at hfold
    · split at hfold
      · obtain ⟨rfl, rfl⟩ := Prod.mk.inj (Except.ok.inj hfold)
        rfl
      · rename_i htype _ _ _ _
        obtain ⟨rfl, rfl⟩ := Prod.mk.inj (Except.ok.inj hfold)
        simp [replayObjects, htype]
    · simp at hfold
  · rename_i htype
    split at hfold
    · rename_i u hu
      obtain ⟨rfl, rfl⟩ := Prod.mk.inj (Except.ok.inj hfold)
      simp [replayObjects, htype, hu, desiredFromList]
    · simp at hfold
  · rename_i htype
    split at hfold
    · rename_i u hu
      obtain ⟨rfl, rfl⟩ := Prod.mk.inj (Except.ok.inj hfold)
      simp [replayObjects, htype, hu, desiredFromList]
    · simp at hfold
  · rename_i htype
    obtain ⟨rfl, rfl⟩ := Prod.mk.inj (Except.ok.inj hfold)
    simp [replayObjects, htype]
  · simp at hfold
  · rename_i htype
    obtain ⟨rfl, rfl⟩ := Prod.mk.inj (Except.ok.inj hfold)
    simp [replayObjects, htype]

theorem mem_replayObjects
    (h : u ∈ replayObjects ev objects) : u ∈ objects ∨ u ∈ replayObjects ev [] := by
  unfold replayObjects at h ⊢
  split at h <;> simp_all

/-- Snapshots and the replay under way leave alone what has been deleted, and every resync is that
    of a snapshot. -/
structure LeavesDeleted (w : TargetWatch B D X) : Prop where
  snapshots : NoneRevived w.trace
  replay : ∀ replay objects, w.phase = .replaying replay objects →
    replay = desiredFromList cfg.sanitize cfg.key.gvr objects ∧ ∀ u ∈ objects, revives w.trace u = false
  desired : ∀ r ∈ w.resyncs, ∃ objects, WatchNote.snapshot objects ∈ w.trace ∧
    r.desired = desiredFromList cfg.sanitize cfg.key.gvr objects

/-- The part of the invariant that the handed over notes and resyncs decide. -/
def Handed (w : TargetWatch B D X) : Prop :=
  NoneRevived w.trace ∧ ∀ r ∈ w.resyncs, ∃ objects, WatchNote.snapshot objects ∈ w.trace ∧
    r.desired = desiredFromList cfg.sanitize cfg.key.gvr objects

theorem Handed.snapshotted (h : Handed cfg w)
    (hdesired : desired = desiredFromList cfg.sanitize cfg.key.gvr objects)
    (hclean : ∀ u ∈ objects, revives w.trace u = false)
    (hsnap : Snapshotted a desired revision objects w w') : Handed cfg w' := by
  rw [Handed, hsnap.trace, hsnap.resyncs]
  refine ⟨⟨hclean, h.1⟩, fun r hr => ?_⟩
  rcases List.mem_append.mp hr with hr | hr
  · obtain ⟨objects', hmem, hr'⟩ := h.2 r hr
    exact ⟨objects', List.mem_cons_of_mem _ hmem, hr'⟩
  · rw [List.mem_singleton.mp hr]
    exact ⟨objects, List.mem_cons_self, hdesired⟩

theorem Handed.listed (h : Handed cfg w)
    (hclear : w'.resyncs ≠ w.resyncs → ∀ u ∈ a.listed, revives w.trace u = false)
    (hlisted : Listed cfg a w w') : Handed cfg w' := by
  rcases hlisted with hsame | ⟨items, revision, hlist, hsnapshot⟩
  · rwa [Handed, hsame.trace, hsame.resyncs]
  · have hclear := hclear (by simp [hsnapshot.resyncs])
    rw [Answers.listed, hlist] at hclear
    exact h.snapshotted cfg rfl hclear hsnapshot

theorem Handed.noted (h : Handed cfg w) (hnote : NoneRevived (note :: w.trace) ↔ NoneRevived w.trace)
    (hres : w'.resyncs = w.resyncs) (htrace : w'.trace = note :: w.trace) : Handed cfg w' := by
  rw [Handed, hres, htrace]
  refine ⟨hnote.mpr h.1, fun r hr => ?_⟩
  obtain ⟨objects, hmem, hr'⟩ := h.2 r hr
  exact ⟨objects, List.mem_cons_of_mem _ hmem, hr'⟩

theorem Handed.settled (h : Handed cfg w) (hres : w'.resyncs = settleResync index fate w.resyncs)
    (htrace : w'.trace = w.trace) : Handed cfg w' := by
  rw [Handed, hres, htrace]
  refine ⟨h.1, fun r hr => ?_⟩
  rw [settleResync, List.mem_mapIdx] at hr
  obtain ⟨i, hi, rfl⟩ := hr
  have hdesired := h.2 _ (List.getElem_mem hi)
  split <;> exact hdesired

theorem handed_step [DecidableEq X] (hok : ListsNoneDeleted cfg w input) (h : LeavesDeleted cfg w) :
    Handed cfg (watchStep cfg w input) := by
  have hhandled : Handed cfg w := ⟨h.snapshots, h.desired⟩
  cases watchStep_effect cfg w input with
  | same hsame => rwa [Handed, hsame.trace, hsame.resyncs]
  | opened hlisted => exact hhandled.listed cfg hok hlisted
  | reopened hphase hlisted => exact hhandled.listed cfg (fun hnew => hok.1 ⟨hphase, hnew⟩) hlisted
  | replayed replay replay' objects rv hphases hfold hsnap =>
    obtain ⟨rfl, hclean⟩ := h.replay replay objects hphases
    exact hhandled.snapshotted cfg (foldTargetReplayEvent_objects cfg hfold) hclean hsnap
  | handled hlive hhand =>
    cases hhand with
    | ignored hsame => rwa [Handed, hsame.trace, hsame.resyncs]
    | skipped u event _ _ hres htrace => exact hhandled.noted cfg Iff.rfl hres htrace
    | refused u event _ _ _ hres htrace => exact hhandled.noted cfg Iff.rfl hres htrace
    | accepted u event _ _ hres htrace => exact hhandled.noted cfg Iff.rfl hres htrace
  | settled hres htrace _ => exact hhandled.settled cfg hres htrace
  | declared hres htrace _ =>
    rw [Handed, hres, htrace]
    exact ⟨hhandled.1, by simp⟩

theorem leavesDeleted_step [DecidableEq X] (w : TargetWatch B D X) (input : WatchInput B)
    (hok : ListsNoneDeleted cfg w input) (h : LeavesDeleted cfg w) :
    LeavesDeleted cfg (watchStep cfg w input) := by
  obtain ⟨hsnapshot, hdesired⟩ := handed_step cfg hok h
  refine ⟨hsnapshot, fun replay objects hphase => ?_, hdesired⟩
  obtain ⟨htrace, hstep⟩ := watchStep_replaying cfg hphase
  rw [htrace]
  cases hstep with
  | begun => exact ⟨rfl, by simp⟩
  | waits hphase₀ => exact h.replay replay objects hphase₀
  | folded hinput hphase₀ hfold =>
    subst hinput
    obtain ⟨rfl, hclean⟩ := h.replay _ _ hphase₀
    refine ⟨foldTargetReplayEvent_objects cfg hfold, fun u hu => ?_⟩
    rcases mem_replayObjects hu with hu | hu
    · exact hclean u hu
    · exact hok.2 (by rw [hphase₀]; rfl) u hu

def terminatingObject (name : String) : Unstructured Nat :=
  { sampleObject name 1 with deletionTimestamp := some "2026-01-01T00:00:00Z" }

def redeclaredOver (listed : Unstructured Nat) : List (WatchInput Nat) :=
  replayInputs ++ [.event (Change.event (.modified (terminatingObject "a"))) streamOnly, .declared false,
    .session streamOnly, .event (Change.event (.added listed)) streamOnly,
    .event (initialEventsBookmark sampleBookmark) streamOnly]
where
  streamOnly : Answers Nat := { calmAnswers with list := .error "forbidden" }

end GitopsReverser.Watch
