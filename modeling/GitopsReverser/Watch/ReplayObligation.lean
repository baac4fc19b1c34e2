import GitopsReverser.Git.RenderFidelityGate
import GitopsReverser.Reasoning.Runs
import GitopsReverser.Watch.TargetWatch

/-!
# ReplayObligation — a declaration streams only after it has replayed

The first session of a declaration always replays. A later one may resume from a cursor, which
says nothing about a replay of this declaration: the cursor is durable and may be older than it.
Every declaration begins a render fidelity epoch, which only the replays enqueued under it complete.
-/

namespace GitopsReverser.Watch

open Reasoning
open Git (RenderFidelityGate ScopeKey RenderDivergence)

variable {B D X : Type} (cfg : WatchConfig B D X)

def TargetWatch.streaming (w : TargetWatch B D X) : Bool :=
  w.stream.any (fun s => decide (s.state = .streaming))

/-- The resync has been applied or refused, or its reply is still to come. -/
def ResyncFate.Answers : ResyncFate → Prop
  | .failed => False
  | .timedOut => False
  | _ => True

/-- The watch of a scope, with the epoch that its declaration began. -/
structure EpochWatch (B D X : Type) where
  watch : TargetWatch B D X
  epoch : Nat

def epochStep [DecidableEq X] (s : EpochWatch B D X) (input : WatchInput B) : EpochWatch B D X :=
  ⟨watchStep cfg s.watch input, match input with
    | .declared _ => s.epoch + 1
    | _ => s.epoch⟩

/-- No session finds a cursor before the declaration has enqueued a replay, every replay is enqueued
    under the declaration's epoch, no reply is a transient error or a time-out, and no declaration
    takes over a stream that is marked `Streaming`. -/
def ReplaysFirst [DecidableEq X] (s : EpochWatch B D X) : WatchInput B → Prop
  | .session a =>
    (s.watch.resumeFromCursor = true → lookupTargetWatchCursor cfg a s.watch ≠ none →
      s.watch.resyncs ≠ []) ∧
    ((watchStep cfg s.watch (.session a)).resyncs ≠ s.watch.resyncs → a.epoch = s.epoch)
  | .event ev a =>
    (watchStep cfg s.watch (.event ev a)).resyncs ≠ s.watch.resyncs → a.epoch = s.epoch
  | .reply _ fate => fate.Answers
  | .declared force => force = true ∨ s.watch.streaming = false
  | _ => True

/-- The resyncs of this declaration all answer for it, and a stream that is open to live events
    has one. -/
structure Replayed (w : TargetWatch B D X) : Prop where
  answers : ∀ r ∈ w.resyncs, r.fate.Answers
  streaming : w.streaming = true → w.resyncs ≠ []
  live : w.phase.isLive = true → w.resyncs ≠ []

/-! ## 1. Sessions -/

section
variable {w : TargetWatch B D X} (h : ∀ r ∈ w.resyncs, r.fate.Answers)
include h

theorem replayed_endSession (err : String) : Replayed (endSession err w) :=
  ⟨h, by simp [endSession, mark, TargetWatch.streaming], by simp [endSession, Phase.isLive]⟩

theorem replayed_blockedSession (err text : String) : Replayed (blockedSession err text w) :=
  replayed_endSession h _

variable (a : Answers B)

theorem replayed_completeReplay (desired : List (DesiredResource D))
    (revision : String) (objects : List (Unstructured B)) (message : String) (next : Phase B D) :
    Replayed (completeReplay cfg a desired revision objects message next w) := by
  -- the new resync still awaits its reply
  have hmore : ∀ r ∈ w.resyncs ++ [⟨desired, revision, a.epoch, .awaiting⟩], r.fate.Answers := by
    intro r hr
    rcases List.mem_append.mp hr with hr | hr
    · exact h r hr
    · rw [List.mem_singleton.mp hr]
      trivial
  unfold completeReplay enqueueReplayResync
  cases a.enqueue with
  | failed text => exact replayed_endSession h text
  | queueFull => exact replayed_endSession h _
  | enqueued =>
    simp only
    split
    · exact replayed_endSession hmore _
    · rename_i w₂ hrecord
      obtain ⟨hresyncs, -⟩ := recordTargetWatchCursor_frame cfg hrecord
      refine ⟨?_, ?_, ?_⟩
      · simpa [mark, hresyncs] using hmore
      · simp [mark, hresyncs]
      · simp [mark, hresyncs]

theorem replayed_targetWatchListAndStream : Replayed (targetWatchListAndStream cfg a w) := by
  unfold targetWatchListAndStream
  split
  · exact replayed_blockedSession h _ _
  · split
    · exact replayed_blockedSession h _ _
    · exact replayed_completeReplay cfg h a _ _ _ _ _

theorem replayed_startReplay (cursorExpired : Bool) : Replayed (startReplay cfg a cursorExpired w) := by
  unfold startReplay
  cases a.replayOpen with
  | opened => exact ⟨h, by simp [mark, TargetWatch.streaming], by simp [Phase.isLive]⟩
  | failed text status =>
    simp only
    split
    · apply replayed_targetWatchListAndStream cfg
      exact h
    · exact replayed_blockedSession h _ _

theorem replayed_session
    (hcursor : w.resumeFromCursor = true → lookupTargetWatchCursor cfg a w ≠ none → w.resyncs ≠ []) :
    Replayed (targetWatchReplayAndStream cfg a w) := by
  unfold targetWatchReplayAndStream
  split
  · rename_i cursor hresyncs hlookup
    -- a resumed stream needs a replay from before
    have hne : w.resyncs ≠ [] := hcursor hresyncs (by simp [hlookup])
    cases a.resumeOpen with
    | opened => exact ⟨h, fun _ => hne, fun _ => hne⟩
    | failed text status =>
      simp only
      split
      · exact replayed_startReplay cfg h a true
      · exact replayed_blockedSession h _ _
  · exact replayed_startReplay cfg h a false

end

/-- The resyncs of a declaration carry its epoch. -/
def CarryEpoch (epoch : Nat) (resyncs : List (ReplayResync D)) : Prop :=
  ∀ r ∈ resyncs, r.epoch = epoch

section

variable {w w' : TargetWatch B D X} {a : Answers B} (h : CarryEpoch epoch w.resyncs)
  (hepoch : w'.resyncs ≠ w.resyncs → a.epoch = epoch)

include h hepoch

theorem carryEpoch_snapshotted (hsnapshot : Snapshotted a desired revision objects w w') :
    CarryEpoch epoch w'.resyncs := by
  have hknown := hepoch (by simp [hsnapshot.resyncs])
  intro r hr
  rw [hsnapshot.resyncs, List.mem_append, List.mem_singleton] at hr
  rcases hr with hr | rfl
  · exact h r hr
  · exact hknown

theorem carryEpoch_listed (hlisted : Listed cfg a w w') : CarryEpoch epoch w'.resyncs := by
  rcases hlisted with hsame | ⟨items, revision, -, hsnapshot⟩
  · rw [hsame.resyncs]
    exact h
  · exact carryEpoch_snapshotted h hepoch hsnapshot

end

theorem carryEpoch_settleResync (index : Nat) (fate : ResyncFate) {resyncs : List (ReplayResync D)}
    (h : CarryEpoch epoch resyncs) : CarryEpoch epoch (settleResync index fate resyncs) := by
  intro r hr
  rw [settleResync, List.mem_mapIdx] at hr
  obtain ⟨i, hi, rfl⟩ := hr
  have hkept := h _ (List.getElem_mem hi)
  split <;> exact hkept

/-! ## 2. Live events -/

section

variable [DecidableEq X]

theorem replayed_routeAndRecord (ev : WatchEvent B) (a : Answers B) {w : TargetWatch B D X}
    (h : Replayed w) : Replayed (routeAndRecord cfg ev a w) := by
  obtain ⟨hresyncs, hstream, hphase⟩ := routeLiveTargetWatchEvent_frame cfg ev a w
  unfold routeAndRecord
  split
  · rename_i w₁ err hroute
    rw [hroute] at hresyncs
    exact replayed_endSession (by rw [hresyncs]; exact h.answers) err
  · rename_i w₁ rv hroute
    rw [hroute] at hresyncs hstream hphase
    split
    · exact replayed_endSession (by rw [hresyncs]; exact h.answers) _
    · rename_i w₂ hrecord
      obtain ⟨hresyncs₂, hstream₂, hphase₂, -, -⟩ := recordTargetWatchCursor_frame cfg hrecord
      have hresyncs' : w₂.resyncs = w.resyncs := hresyncs₂.trans hresyncs
      refine ⟨by rw [hresyncs']; exact h.answers, ?_, ?_⟩
      · rw [TargetWatch.streaming, hstream₂, hstream, hresyncs']
        exact h.streaming
      · rw [hphase₂, hphase, hresyncs']
        exact h.live

theorem replayed_handleEvent (ev : WatchEvent B) (a : Answers B) {w : TargetWatch B D X}
    (h : Replayed w) : Replayed (handleEvent cfg ev a w) := by
  unfold handleEvent
  split
  · exact h
  · exact h
  · split
    · exact replayed_endSession h.answers _
    · exact ⟨h.answers, h.streaming, by simp [Phase.isLive]⟩
    · exact replayed_completeReplay cfg h.answers a _ _ _ _ _
  · exact replayed_routeAndRecord cfg ev a h
  · split
    · exact replayed_startReplay cfg h.answers a true
    · exact replayed_routeAndRecord cfg ev a h
  · split
    · exact h
    · split
      · exact replayed_endSession h.answers _
      · exact replayed_routeAndRecord cfg ev a h

/-! ## 3. The run -/

theorem answers_settleResync (index : Nat) (fate : ResyncFate) (hfate : fate.Answers)
    {resyncs : List (ReplayResync D)} (h : ∀ r ∈ resyncs, r.fate.Answers) :
    ∀ r ∈ settleResync index fate resyncs, r.fate.Answers := by
  intro r hr
  rw [settleResync, List.mem_mapIdx] at hr
  obtain ⟨i, hi, rfl⟩ := hr
  split
  · exact hfate
  · exact h _ (List.getElem_mem hi)

theorem replayed_step (s : EpochWatch B D X) (input : WatchInput B) (hok : ReplaysFirst cfg s input)
    (h : Replayed s.watch) : Replayed (watchStep cfg s.watch input) := by
  cases input with
  | session a =>
    simp only [watchStep]
    split
    · exact replayed_session cfg h.answers a hok.1
    · exact h
  | event ev a => exact replayed_handleEvent cfg ev a h
  | closed =>
    simp only [watchStep]
    split
    · exact replayed_endSession h.answers _
    · exact h
  | cancelled => exact ⟨h.answers, h.streaming, by simp [watchStep, Phase.isLive]⟩
  -- a reply changes the fate of a resync, never how many there are
  | reply index fate =>
    have hkeep : settleResync index fate s.watch.resyncs = [] → s.watch.resyncs = [] := by
      simp [settleResync]
    exact ⟨answers_settleResync index fate hok h.answers,
      fun hs hnil => h.streaming hs (hkeep hnil), fun hp hnil => h.live hp (hkeep hnil)⟩
  -- a new declaration starts without resyncs, on a stream that is not marked
  | declared force =>
    refine ⟨by simp [watchStep, redeclaredWatch, declaredWatch], fun hs => absurd hs ?_, by
      simp [watchStep, redeclaredWatch, declaredWatch, Phase.isLive]⟩
    rcases hok with rfl | hquiet
    · simp [watchStep, redeclaredWatch, TargetWatch.streaming, initialReplay]
    · cases force with
      | true => simp [watchStep, redeclaredWatch, TargetWatch.streaming, initialReplay]
      | false =>
        unfold TargetWatch.streaming at hquiet ⊢
        cases hstream : s.watch.stream with
        | none => simp [watchStep, redeclaredWatch, hstream, initialReplay]
        | some status => simpa [watchStep, redeclaredWatch, hstream] using hquiet

theorem carryEpoch_step (s : EpochWatch B D X) (input : WatchInput B) (hok : ReplaysFirst cfg s input)
    (h : CarryEpoch s.epoch s.watch.resyncs) :
    CarryEpoch (epochStep cfg s input).epoch (watchStep cfg s.watch input).resyncs := by
  have heffect := watchStep_effect cfg s.watch input
  cases input with
  | declared force => simp [CarryEpoch, watchStep, redeclaredWatch, declaredWatch]
  | reply index fate => exact carryEpoch_settleResync index fate h
  | closed | cancelled =>
    cases heffect with
    | same hsame =>
      rw [hsame.resyncs]
      exact h
  | session a =>
    cases heffect with
    | same hsame => exact carryEpoch_listed cfg h hok.2 (.inl hsame)
    | opened hlisted => exact carryEpoch_listed cfg h hok.2 hlisted
  | event ev a =>
    cases heffect with
    | same hsame => exact carryEpoch_listed cfg h hok (.inl hsame)
    | reopened _ hlisted => exact carryEpoch_listed cfg h hok hlisted
    | replayed replay replay' objects rv _ _ hsnapshot => exact carryEpoch_snapshotted h hok hsnapshot
    | handled _ hhandled =>
      -- a live event enqueues no replay
      have hsame : (watchStep cfg s.watch (.event ev a)).resyncs = s.watch.resyncs := by
        cases hhandled with
        | ignored hsame => exact hsame.resyncs
        | skipped _ _ _ _ hresyncs _ | refused _ _ _ _ _ hresyncs _ | accepted _ _ _ _ hresyncs _ =>
          exact hresyncs
      rw [hsame]
      exact h

end

/-- The scope has a result in this epoch of its target. -/
def FinishedIn (gate : RenderFidelityGate) (epoch : Nat) : Prop :=
  ∃ state, gate cfg.gitDest.key = some state ∧ state.epoch = epoch ∧
    ∃ result, (ScopeKey.scope cfg.key, result) ∈ state.scopes ∧
      (result.finished = true ∨ result.divergence ≠ none)

theorem mem_setScope (key : ScopeKey) (result : Git.ScopeResult)
    (scopes : List (ScopeKey × Git.ScopeResult)) : (key, result) ∈ Git.setScope key result scopes := by
  unfold Git.setScope
  split
  · rename_i hfound
    obtain ⟨entry, hentry, hkey⟩ := List.any_eq_true.mp hfound
    exact List.mem_map.mpr ⟨entry, hentry, if_pos (by simpa using hkey)⟩
  · simp

/-- A result that is recorded under the gate's epoch finishes the scope. -/
theorem recordScope_finishes {gate : RenderFidelityGate} {state : Git.FidelityState}
    (hgate : gate cfg.gitDest.key = some state)
    (hscope : ScopeKey.scope cfg.key ∈ state.scopes.map Prod.fst)
    (divergence : Option RenderDivergence) :
    FinishedIn cfg (gate.recordScope cfg.gitDest state.epoch (.scope cfg.key) divergence).1
      state.epoch := by
  obtain ⟨entry, hentry, hkey⟩ := List.mem_map.mp hscope
  obtain ⟨found, hfound⟩ : ∃ found,
      state.scopes.find? (fun entry => entry.1 = ScopeKey.scope cfg.key) = some found :=
    Option.isSome_iff_exists.mp (List.find?_isSome.mpr ⟨entry, hentry, by simpa using hkey⟩)
  obtain ⟨key, result⟩ := found
  have hmem := List.mem_of_find?_eq_some hfound
  obtain rfl : key = ScopeKey.scope cfg.key := by simpa using List.find?_some hfound
  simp only [RenderFidelityGate.recordScope, hgate, hfound, ne_eq, not_true_eq_false, if_false]
  split
  · rename_i hdiverged
    exact ⟨state, hgate, rfl, result, hmem, .inr hdiverged.1⟩
  · exact ⟨_, Function.update_self _ _ _, rfl, _, mem_setScope _ _ _, .inl rfl⟩

/-- A replay of the declaration that was applied, was refused or still awaits its reply; what is
    reported of it finishes the scope in the epoch that the gate is in. -/
def HasReplay (s : EpochWatch B D X) : Prop :=
  ∃ r ∈ s.watch.resyncs, r.fate.Answers ∧ r.epoch = s.epoch ∧
    ∀ (gate : RenderFidelityGate) state, gate cfg.gitDest.key = some state → state.epoch = s.epoch →
      ScopeKey.scope cfg.key ∈ state.scopes.map Prod.fst →
      ∀ divergence, FinishedIn cfg
        (gate.recordScope cfg.gitDest r.epoch (.scope cfg.key) divergence).1 s.epoch

/-- Replay obligation: in a run in which no session finds a cursor before its declaration has
    enqueued a replay, every replay is enqueued under the declaration's epoch, no reply is a
    transient error or a time-out and no declaration takes over a `Streaming` stream, a stream is
    `Streaming`, and handles live events, only with a replay of the same declaration that can
    complete its epoch. -/
theorem watch_streams_after_own_replay [DecidableEq X] (cursor : Option String)
    (dedup : String → Option X) (trace : List (WatchNote B D)) (epoch : Nat)
    (inputs : List (WatchInput B))
    (hinputs : AllSteps (epochStep cfg) (ReplaysFirst cfg) ⟨declaredWatch cursor dedup trace, epoch⟩
      inputs) :
    let s := inputs.foldl (epochStep cfg) ⟨declaredWatch cursor dedup trace, epoch⟩
    (s.watch.streaming = true → HasReplay cfg s) ∧
    (s.watch.phase.isLive = true → HasReplay cfg s) := by
  intro s
  have h : Replayed s.watch ∧ CarryEpoch s.epoch s.watch.resyncs := by
    refine hinputs.invariant (P := fun s => Replayed s.watch ∧ CarryEpoch s.epoch s.watch.resyncs)
      (fun s input hok h => ⟨replayed_step cfg s input hok h.1, carryEpoch_step cfg s input hok h.2⟩)
      ⟨⟨?_, ?_, ?_⟩, ?_⟩ <;>
    simp [declaredWatch, initialReplay, TargetWatch.streaming, Phase.isLive, CarryEpoch]
  have hsome : s.watch.resyncs ≠ [] → HasReplay cfg s := by
    intro hne
    obtain ⟨r, hr⟩ := List.exists_mem_of_ne_nil _ hne
    have hepoch := h.2 r hr
    refine ⟨r, hr, h.1.answers r hr, hepoch, fun gate state hgate hstate hscope divergence => ?_⟩
    rw [hepoch, ← hstate]
    exact recordScope_finishes cfg hgate hscope divergence
  exact ⟨fun hs => hsome (h.1.streaming hs), fun hp => hsome (h.1.live hp)⟩

def sampleWatchConfig : WatchConfig Nat Nat Nat where
  gitDest := ⟨"target", "default"⟩
  key := ⟨configMaps, "default"⟩
  ops := ∅
  hasCursors := true
  sanitize := Unstructured.body
  hash := some

def calmAnswers : Answers Nat where
  cursorFound := true
  resumeOpen := .opened
  replayOpen := .opened
  listOpen := .opened
  list := .ok ([], "")
  epoch := 1
  enqueue := .enqueued
  route := .accepted
  storeError := none

def watchFrom (cursor : Option String) (inputs : List (WatchInput Nat)) : TargetWatch Nat Nat Nat :=
  inputs.foldl (watchStep sampleWatchConfig) (declaredWatch cursor (fun _ => none) [])

def replayInputs : List (WatchInput Nat) :=
  [.session calmAnswers, .event (Change.event (.added (sampleObject "a" 1))) calmAnswers,
    .event (initialEventsBookmark sampleBookmark) calmAnswers]

-- First run: the replay cannot be opened and the second session resumes from an older cursor.
-- Second run: the only replay fails at the worker and the stream goes on.
-- Third run: the set is declared again, and the stream keeps its mark.
-- Fourth run: the replay is enqueued under the epoch of the declaration before.
theorem watch_streams_without_replay :
    let resumed := watchFrom (some "5")
      [.session { calmAnswers with replayOpen := .failed "connection refused" none },
        .session calmAnswers]
    let failed := watchFrom none (replayInputs ++ [.reply 0 .failed])
    let kept := watchFrom none (replayInputs ++ [.declared false])
    let stale := (.declared true :: replayInputs).foldl (epochStep sampleWatchConfig)
      ⟨declaredWatch none (fun _ => none) [], 1⟩
    (resumed.streaming = true ∧ resumed.phase = .resumed ∧ resumed.resyncs = []) ∧
    (failed.streaming = true ∧ failed.resyncs.map (·.fate) = [.failed]) ∧
    (kept.streaming = true ∧ kept.resyncs = []) ∧
    (stale.watch.phase = .live ∧ stale.epoch = 2 ∧ stale.watch.resyncs.map (·.epoch) = [1]) := by
  decide

def resumeInputs : List (WatchInput Nat) :=
  replayInputs ++ [.reply 0 .applied, .closed, .session calmAnswers]

theorem watch_resumes_after_replay :
    let s := resumeInputs.foldl (epochStep sampleWatchConfig)
      ⟨declaredWatch (some "5") (fun _ => none) [], 1⟩
    s.watch.phase = .resumed ∧ HasReplay sampleWatchConfig s := by
  intro s
  have hinputs : AllSteps (epochStep sampleWatchConfig) (ReplaysFirst sampleWatchConfig)
      ⟨declaredWatch (some "5") (fun _ => none) [], 1⟩ resumeInputs :=
    ⟨⟨fun h => absurd h (by decide), fun _ => rfl⟩, fun _ => rfl, fun _ => rfl, trivial, trivial,
      ⟨fun _ _ => by decide, fun _ => rfl⟩, trivial⟩
  exact ⟨by decide, (watch_streams_after_own_replay sampleWatchConfig (some "5") (fun _ => none) [] 1
    resumeInputs hinputs).2 (by decide)⟩

end GitopsReverser.Watch
