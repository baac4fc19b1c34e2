import GitopsReverser.Reasoning.Lists
import GitopsReverser.Git.PendingWrite
import GitopsReverser.Reasoning.Accumulate
import GitopsReverser.Watch.GateDrops

/-!
# Retention — what the prune policy keeps, summed over the scopes of a target

Every applied resync reports how many documents its policy kept. The roll-up is told by the epoch
of a report whether the report is of the current watch set; the epoch is the one the manager knew
when the resync was enqueued, and it starts again when a target is forgotten.
-/

namespace GitopsReverser.Watch

open Reasoning
open Git (PruneMode RenderDivergence)

/-! ## 1. The roll-up -/

structure TargetRetention where
  epoch : Nat
  scopes : Dict TargetWatchKey Nat
  mode : PruneMode
  observed : Int

def TargetRetention.total (s : TargetRetention) : Nat := (s.scopes.entries.map Sigma.snd).sum

abbrev Retention := String → Option TargetRetention

/-- `RetentionSummary`; the observed time is none when nothing was reported. -/
structure RetentionSummary where
  reported : Bool
  mode : PruneMode
  retainedDocuments : Nat
  observedTime : Option Int
  deriving DecidableEq

def TargetRetention.record (s : TargetRetention) (key : TargetWatchKey) (mode : PruneMode)
    (retained : Nat) (now : Int) : TargetRetention :=
  { s with scopes := s.scopes.insert key retained, mode := mode.orDefault, observed := now }

/-- The roll-up afterwards, and whether a status refresh is prompted. -/
def markTargetRetention (gitDest : ResourceReference) (key : TargetWatchKey) (epoch : Nat)
    (mode : PruneMode) (retained : Nat) (now : Int) (m : Retention) : Retention × Bool :=
  match m gitDest.key with
  | none =>
    let fresh : TargetRetention := ⟨epoch, ∅, .unset, 0⟩
    (Function.update m gitDest.key (some (fresh.record key mode retained now)), true)
  | some state =>
    if epoch < state.epoch then (m, false)
    else
      let base := if state.epoch < epoch then ⟨epoch, ∅, .unset, 0⟩ else state
      let next := base.record key mode retained now
      (Function.update m gitDest.key (some next),
        decide (next.total ≠ state.total ∨ next.mode ≠ state.mode))

def retentionForGitTarget (gitDest : ResourceReference) (m : Retention) : RetentionSummary :=
  match m gitDest.key with
  | none => ⟨false, .unset, 0, none⟩
  | some state => ⟨true, state.mode, state.total, some state.observed⟩

def forgetTargetRetention (gitDest : ResourceReference) (m : Retention) : Retention :=
  Function.update m gitDest.key none

/-! ## 2. Runs -/

/-- A target with its roll-up. The other fields are specification fields: the number of the
    current declaration and its scopes, the declarations that the goroutines and the resyncs belong
    to, and the counts that resyncs of the current declaration have reported, newest first. -/
structure Rollup (B D X : Type) where
  mirror : Mirror B D X
  retention : Retention
  declaration : Nat
  scopes : List TargetWatchKey
  bornIn : Nat → Nat
  sentIn : Nat → Nat
  reported : List (TargetWatchKey × Nat)

inductive RollupInput (B : Type) where
  | declare (scopes : List (TargetWatchKey × OperationSet))
  | watch (index : Nat) (input : WatchInput B)
  | handle (identityChange : Bool) (fate : ResyncFate)
  | finalize
  | drain (index : Nat) (timedOut : Bool) (divergence : RenderDivergence) (mode : PruneMode)
      (retained : Nat) (now : Int)
  | publish (index : Nat)
  | diverge (divergence : RenderDivergence)
  | forget

variable {B D X : Type} (cfg : WatchConfig B D X)

def numbered (old : Nat → Nat) (length new : Nat) (i : Nat) : Nat :=
  if i < length then old i else new

def forgetTarget (m : Mirror B D X) : Mirror B D X :=
  { m with
    gate := m.gate.forget cfg.gitDest
    projected := 0
    goroutines := m.goroutines.map (fun g => { g with cancelled := true }) }

def counts (timedOut : Bool) (r : SentResync) : Bool :=
  !r.drained && !timedOut && decide (r.fate = .applied)

/-- `drainScopedResync` with what it reports to the roll-up. -/
def drainRetention (index : Nat) (timedOut : Bool) (divergence : RenderDivergence)
    (mode : PruneMode) (retained : Nat) (now : Int) (r : Rollup B D X) : Rollup B D X :=
  let m := drainResync cfg index timedOut divergence r.mirror
  match r.mirror.resyncs[index]? with
  | none => { r with mirror := m }
  | some sent =>
    if counts timedOut sent then
      { r with
        mirror := m
        retention := (markTargetRetention cfg.gitDest sent.key sent.epoch mode retained now
          r.retention).1
        reported := if r.sentIn index = r.declaration then (sent.key, retained) :: r.reported
          else r.reported }
    else { r with mirror := m }

def rollupStep [DecidableEq X] (r : Rollup B D X) : RollupInput B → Rollup B D X
  | .declare scopes =>
    { r with
      mirror := declare cfg scopes r.mirror
      declaration := r.declaration + 1
      scopes := scopes.map Prod.fst
      bornIn := numbered r.bornIn r.mirror.goroutines.length (r.declaration + 1)
      reported := [] }
  | .watch index input =>
    { r with
      mirror := watchInput cfg index input r.mirror
      sentIn := numbered r.sentIn r.mirror.resyncs.length (r.bornIn index) }
  | .handle identityChange fate => { r with mirror := handleItem cfg identityChange fate r.mirror }
  | .finalize => { r with mirror := closeWindow cfg r.mirror }
  | .drain index timedOut divergence mode retained now =>
    drainRetention cfg index timedOut divergence mode retained now r
  | .publish index => { r with mirror := publishStatus index r.mirror }
  | .diverge divergence => { r with mirror := failTarget cfg divergence r.mirror }
  | .forget =>
    { r with
      mirror := forgetTarget cfg r.mirror
      retention := forgetTargetRetention cfg.gitDest r.retention
      declaration := r.declaration + 1
      scopes := []
      reported := [] }

def initialRollup (cursors : TargetWatchKey → Option String) : Rollup B D X :=
  ⟨initialMirror cursors, fun _ => none, 0, [], fun _ => 0, fun _ => 0, []⟩

/-- The last count a resync of the current set has reported for a scope. -/
def lastReported (r : Rollup B D X) (key : TargetWatchKey) : Option Nat :=
  (r.reported.find? (fun report => report.1 = key)).map Prod.snd

/-- The roll-up is the sum over the scopes that are declared. -/
def RollsUp (r : Rollup B D X) : Prop :=
  (retentionForGitTarget cfg.gitDest r.retention).retainedDocuments =
    ∑ key ∈ r.scopes.toFinset, (lastReported r key).getD 0
  deriving Decidable

/-! ## 3. The condition on a step -/

/-- A reply of the current set opens its epoch or stays in it; a reply of an earlier set comes too
    late to be recorded. -/
def Timely (r : Rollup B D X) (index : Nat) (sent : SentResync) : Prop :=
  if r.sentIn index = r.declaration then
    ∀ state, r.retention cfg.gitDest.key = some state →
      if r.reported = [] then state.epoch < sent.epoch else state.epoch = sent.epoch
  else ∃ state, r.retention cfg.gitDest.key = some state ∧ sent.epoch < state.epoch

/-- A set is declared over a roll-up of zero, and every reply that counts is timely. -/
def Orderly (r : Rollup B D X) : RollupInput B → Prop
  | .declare _ => ∀ state, r.retention cfg.gitDest.key = some state → state.total = 0
  | .drain index timedOut _ _ _ _ => ∀ sent, r.mirror.resyncs[index]? = some sent →
      counts timedOut sent = true → Timely cfg r index sent
  | _ => True

instance (r : Rollup B D X) (index : Nat) (sent : SentResync) : Decidable (Timely cfg r index sent) :=
  if hcur : r.sentIn index = r.declaration then
    decidable_of_iff (∀ state ∈ r.retention cfg.gitDest.key,
      if r.reported = [] then state.epoch < sent.epoch else state.epoch = sent.epoch)
      (by rw [Timely, if_pos hcur]; rfl)
  else
    decidable_of_iff (∃ state ∈ r.retention cfg.gitDest.key, sent.epoch < state.epoch)
      (by rw [Timely, if_neg hcur]; rfl)

instance (r : Rollup B D X) : (input : RollupInput B) → Decidable (Orderly cfg r input)
  | .declare _ => inferInstanceAs (Decidable (∀ state ∈ r.retention cfg.gitDest.key, state.total = 0))
  | .drain index timedOut _ _ _ _ => inferInstanceAs (Decidable (∀ sent ∈ r.mirror.resyncs[index]?,
      counts timedOut sent = true → Timely cfg r index sent))
  | .watch _ _ | .handle _ _ | .finalize | .publish _ | .diverge _ | .forget => instDecidableTrue

/-! ## 4. Whose reply a reply is -/

/-- The goroutines and resyncs of the current declaration are of its scopes. -/
structure Tracked (r : Rollup B D X) : Prop where
  born_le : ∀ i < r.mirror.goroutines.length, r.bornIn i ≤ r.declaration
  born_key : ∀ i g, r.mirror.goroutines[i]? = some g → r.bornIn i = r.declaration → g.key ∈ r.scopes
  sent_le : ∀ i < r.mirror.resyncs.length, r.sentIn i ≤ r.declaration
  sent_key : ∀ i s, r.mirror.resyncs[i]? = some s → r.sentIn i = r.declaration → s.key ∈ r.scopes

/-- No goroutine and no resync comes or goes, and none changes its scope. -/
structure SameKeys (m m' : Mirror B D X) : Prop where
  goroutines : m'.goroutines.map Goroutine.key = m.goroutines.map Goroutine.key
  resyncs : m'.resyncs.map SentResync.key = m.resyncs.map SentResync.key

theorem Tracked.same {r r' : Rollup B D X} (h : Tracked r) (hkeys : SameKeys r.mirror r'.mirror)
    (hdecl : r'.declaration = r.declaration) (hscope : r'.scopes = r.scopes)
    (hborn : r'.bornIn = r.bornIn) (hsent : r'.sentIn = r.sentIn) : Tracked r' := by
  refine ⟨fun i hi => ?_, fun i g hg hcur => ?_, fun i hi => ?_, fun i s hs hcur => ?_⟩
  · rw [hborn, hdecl]
    exact h.born_le i (length_of_map_eq hkeys.goroutines ▸ hi)
  · obtain ⟨g₀, hg₀, hkey⟩ := exists_of_map_eq hkeys.goroutines hg
    rw [hscope, ← hkey]
    exact h.born_key i g₀ hg₀ (by rw [← hborn, hcur, hdecl])
  · rw [hsent, hdecl]
    exact h.sent_le i (length_of_map_eq hkeys.resyncs ▸ hi)
  · obtain ⟨s₀, hs₀, hkey⟩ := exists_of_map_eq hkeys.resyncs hs
    rw [hscope, ← hkey]
    exact h.sent_key i s₀ hs₀ (by rw [← hsent, hcur, hdecl])

theorem closeWindow_keys (m : Mirror B D X) : SameKeys m (closeWindow cfg m) := by
  unfold closeWindow
  split <;> exact ⟨rfl, rfl⟩

theorem settleSent_keys (index : Nat) (fate : ResyncFate) (resyncs : List SentResync) :
    (settleSent index fate resyncs).map SentResync.key = resyncs.map SentResync.key := by
  refine List.ext_getElem? (fun i => ?_)
  rw [settleSent, List.getElem?_map, List.getElem?_map, List.getElem?_mapIdx, Option.map_map]
  congr 1
  funext r
  rw [Function.comp_apply]
  split <;> rfl

theorem handleItem_keys (identityChange : Bool) (fate : ResyncFate) (m : Mirror B D X) :
    SameKeys m (handleItem cfg identityChange fate m) := by
  have hclose := closeWindow_keys cfg m
  unfold handleItem
  split
  · exact ⟨rfl, rfl⟩
  · split
    · exact ⟨rfl, rfl⟩
    · dsimp only
      split
      · exact ⟨hclose.goroutines, hclose.resyncs⟩
      · exact ⟨rfl, rfl⟩
  · exact ⟨hclose.goroutines, (settleSent_keys _ _ _).trans hclose.resyncs⟩

theorem drainResync_keys (index : Nat) (timedOut : Bool) (divergence : RenderDivergence)
    (m : Mirror B D X) : SameKeys m (drainResync cfg index timedOut divergence m) := by
  unfold drainResync
  split
  · exact ⟨rfl, rfl⟩
  · rename_i s hs
    have hset : (m.resyncs.set index { s with drained := true }).map SentResync.key =
        m.resyncs.map SentResync.key := map_set_same hs rfl
    dsimp only
    split
    · exact ⟨rfl, rfl⟩
    · split
      · exact ⟨rfl, hset⟩
      · split
        · exact ⟨rfl, rfl⟩
        · split
          · exact ⟨rfl, hset⟩
          · split <;> exact ⟨rfl, hset⟩
        · split
          · exact ⟨rfl, hset⟩
          · split <;> exact ⟨rfl, hset⟩
        · exact ⟨rfl, hset⟩
        · exact ⟨rfl, hset⟩
        · exact ⟨rfl, hset⟩

theorem publishStatus_keys (index : Nat) (m : Mirror B D X) : SameKeys m (publishStatus index m) := by
  unfold publishStatus
  split <;> exact ⟨rfl, rfl⟩

theorem forgetTarget_keys (m : Mirror B D X) : SameKeys m (forgetTarget cfg m) :=
  ⟨by simp [forgetTarget], rfl⟩

@[simp] theorem numbered_of_lt {old : Nat → Nat} {length new i : Nat} (h : i < length) :
    numbered old length new i = old i := if_pos h

@[simp] theorem numbered_of_le {old : Nat → Nat} {length new i : Nat} (h : length ≤ i) :
    numbered old length new i = new := if_neg (Nat.not_lt.mpr h)

variable {r : Rollup B D X} {reported : List (TargetWatchKey × Nat)}

theorem Tracked.outdated (h : Tracked r) {i : Nat}
    (hi : i < r.mirror.resyncs.length) : r.sentIn i ≠ r.declaration + 1 :=
  (Nat.lt_succ_of_le (h.sent_le i hi)).ne

theorem Tracked.declared [DecidableEq X] (h : Tracked r)
    (scopes : List (TargetWatchKey × OperationSet)) :
    Tracked (rollupStep cfg r (.declare scopes)) := by
  refine ⟨fun i _ => ?_, fun i g hg hcur => ?_, fun i hi => ?_, fun i s hs hcur => ?_⟩
  · show numbered _ _ _ i ≤ r.declaration + 1
    by_cases hold : i < r.mirror.goroutines.length
    · rw [numbered_of_lt hold]
      exact (h.born_le i hold).trans (Nat.le_succ _)
    · rw [numbered_of_le (Nat.le_of_not_lt hold)]
  · change numbered _ _ _ i = r.declaration + 1 at hcur
    by_cases hold : i < r.mirror.goroutines.length
    · rw [numbered_of_lt hold] at hcur
      exact absurd hcur (Nat.lt_succ_of_le (h.born_le i hold)).ne
    · -- a goroutine the declaration started
      change (r.mirror.goroutines.map _ ++ scopes.map _)[i]? = some g at hg
      rw [List.getElem?_append_right (by simpa using Nat.le_of_not_lt hold), List.getElem?_map] at hg
      obtain ⟨scope, hscope, rfl⟩ := Option.map_eq_some_iff.mp hg
      exact List.mem_map_of_mem (List.mem_of_getElem? hscope)
  · exact (h.sent_le i hi).trans (Nat.le_succ _)
  · exact absurd hcur (h.outdated (List.getElem?_eq_some_iff.mp hs).1)

theorem Tracked.forgotten [DecidableEq X] (h : Tracked r) : Tracked (rollupStep cfg r .forget) := by
  have hkeys := forgetTarget_keys cfg r.mirror
  refine ⟨fun i hi => ?_, fun i g hg hcur => ?_, fun i hi => ?_, fun i s hs hcur => ?_⟩
  · exact (h.born_le i (length_of_map_eq hkeys.goroutines ▸ hi)).trans (Nat.le_succ _)
  · obtain ⟨g₀, hg₀, -⟩ := exists_of_map_eq hkeys.goroutines hg
    exact absurd hcur (Nat.lt_succ_of_le (h.born_le i (List.getElem?_eq_some_iff.mp hg₀).1)).ne
  · exact (h.sent_le i hi).trans (Nat.le_succ _)
  · exact absurd hcur (h.outdated (List.getElem?_eq_some_iff.mp hs).1)

theorem Tracked.watched [DecidableEq X] (h : Tracked r) (index : Nat)
    (input : WatchInput B) : Tracked (rollupStep cfg r (.watch index input)) := by
  cases hg : r.mirror.goroutines[index]? with
  | none =>
    have hmirror : watchInput cfg index input r.mirror = r.mirror := by rw [watchInput, hg]
    refine ⟨fun i hi => ?_, fun i g hgi => ?_, fun i hi => ?_, fun i s hs hcur => ?_⟩
    · exact h.born_le i (hmirror ▸ hi)
    · exact h.born_key i g (hmirror ▸ hgi)
    · change i < (watchInput cfg index input r.mirror).resyncs.length at hi
      rw [hmirror] at hi
      exact (numbered_of_lt hi).trans_le (h.sent_le i hi)
    · change (watchInput cfg index input r.mirror).resyncs[i]? = some s at hs
      rw [hmirror] at hs
      have hi := (List.getElem?_eq_some_iff.mp hs).1
      exact h.sent_key i s hs ((numbered_of_lt hi).symm.trans hcur)
  | some g =>
    let w : TargetWatch B D X :=
      { g.watch with dedup := r.mirror.dedup, cursor := r.mirror.cursors g.key }
    let w' := watchStep { cfg with key := g.key, ops := g.ops } w (g.takes r.mirror.projected input)
    have hmirror : watchInput cfg index input r.mirror = handOver index g w w' r.mirror := by
      rw [watchInput, hg]
    have hbound := (List.getElem?_eq_some_iff.mp hg).1
    have hkeys : (r.mirror.goroutines.set index { g with watch := w' }).map Goroutine.key =
        r.mirror.goroutines.map Goroutine.key := map_set_same hg rfl
    have hgoroutines : (rollupStep cfg r (.watch index input)).mirror.goroutines =
        r.mirror.goroutines.set index { g with watch := w' } := by
      change (watchInput cfg index input r.mirror).goroutines = _
      rw [hmirror]
      rfl
    have hres : (rollupStep cfg r (.watch index input)).mirror.resyncs =
        r.mirror.resyncs ++ sentResyncs g.key w w' := by
      change (watchInput cfg index input r.mirror).resyncs = _
      rw [hmirror]
      rfl
    refine ⟨fun i hi => ?_, fun i g' hg' hcur => ?_, fun i hi => ?_, fun i s hs hcur => ?_⟩
    · rw [hgoroutines, length_of_map_eq hkeys] at hi
      exact h.born_le i hi
    · rw [hgoroutines] at hg'
      obtain ⟨g₀, hg₀, hkey⟩ := exists_of_map_eq hkeys hg'
      exact hkey ▸ h.born_key i g₀ hg₀ hcur
    · show numbered _ _ _ i ≤ r.declaration
      by_cases hold : i < r.mirror.resyncs.length
      · exact (numbered_of_lt hold).trans_le (h.sent_le i hold)
      · exact (numbered_of_le (Nat.le_of_not_lt hold)).trans_le (h.born_le index hbound)
    · change numbered _ _ _ i = r.declaration at hcur
      by_cases hold : i < r.mirror.resyncs.length
      · rw [hres, List.getElem?_append_left hold] at hs
        exact h.sent_key i s hs ((numbered_of_lt hold).symm.trans hcur)
      · -- the resync is the goroutine's, and so is its scope
        rw [numbered_of_le (Nat.le_of_not_lt hold)] at hcur
        rw [hres, List.getElem?_append_right (Nat.le_of_not_lt hold)] at hs
        obtain ⟨resync, -, rfl⟩ := List.mem_map.mp (List.mem_of_getElem? hs)
        exact h.born_key index g hg hcur

/-! ## 5. The roll-up of the current set -/

/-- The recorded counts are those of the current set, or none of them counts. -/
def Mirrors (reported : List (TargetWatchKey × Nat)) (state : TargetRetention) : Prop :=
  (reported = [] ∧ state.total = 0) ∨ (reported ≠ [] ∧ ∀ key, state.scopes.lookup key =
      (reported.find? (fun report => report.1 = key)).map Prod.snd)

structure RolledUp (r : Rollup B D X) : Prop extends Tracked r where
  keys : ∀ report ∈ r.reported, report.1 ∈ r.scopes
  unrecorded : r.retention cfg.gitDest.key = none → r.reported = []
  recorded : ∀ state, r.retention cfg.gitDest.key = some state → Mirrors r.reported state

theorem RolledUp.rollsUp (h : RolledUp cfg r) : RollsUp cfg r := by
  have hzero : r.reported = [] → ∑ key ∈ r.scopes.toFinset, (lastReported r key).getD 0 = 0 := by
    intro hnil
    exact Finset.sum_eq_zero (fun key _ => by simp [lastReported, hnil])
  rw [RollsUp, retentionForGitTarget]
  cases hrec : r.retention cfg.gitDest.key with
  | none => exact (hzero (h.unrecorded hrec)).symm
  | some state =>
    obtain ⟨hnil, htotal⟩ | ⟨-, hlook⟩ := h.recorded state hrec
    · exact htotal.trans (hzero hnil).symm
    · have hkeys : ∀ key ∈ state.scopes, key ∈ r.scopes.toFinset := by
        intro key hkey
        obtain ⟨count, hcount⟩ := Option.isSome_iff_exists.mp (AList.lookup_isSome.mpr hkey)
        rw [hlook] at hcount
        obtain ⟨report, hfind, -⟩ := Option.map_eq_some_iff.mp hcount
        have hreport : report.1 = key := by simpa using List.find?_some hfind
        exact List.mem_toFinset.mpr (hreport ▸ h.keys report (List.mem_of_find?_eq_some hfind))
      show state.total = _
      rw [TargetRetention.total, sum_values_eq state.scopes hkeys]
      exact Finset.sum_congr rfl (fun key _ => by rw [hlook]; rfl)

theorem RolledUp.same {r r' : Rollup B D X} (h : RolledUp cfg r) (htrack : Tracked r')
    (hscope : r'.scopes = r.scopes) (hreport : r'.reported = r.reported)
    (hretain : r'.retention = r.retention) : RolledUp cfg r' where
  toTracked := htrack
  keys := by
    rw [hreport, hscope]
    exact h.keys
  unrecorded := by
    rw [hreport, hretain]
    exact h.unrecorded
  recorded := by
    rw [hreport, hretain]
    exact h.recorded

theorem mirrors_record {state : TargetRetention} (hlook : ∀ key, state.scopes.lookup key =
      (reported.find? (fun report => report.1 = key)).map Prod.snd) (key : TargetWatchKey)
    (mode : PruneMode) (retained : Nat) (now : Int) :
    Mirrors ((key, retained) :: reported) (state.record key mode retained now) := by
  refine Or.inr ⟨List.cons_ne_nil _ _, fun other => ?_⟩
  show (state.scopes.insert key retained).lookup other = _
  by_cases hkey : key = other
  · subst hkey
    simp
  · rw [AList.lookup_insert_ne (Ne.symm hkey), hlook, List.find?_cons_of_neg (by simpa using hkey)]

theorem markTargetRetention_late {gitDest : ResourceReference} {epoch : Nat} {m : Retention}
    {state : TargetRetention} (hstate : m gitDest.key = some state) (hlate : epoch < state.epoch)
    (key : TargetWatchKey) (mode : PruneMode) (retained : Nat) (now : Int) :
    (markTargetRetention gitDest key epoch mode retained now m).1 = m := by
  rw [markTargetRetention, hstate]
  dsimp only
  rw [if_pos hlate]

/-- A count that is recorded joins the counts of its own epoch. -/
theorem markTargetRetention_timely {gitDest : ResourceReference} {epoch : Nat} {m : Retention}
    (hnone : m gitDest.key = none → reported = [])
    (hsome : ∀ state, m gitDest.key = some state → Mirrors reported state)
    (htimely : ∀ state, m gitDest.key = some state →
      if reported = [] then state.epoch < epoch else state.epoch = epoch) (key : TargetWatchKey)
    (mode : PruneMode) (retained : Nat) (now : Int) :
    ∃ state, (markTargetRetention gitDest key epoch mode retained now m).1 gitDest.key =
      some state ∧ Mirrors ((key, retained) :: reported) state := by
  rw [markTargetRetention]
  cases hrec : m gitDest.key with
  | none =>
    rw [hnone hrec]
    exact ⟨_, Function.update_self .., mirrors_record (fun _ => rfl) ..⟩
  | some state =>
    have hepoch := htimely state hrec
    dsimp only
    by_cases hnil : reported = []
    · -- the first reply of the set replaces the counts of an earlier epoch
      rw [if_pos hnil] at hepoch
      rw [if_neg (Nat.not_lt.mpr hepoch.le), if_pos hepoch, hnil]
      exact ⟨_, Function.update_self .., mirrors_record (fun _ => rfl) ..⟩
    · rw [if_neg hnil] at hepoch
      have hlt : ¬ state.epoch < epoch := hepoch.not_lt
      obtain ⟨hnil', -⟩ | ⟨-, hlook⟩ := hsome state hrec
      · exact absurd hnil' hnil
      · rw [if_neg (hepoch ▸ Nat.lt_irrefl _), if_neg hlt]
        exact ⟨_, Function.update_self .., mirrors_record hlook ..⟩

theorem RolledUp.drained (h : RolledUp cfg r) {index : Nat} {timedOut : Bool}
    (divergence : RenderDivergence) (mode : PruneMode) (retained : Nat) (now : Int)
    (hok : ∀ sent, r.mirror.resyncs[index]? = some sent → counts timedOut sent = true →
      Timely cfg r index sent) :
    RolledUp cfg (drainRetention cfg index timedOut divergence mode retained now r) := by
  have htrack : ∀ retention reported, Tracked { r with
      mirror := drainResync cfg index timedOut divergence r.mirror
      retention := retention
      reported := reported } := fun _ _ =>
    h.toTracked.same (drainResync_keys cfg index timedOut divergence r.mirror) rfl rfl rfl rfl
  unfold drainRetention
  cases hsent : r.mirror.resyncs[index]? with
  | none => exact h.same cfg (htrack _ _) rfl rfl rfl
  | some sent =>
    dsimp only
    by_cases hcount : counts timedOut sent = true
    · have htimely := hok sent hsent hcount
      rw [if_pos hcount]
      by_cases hcur : r.sentIn index = r.declaration
      · rw [Timely, if_pos hcur] at htimely
        obtain ⟨state, hstate, hmirror⟩ := markTargetRetention_timely h.unrecorded h.recorded
          htimely sent.key mode retained now
        rw [if_pos hcur]
        refine ⟨htrack _ _, ?_, ?_, ?_⟩
        · exact List.forall_mem_cons.mpr ⟨h.sent_key index sent hsent hcur, h.keys⟩
        · exact fun hnone => absurd (hstate.symm.trans hnone) (by simp)
        · intro state' hstate'
          exact Option.some.inj (hstate.symm.trans hstate') ▸ hmirror
      · -- a reply of an earlier set is dropped
        rw [Timely, if_neg hcur] at htimely
        obtain ⟨state, hstate, hlate⟩ := htimely
        rw [if_neg hcur]
        exact h.same cfg (htrack _ _) rfl rfl (markTargetRetention_late hstate hlate ..)
    · rw [if_neg hcount]
      exact h.same cfg (htrack _ _) rfl rfl rfl

theorem rolledUp_step [DecidableEq X] (r : Rollup B D X) (input : RollupInput B)
    (hok : Orderly cfg r input) (h : RolledUp cfg r) : RolledUp cfg (rollupStep cfg r input) := by
  cases input with
  | declare scopes =>
    refine ⟨h.toTracked.declared cfg scopes, by simp [rollupStep], fun _ => rfl, ?_⟩
    exact fun state hstate => Or.inl ⟨rfl, hok state hstate⟩
  | watch index input => exact h.same cfg (h.toTracked.watched cfg index input) rfl rfl rfl
  | handle identityChange fate =>
    exact h.same cfg (h.toTracked.same (handleItem_keys cfg identityChange fate r.mirror)
      rfl rfl rfl rfl) rfl rfl rfl
  | finalize =>
    exact h.same cfg (h.toTracked.same (closeWindow_keys cfg r.mirror) rfl rfl rfl rfl) rfl rfl rfl
  | drain index timedOut divergence mode retained now =>
    exact h.drained cfg divergence mode retained now hok
  | publish index =>
    exact h.same cfg (h.toTracked.same (publishStatus_keys index r.mirror) rfl rfl rfl rfl)
      rfl rfl rfl
  | diverge divergence =>
    exact h.same cfg (h.toTracked.same ⟨rfl, rfl⟩ rfl rfl rfl rfl) rfl rfl rfl
  | forget =>
    refine ⟨h.toTracked.forgotten cfg, by simp [rollupStep], fun _ => rfl, ?_⟩
    intro state hstate
    simp [rollupStep, forgetTargetRetention] at hstate

theorem rolledUp_initial (cursors : TargetWatchKey → Option String) :
    RolledUp cfg (initialRollup cursors : Rollup B D X) := by
  refine ⟨⟨?_, ?_, ?_, ?_⟩, ?_, ?_, ?_⟩ <;> simp [initialRollup, initialMirror]

/-- The roll-up is that of the set that is declared, in every run of orderly steps. -/
theorem retention_rolls_up [DecidableEq X] (cursors : TargetWatchKey → Option String)
    (inputs : List (RollupInput B))
    (hinputs : AllSteps (rollupStep cfg) (Orderly cfg) (initialRollup cursors) inputs) :
    RollsUp cfg (inputs.foldl (rollupStep cfg) (initialRollup cursors)) :=
  (hinputs.invariant (rolledUp_step cfg) (rolledUp_initial cfg cursors)).rollsUp

def rollupOf (inputs : List (RollupInput Nat)) : Rollup Nat Nat Nat :=
  inputs.foldl (rollupStep sampleWatchConfig) (initialRollup (fun _ => none))

def replayApplied (index : Nat) (rv : String) : List (RollupInput Nat) :=
  [.watch index (.session streamAnswers), .watch index (bookmarkAt rv), .handle false .applied]

def replyOf (index retained : Nat) : RollupInput Nat :=
  .drain index false noDivergence .onEvent retained 0

def recreatedInputs : List (RollupInput Nat) :=
  [.declare [(defaultScope, ∅)], .declare [(defaultScope, ∅)]] ++ replayApplied 1 "9" ++
    [.forget, .declare [(defaultScope, ∅)], replyOf 0 3] ++ replayApplied 2 "12" ++ [replyOf 1 0]

-- The epochs of the recreated target start again, so its own report of zero is the stale one.
theorem report_of_deleted_target_stays : (rollupOf recreatedInputs).scopes = [defaultScope] ∧
    (rollupOf recreatedInputs).reported = [(defaultScope, 0)] ∧
    (retentionForGitTarget sampleWatchConfig.gitDest
      (rollupOf recreatedInputs).retention).retainedDocuments = 3 ∧
    ¬ RollsUp sampleWatchConfig (rollupOf recreatedInputs) := by
  decide

def extendedInputs : List (RollupInput Nat) :=
  [.declare [(defaultScope, ∅)]] ++ replayApplied 0 "9" ++
    [.declare [(defaultScope, ∅), (otherScope, ∅)]] ++ replayApplied 1 "11" ++
    [replyOf 1 3, replyOf 0 7] ++ replayApplied 2 "12" ++ [replyOf 2 2]

theorem extended_set_rolls_up :
    (rollupOf extendedInputs).reported = [(otherScope, 2), (defaultScope, 3)] ∧
    (retentionForGitTarget sampleWatchConfig.gitDest
      (rollupOf extendedInputs).retention).retainedDocuments = 5 ∧
    RollsUp sampleWatchConfig (rollupOf extendedInputs) :=
  ⟨by decide, by decide, retention_rolls_up sampleWatchConfig (fun _ => none) extendedInputs
    (by decide)⟩

end GitopsReverser.Watch
