import GitopsReverser.Git.LoopSteps
import GitopsReverser.Watch.Mirror
import GitopsReverser.Watch.ReplayObligation

/-!
# GateDrops — what the closed gate drops is in the snapshot that opens it

A live event dropped at the closed gate is not delivered again: the cursor is past it. Only a
later replay of its scope makes up for it.
-/

namespace GitopsReverser.Watch

open Reasoning
open Git (RenderFidelityGate ScopeKey RenderDivergence FidelityState)

variable {B D X : Type} (cfg : WatchConfig B D X)

def rvAtMost (rv revision : String) : Bool :=
  match parseUint rv, parseUint revision with
  | some a, some b => decide (a ≤ b)
  | _, _ => false

def currentEpoch (m : Mirror B D X) : Nat := ((m.gate cfg.gitDest.key).map (·.epoch)).getD 0

/-! ## 1. The condition on a step -/

/-- No replay of the event's scope has been enqueued in the current epoch. -/
def NotReplayed (m : Mirror B D X) (item : LiveItem) : Prop :=
  ∀ r ∈ m.resyncs, r.key = item.key → r.epoch ≠ currentEpoch cfg m
  deriving Decidable

/-- What a closed gate loses of the next item: the event, or the window a resync closes. -/
def exposed (m : Mirror B D X) : List LiveItem :=
  match m.queue with
  | [] => []
  | .live item :: _ => [item]
  | .resync _ :: _ => m.window

/-- The snapshot is not older than any event of its scope handed over before. -/
def FreshRevision (m : Mirror B D X) (key : TargetWatchKey) (revision : String) : Prop :=
  ∀ item ∈ m.consumed, item.key = key → rvAtMost item.resourceVersion revision = true
  deriving Decidable

/-- The resyncs that a goroutine sends for an input. -/
def sentFor [DecidableEq X] (m : Mirror B D X) (g : Goroutine B D X) (input : WatchInput B) :
    List SentResync :=
  let w := { g.watch with dedup := m.dedup, cursor := m.cursors g.key }
  sentResyncs g.key w (watchStep { cfg with key := g.key, ops := g.ops } w
    (g.takes m.projected input))

/-- The API server answers replays and lists with fresh snapshots, the closed gate drops only events
    of scopes that are still to replay in this epoch, and the epoch counter does not wrap. -/
def DropsCovered [DecidableEq X] (m : Mirror B D X) : MirrorInput B → Prop
  | .declare _ => currentEpoch cfg m + 1 < 2 ^ 64
  | .watch index input => ∀ g ∈ m.goroutines[index]?, ∀ r ∈ sentFor cfg m g input,
      FreshRevision m g.key r.revision
  | .handle _ _ => gateOpen cfg m = false → ∀ item ∈ exposed m, NotReplayed cfg m item
  | .finalize => gateOpen cfg m = false → ∀ item ∈ m.window, NotReplayed cfg m item
  | _ => True

instance [DecidableEq X] (m : Mirror B D X) : (input : MirrorInput B) →
    Decidable (DropsCovered cfg m input)
  | .declare _ => inferInstanceAs (Decidable (currentEpoch cfg m + 1 < 2 ^ 64))
  | .watch index input => inferInstanceAs (Decidable (∀ g ∈ m.goroutines[index]?,
      ∀ r ∈ sentFor cfg m g input, FreshRevision m g.key r.revision))
  | .handle _ _ => inferInstanceAs (Decidable (gateOpen cfg m = false →
      ∀ item ∈ exposed m, NotReplayed cfg m item))
  | .finalize => inferInstanceAs (Decidable (gateOpen cfg m = false →
      ∀ item ∈ m.window, NotReplayed cfg m item))
  | .drain _ _ _ | .publish _ | .diverge _ => instDecidableTrue

structure Covered (m : Mirror B D X) : Prop where
  projected : m.projected ≤ currentEpoch cfg m
  publishing : ∀ epoch ∈ m.publishing, epoch ≤ currentEpoch cfg m
  sent : ∀ r ∈ m.resyncs, r.epoch ≤ currentEpoch cfg m
  queued : ∀ item, QueueItem.live item ∈ m.queue → item ∈ m.consumed
  window : ∀ item ∈ m.window, item ∈ m.consumed
  dropped : ∀ item ∈ m.dropped, item ∈ m.consumed
  applied : ∀ state, m.gate cfg.gitDest.key = some state → ∀ key result,
    (ScopeKey.scope key, result) ∈ state.scopes → result.isClean = true →
    ∃ r ∈ m.resyncs, r.key = key ∧ r.epoch = state.epoch ∧ r.fate = .applied
  covered : ∀ item ∈ m.dropped, ∀ r ∈ m.resyncs, r.key = item.key →
    r.epoch = currentEpoch cfg m → rvAtMost item.resourceVersion r.revision = true

/-! ## 2. The worker -/

/-- The same resyncs, some with a reply or a finished drain. -/
structure Answered (rs rs' : List SentResync) : Prop where
  back : ∀ r' ∈ rs', ∃ r ∈ rs, r'.key = r.key ∧ r'.epoch = r.epoch ∧ r'.revision = r.revision
  applied : ∀ r ∈ rs, r.fate = .applied →
    ∃ r' ∈ rs', r'.key = r.key ∧ r'.epoch = r.epoch ∧ r'.fate = .applied

theorem answered_settleSent (index : Nat) (fate : ResyncFate) (rs : List SentResync) :
    Answered rs (settleSent index fate rs) := by
  constructor
  · intro r' hr'
    rw [settleSent, List.mem_mapIdx] at hr'
    obtain ⟨i, hi, rfl⟩ := hr'
    refine ⟨rs[i], List.getElem_mem hi, ?_⟩
    split <;> exact ⟨rfl, rfl, rfl⟩
  · intro r hr hfate
    obtain ⟨i, hi, rfl⟩ := List.getElem_of_mem hr
    refine ⟨rs[i], ?_, rfl, rfl, hfate⟩
    rw [settleSent, List.mem_mapIdx]
    exact ⟨i, hi, by rw [if_neg (by simp [hfate])]⟩

theorem answered_drained
    (hr : rs[index]? = some r) : Answered rs (rs.set index { r with drained := true }) := by
  obtain ⟨hindex, hget⟩ := List.getElem?_eq_some_iff.mp hr
  constructor
  · intro r' hr'
    rcases List.mem_or_eq_of_mem_set hr' with hold | rfl
    · exact ⟨r', hold, rfl, rfl, rfl⟩
    · exact ⟨r, hget ▸ List.getElem_mem hindex, rfl, rfl, rfl⟩
  · intro s hs hfate
    obtain ⟨i, hi, rfl⟩ := List.getElem_of_mem hs
    by_cases hi' : i = index
    · subst hi'
      refine ⟨{ r with drained := true }, List.mem_set hi _, ?_⟩
      rw [← hget] at hr ⊢
      exact ⟨rfl, rfl, hfate⟩
    · exact ⟨rs[i], List.mem_iff_getElem.mpr ⟨i, by simpa using hi, by
        rw [List.getElem_set_ne (Ne.symm hi')]⟩, rfl, rfl, hfate⟩

variable {m : Mirror B D X} {w w' : TargetWatch B D X}

theorem Covered.answer (h : Covered cfg m)
    (hanswer : Answered m.resyncs rs) : Covered cfg { m with resyncs := rs } where
  projected := h.projected
  publishing := h.publishing
  sent r' hr' := by
    obtain ⟨r, hr, -, hepoch, -⟩ := hanswer.back r' hr'
    rw [hepoch]
    exact h.sent r hr
  queued := h.queued
  window := h.window
  dropped := h.dropped
  applied state hstate key result hmem hclean := by
    obtain ⟨r, hr, hkey, hepoch, hfate⟩ := h.applied state hstate key result hmem hclean
    obtain ⟨r', hr', hkey', hepoch', hfate'⟩ := hanswer.applied r hr hfate
    exact ⟨r', hr', hkey'.trans hkey, hepoch'.trans hepoch, hfate'⟩
  covered item hitem r' hr' hkey hepoch := by
    obtain ⟨r, hr, hkey', hepoch', hrev⟩ := hanswer.back r' hr'
    rw [hrev]
    exact h.covered item hitem r hr (hkey' ▸ hkey) (hepoch' ▸ hepoch)

theorem Covered.drop (h : Covered cfg m) (items : List LiveItem) (queue : List QueueItem)
    (window : List LiveItem) (hqueue : ∀ item, QueueItem.live item ∈ queue → item ∈ m.consumed)
    (hwin : ∀ item ∈ window, item ∈ m.consumed) (hconsumed : ∀ item ∈ items, item ∈ m.consumed)
    (hfree : ∀ item ∈ items, NotReplayed cfg m item) :
    Covered cfg { m with queue := queue, window := window, dropped := items ++ m.dropped } where
  projected := h.projected
  publishing := h.publishing
  sent := h.sent
  queued := hqueue
  window := hwin
  dropped item hitem := by
    rcases List.mem_append.mp hitem with hitem | hitem
    · exact hconsumed item hitem
    · exact h.dropped item hitem
  applied := h.applied
  covered item hitem r hr hkey hepoch := by
    rcases List.mem_append.mp hitem with hitem | hitem
    -- no replay of its scope in this epoch yet
    · exact absurd hepoch (hfree item hitem r hr hkey)
    · exact h.covered item hitem r hr hkey hepoch

theorem Covered.window_closed (h : Covered cfg m)
    (hfree : gateOpen cfg m = false → ∀ item ∈ m.window, NotReplayed cfg m item) :
    Covered cfg (closeWindow cfg m) := by
  unfold closeWindow
  split
  · exact h.drop cfg [] m.queue [] h.queued (by simp) (by simp) (by simp)
  · rename_i hclose
    exact h.drop cfg m.window m.queue [] h.queued (by simp) h.window (hfree (by simpa using hclose))

theorem Covered.item_handled [DecidableEq X] (h : Covered cfg m) (identityChange : Bool)
    (fate : ResyncFate)
    (hok : DropsCovered cfg m (.handle identityChange fate)) :
    Covered cfg (handleItem cfg identityChange fate m) := by
  unfold DropsCovered exposed at hok
  unfold handleItem
  split
  · exact h
  · rename_i item rest hqueue
    rw [hqueue] at hok
    have hrest : ∀ other, QueueItem.live other ∈ rest → other ∈ m.consumed :=
      fun other hother => h.queued other (by rw [hqueue]; exact List.mem_cons_of_mem _ hother)
    have hitem : item ∈ m.consumed := h.queued item (by rw [hqueue]; exact List.mem_cons_self)
    split
    · rename_i hclose
      exact h.drop cfg [item] rest m.window hrest h.window (by simpa using hitem)
        (by simpa using hok hclose)
    · rename_i hopen
      have hwin : ∀ (kept : List LiveItem), (∀ other ∈ kept, other ∈ m.consumed) →
          ∀ other ∈ kept ++ [item], other ∈ m.consumed := by
        intro kept hkept other hother
        rcases List.mem_append.mp hother with hother | hother
        · exact hkept other hother
        · exact List.mem_singleton.mp hother ▸ hitem
      cases identityChange with
      | false => exact h.drop cfg [] rest _ hrest (hwin m.window h.window) (by simp) (by simp)
      | true =>
        -- the gate is open, so the old window goes to Git
        have hclosed : closeWindow cfg m = { m with window := [] } := by
          unfold closeWindow
          rw [if_pos (by simpa using hopen)]
        simp only [hclosed, if_true]
        exact h.drop cfg [] rest _ hrest (hwin [] (by simp)) (by simp) (by simp)
  · rename_i index rest hqueue
    rw [hqueue] at hok
    -- the resync closes the window first
    have hclose := h.window_closed cfg hok
    have hqueued : (closeWindow cfg m).queue = m.queue ∧ (closeWindow cfg m).consumed = m.consumed := by
      unfold closeWindow
      split <;> exact ⟨rfl, rfl⟩
    have hrest : ∀ other, QueueItem.live other ∈ rest → other ∈ (closeWindow cfg m).consumed := by
      intro other hother
      rw [hqueued.2]
      exact h.queued other (by rw [hqueue]; exact List.mem_cons_of_mem _ hother)
    have htake := hclose.drop cfg [] rest _ hrest hclose.window (by simp) (by simp)
    exact htake.answer cfg (answered_settleSent index fate _)

/-! ## 3. The goroutines -/

/-- The epoch of the resyncs that an input may hand over. -/
def WatchInput.knownEpoch : WatchInput B → Option Nat
  | .session a | .event _ a => some a.epoch
  | _ => none

variable (key : TargetWatchKey)

theorem sentResyncs_same (h : w'.resyncs.length ≤ w.resyncs.length) : sentResyncs key w w' = [] := by
  simp [sentResyncs, List.drop_eq_nil_of_le h]

theorem sentResyncs_snapshotted (h : Snapshotted a desired revision objects w w') :
    sentResyncs key w w' = [⟨key, a.epoch, revision, .awaiting, false⟩] := by
  simp [sentResyncs, h.resyncs]

theorem sentResyncs_spec [DecidableEq X] (heffect : WatchEffect cfg w input w') :
    ∀ r ∈ sentResyncs key w w', r.key = key ∧ input.knownEpoch = some r.epoch := by
  intro r hr
  have hnone : w'.resyncs.length ≤ w.resyncs.length → False := by
    intro hle
    rw [sentResyncs_same key hle] at hr
    cases hr
  have hone : ∀ {a : Answers B} {desired revision objects},
      Snapshotted a desired revision objects w w' → r.key = key ∧ r.epoch = a.epoch := by
    intro a desired revision objects hsnapshot
    rw [sentResyncs_snapshotted key hsnapshot] at hr
    rw [List.mem_singleton.mp hr]
    exact ⟨rfl, rfl⟩
  have hlist : ∀ {a : Answers B}, Listed cfg a w w' → r.key = key ∧ r.epoch = a.epoch := by
    rintro a (hsame | ⟨items, revision, -, hsnapshot⟩)
    · exact (hnone (by rw [hsame.resyncs])).elim
    · exact hone hsnapshot
  cases heffect with
  | same hsame => exact (hnone (by rw [hsame.resyncs])).elim
  | opened h | reopened _ h =>
    obtain ⟨hkey, hepoch⟩ := hlist h
    exact ⟨hkey, by rw [hepoch]; rfl⟩
  | replayed replay replay' objects rv hphase hfold hsnapshot =>
    obtain ⟨hkey, hepoch⟩ := hone hsnapshot
    exact ⟨hkey, by rw [hepoch]; rfl⟩
  -- live events send no resync
  | handled hlive h =>
    have hresyncs : w'.resyncs = w.resyncs := by
      cases h with
      | ignored h => exact h.resyncs
      | skipped _ _ _ _ hresyncs _ | refused _ _ _ _ _ hresyncs _ | accepted _ _ _ _ hresyncs _ =>
        exact hresyncs
    exact (hnone (by rw [hresyncs])).elim
  | settled hresyncs htrace hdedup =>
    exact (hnone (by rw [hresyncs]; simp [settleResync])).elim
  | declared hresyncs htrace hdedup => exact (hnone (by rw [hresyncs]; simp)).elim

theorem knownEpoch_takes {g : Goroutine B D X} {input : WatchInput B}
    (h : (g.takes m.projected input).knownEpoch = some epoch) : epoch = m.projected := by
  have hknown : (input.withEpoch m.projected).knownEpoch = some epoch → epoch = m.projected := by
    intro h
    cases input with
    | session a | event ev a => exact (Option.some.inj h).symm
    | _ => cases h
  unfold Goroutine.takes at h
  split at h
  -- a cancelled goroutine still drains its open watch, but opens no session
  · cases h
  · exact hknown h

theorem Covered.handed_over (h : Covered cfg m) (index : Nat) (g : Goroutine B D X)
    (w w' : TargetWatch B D X) (hsent : ∀ r ∈ sentResyncs g.key w w',
      r.key = g.key ∧ r.epoch = m.projected ∧ FreshRevision m g.key r.revision) :
    Covered cfg (handOver index g w w' m) where
  projected := h.projected
  publishing := h.publishing
  sent r hr := by
    rcases List.mem_append.mp hr with hr | hr
    · exact h.sent r hr
    · rw [(hsent r hr).2.1]
      exact h.projected
  queued item hitem := by
    simp only [handOver, List.mem_append, List.mem_map, reduceCtorEq, and_false, exists_false,
      or_false, QueueItem.live.injEq, exists_eq_right] at hitem
    rcases hitem with hitem | hitem
    · exact List.mem_append_right _ (h.queued item hitem)
    · exact List.mem_append_left _ hitem
  window item hitem := List.mem_append_right _ (h.window item hitem)
  dropped item hitem := List.mem_append_right _ (h.dropped item hitem)
  applied state hstate key result hmem hclean := by
    obtain ⟨r, hr, hrest⟩ := h.applied state hstate key result hmem hclean
    exact ⟨r, List.mem_append_left _ hr, hrest⟩
  covered item hitem r hr hkey hepoch := by
    rcases List.mem_append.mp hr with hr | hr
    · exact h.covered item hitem r hr hkey hepoch
    · -- a new snapshot covers everything handed over before it
      obtain ⟨hrkey, -, hrev⟩ := hsent r hr
      exact hrev item (h.dropped item hitem) (hkey ▸ hrkey)

theorem Covered.watched [DecidableEq X] (h : Covered cfg m) (index : Nat) (input : WatchInput B)
    (hok : DropsCovered cfg m (.watch index input)) : Covered cfg (watchInput cfg index input m) := by
  unfold watchInput
  cases hg : m.goroutines[index]? with
  | none => exact h
  | some g =>
    refine h.handed_over cfg index g _ _ (fun r hr => ?_)
    obtain ⟨hkey, hepoch⟩ := sentResyncs_spec _ g.key (watchStep_effect _ _ _) r hr
    exact ⟨hkey, knownEpoch_takes hepoch, hok g hg r hr⟩

/-! ## 4. Epochs and replies -/

theorem currentEpoch_update (m : Mirror B D X) (state : FidelityState) :
    currentEpoch cfg { m with gate := Function.update m.gate cfg.gitDest.key (some state) } =
      state.epoch := by
  simp [currentEpoch]

section

variable (h : Covered cfg m)

include h

theorem Covered.declared [DecidableEq X] (scopes : List (TargetWatchKey × OperationSet))
    (hok : DropsCovered cfg m (.declare scopes)) :
    Covered cfg (declare cfg scopes m) := by
  have hepoch : currentEpoch cfg (declare cfg scopes m) = currentEpoch cfg m + 1 := by
    rw [← Nat.mod_eq_of_lt hok]
    simp [declare, RenderFidelityGate.begin, currentEpoch]
  -- every resync so far belongs to an older epoch
  have hold : ∀ r ∈ m.resyncs, r.epoch < currentEpoch cfg m + 1 :=
    fun r hr => Nat.lt_succ_of_le (h.sent r hr)
  refine ⟨?_, ?_, ?_, h.queued, h.window, h.dropped, ?_, ?_⟩
  · rw [hepoch]
    simp only [declare, RenderFidelityGate.begin, Git.reduceRenderFidelity_epoch]
    exact Nat.mod_le _ _
  · intro epoch hpublish
    rw [hepoch]
    exact Nat.le_succ_of_le (h.publishing epoch hpublish)
  · intro r hr
    rw [hepoch]
    exact Nat.le_of_lt (hold r hr)
  · intro state hstate key result hmem hclean
    simp only [declare, RenderFidelityGate.begin, Function.update_self, Option.some.injEq] at hstate
    subst hstate
    -- all scopes of the new epoch are pending
    have := Git.pendingScopes_not_clean _ _ hmem
    rw [hclean] at this
    simp at this
  · intro item hitem r hr hkey hr'
    rw [hepoch] at hr'
    exact absurd hr' (Nat.ne_of_lt (hold r hr))

theorem Covered.gate_updated (state' : FidelityState)
    (hstate : m.gate cfg.gitDest.key = some state) (hepoch : state'.epoch = state.epoch)
    (hscope : ∀ key result, (ScopeKey.scope key, result) ∈ state'.scopes → result.isClean = true →
      (ScopeKey.scope key, result) ∈ state.scopes ∨
        ∃ r ∈ m.resyncs, r.key = key ∧ r.epoch = state.epoch ∧ r.fate = .applied) :
    Covered cfg { m with gate := Function.update m.gate cfg.gitDest.key (some state') } := by
  have hsame : currentEpoch cfg { m with gate := Function.update m.gate cfg.gitDest.key (some state') }
      = currentEpoch cfg m := by
    rw [currentEpoch_update, hepoch, currentEpoch, hstate]
    rfl
  refine ⟨by rw [hsame]; exact h.projected, by rw [hsame]; exact h.publishing,
    by rw [hsame]; exact h.sent, h.queued, h.window, h.dropped, ?_, by rw [hsame]; exact h.covered⟩
  intro final hfinal key result hmem hclean
  simp only [Function.update_self, Option.some.injEq] at hfinal
  subst hfinal
  rw [hepoch]
  rcases hscope key result hmem hclean with hold | happlied
  · exact h.applied state hstate key result hold hclean
  · exact happlied

theorem Covered.published (hepoch : epoch ≤ currentEpoch cfg m) :
    Covered cfg { m with publishing := epoch :: m.publishing } :=
  ⟨h.projected, by
    intro e he
    rcases List.mem_cons.mp he with rfl | he
    · exact hepoch
    · exact h.publishing e he, h.sent, h.queued, h.window, h.dropped, h.applied, h.covered⟩

/-- Recording the reply of a resync that was applied, or that diverged. -/
theorem Covered.recorded (hr : m.resyncs[index]? = some r) (divergence : Option RenderDivergence)
    (hfate : divergence = none → r.fate = .applied)
    (hrec : m.gate.recordScope cfg.gitDest r.epoch (.scope r.key) divergence = (gate, some status)) :
    Covered cfg { m with
      gate := gate
      publishing := status.epoch :: m.publishing
      resyncs := m.resyncs.set index { r with drained := true } } := by
  obtain ⟨state, hstate, hepoch, hstates, hgate⟩ := Git.recordScope_spec hrec
  have hmem : r ∈ m.resyncs := List.mem_of_getElem? hr
  have hcur : currentEpoch cfg m = r.epoch := by
    rw [currentEpoch, hstate, ← hepoch]
    rfl
  have hpublish := h.published cfg (by rw [hstates, hcur] : status.epoch ≤ currentEpoch cfg m)
  -- a scope that is not of this epoch is not recorded
  rcases hgate with rfl | rfl
  · exact hpublish.answer cfg (answered_drained hr)
  · have hscope : ∀ key result, (ScopeKey.scope key, result) ∈
        Git.setScope (.scope r.key) ⟨divergence.isNone, true, divergence⟩ state.scopes →
        result.isClean = true → (ScopeKey.scope key, result) ∈ state.scopes ∨
          ∃ r ∈ m.resyncs, r.key = key ∧ r.epoch = state.epoch ∧ r.fate = .applied := by
      intro key result hscopes hclean
      rcases Git.mem_setScope hscopes with heq | hold
      · right
        obtain ⟨hkey, rfl⟩ := Prod.mk.inj heq
        have hnone : divergence = none := by
          cases divergence with
          | none => rfl
          | some d => simp [Git.ScopeResult.isClean] at hclean
        exact ⟨r, hmem, (ScopeKey.scope.inj hkey).symm, hepoch.symm, hfate hnone⟩
      · exact Or.inl hold
    exact (hpublish.gate_updated cfg { state with
      scopes := Git.setScope (.scope r.key) ⟨divergence.isNone, true, divergence⟩ state.scopes }
      hstate rfl hscope).answer cfg (answered_drained hr)

theorem Covered.resync_drained (index : Nat) (timedOut : Bool) (divergence : RenderDivergence) :
    Covered cfg (drainResync cfg index timedOut divergence m) := by
  unfold drainResync
  cases hr : m.resyncs[index]? with
  | none => exact h
  | some r =>
    have hfinal : Covered cfg { m with resyncs := m.resyncs.set index { r with drained := true } } :=
      h.answer cfg (answered_drained hr)
    simp only
    split
    · exact h
    · split
      · exact hfinal
      · split
        · exact h
        · rename_i hfate
          split
          · exact hfinal
          · split
            · rename_i gate status hrec
              exact h.recorded cfg hr none (fun _ => hfate) hrec
            · exact hfinal
        · split
          · exact hfinal
          · split
            · rename_i gate status hrec
              exact h.recorded cfg hr (some divergence) (by simp) hrec
            · exact hfinal
        · exact hfinal
        · exact hfinal
        · exact hfinal

theorem Covered.target_failed (divergence : RenderDivergence) :
    Covered cfg (failTarget cfg divergence m) := by
  unfold failTarget RenderFidelityGate.fail
  cases hstate : m.gate cfg.gitDest.key with
  | some state =>
    have hupdate := h.gate_updated cfg { state with
        scopes := Git.setScope .write ⟨false, true, some divergence⟩ state.scopes } hstate rfl (by
      intro key result hscope hclean
      rcases Git.mem_setScope hscope with heq | hold
      · simp at heq
      · exact Or.inl hold)
    refine hupdate.published cfg ?_
    rw [Git.reduceRenderFidelity_epoch, currentEpoch_update]
  | none =>
    -- no state yet, so no resync can be of its epoch
    have hzero : currentEpoch cfg m = 0 := by simp [currentEpoch, hstate]
    simp only
    refine ⟨?_, ?_, ?_, h.queued, h.window, h.dropped, ?_, ?_⟩
    · have := h.projected
      simp only [currentEpoch, Function.update_self, Option.map_some, Option.getD_some]
      omega
    · intro epoch hpublish
      simp only [currentEpoch, Function.update_self, Option.map_some, Option.getD_some]
      rcases List.mem_cons.mp hpublish with rfl | hpublish
      · rw [Git.reduceRenderFidelity_epoch]
      · have := h.publishing epoch hpublish
        omega
    · intro r hr
      have := h.sent r hr
      simp only [currentEpoch, Function.update_self, Option.map_some, Option.getD_some]
      omega
    · intro final hfinal key result hmem
      simp only [Function.update_self, Option.some.injEq] at hfinal
      subst hfinal
      simp at hmem
    · intro item hitem r hr hkey hepoch
      have := h.sent r hr
      simp only [currentEpoch, Function.update_self, Option.map_some, Option.getD_some] at hepoch
      omega

end

/-! ## 5. The loop of the branch worker -/

section Loop

variable {H T : Type} [DecidableEq H] [EmptyCollection T] {S : Reasoning.ObjectStore H T}
  (env : Nat → Git.World S) (loopCfg : Git.LoopConfig) {m : Mirror B D X} {l : Git.Loop H T}

def targetKey : Git.TargetKey := ⟨cfg.gitDest.name, cfg.gitDest.ns⟩

/-- The loop stands where the worker of the mirror does: it has a window open exactly when the mirror
    has one, and of this target. -/
structure Stands (m : Mirror B D X) (l : Git.Loop H T) : Prop where
  opened : l.openWindow = none ↔ m.window = []
  own : ∀ window, l.openWindow = some window → window.target = targetKey cfg

/-- What the mirror's worker drops at the closed gate, an event or its window, leaves the loop without
    a trace in the retained writes or the clone. -/
theorem Stands.drops_alike (h : Stands cfg m l) (hclosed : gateOpen cfg m = false)
    (hasks : ∀ tick, (env tick).writesAllowed (targetKey cfg) = gateOpen cfg m) :
    (∀ item rest identityChange fate, m.queue = .live item :: rest → ∀ r : Git.WriteRequest,
      r.atomic = false → (∀ e ∈ r.events, e.target = targetKey cfg) →
      let m' := handleItem cfg identityChange fate m
      let l' := Git.handleQueueItem env loopCfg (.write r) l
      m'.dropped = item :: m.dropped ∧ Stands cfg m' l' ∧ l'.pendingWrites = l.pendingWrites ∧
        l'.w.repo = l.w.repo) ∧
    (let m' := closeWindow cfg m
    let l' := (Git.finalizeOpenWindow env loopCfg l).1
    m'.dropped = m.window ++ m.dropped ∧ Stands cfg m' l' ∧ l'.pendingWrites = l.pendingWrites ∧
      l'.w.repo = l.w.repo) := by
  have hrefused : ∀ tick, (env tick).writesAllowed (targetKey cfg) = false :=
    fun tick => (hasks tick).trans hclosed
  constructor
  · intro item rest identityChange fate hqueue r hlive htarget
    obtain ⟨tick, hloop⟩ := Git.closedGate_drops_events env loopCfg r hlive l
      (fun tick e he => htarget e he ▸ hrefused tick)
    rw [hloop]
    simp only [handleItem, hqueue, hclosed, if_true, and_self, and_true, true_and]
    exact ⟨h.opened, h.own⟩
  · simp only [closeWindow, hclosed, Bool.false_eq_true, if_false]
    cases hopen : l.openWindow with
    | none =>
      have hidle : Git.finalizeOpenWindow env loopCfg l = (l, false) := by
        simp only [Git.finalizeOpenWindow, Git.finalizeOpenWindowWithMessage, hopen]
      rw [hidle]
      exact ⟨trivial, ⟨⟨fun _ => rfl, fun _ => hopen⟩, h.own⟩, rfl, rfl⟩
    | some window =>
      obtain ⟨hnone, hwrites, hrepo⟩ := Git.closedGate_drops_window env loopCfg l window hopen
        (h.own window hopen ▸ hrefused l.w.tick)
      refine ⟨trivial, ⟨⟨fun _ => rfl, fun _ => hnone⟩, fun window' hwindow' => ?_⟩, hwrites, hrepo⟩
      rw [hnone] at hwindow'
      cases hwindow'

end Loop

/-! ## 6. The run -/

theorem covered_step [DecidableEq X] (m : Mirror B D X) (input : MirrorInput B)
    (hok : DropsCovered cfg m input)
    (h : Covered cfg m) : Covered cfg (mirrorStep cfg m input) := by
  cases input with
  | declare scopes => exact h.declared cfg scopes hok
  | watch index input => exact h.watched cfg index input hok
  | handle identityChange fate => exact h.item_handled cfg identityChange fate hok
  | finalize => exact h.window_closed cfg hok
  | drain index timedOut divergence => exact h.resync_drained cfg index timedOut divergence
  | publish index =>
    simp only [mirrorStep, publishStatus]
    split
    · exact h
    · rename_i epoch hepoch
      exact ⟨h.publishing epoch (List.mem_of_getElem? hepoch), h.publishing, h.sent, h.queued,
        h.window, h.dropped, h.applied, h.covered⟩
  | diverge divergence => exact h.target_failed cfg divergence

def streamAnswers : Answers Nat :=
  { calmAnswers with list := .error "forbidden" }

def bookmarkAt (rv : String) : WatchInput Nat :=
  .event (initialEventsBookmark { sampleBookmark with resourceVersion := rv }) streamAnswers

def updateAt (rv : String) : WatchInput Nat :=
  .event (Change.event (.modified { sampleObject "a" 2 with resourceVersion := rv })) streamAnswers

def mirrorOf (inputs : List (MirrorInput Nat)) : Mirror Nat Nat Nat :=
  inputs.foldl (mirrorStep sampleWatchConfig) (initialMirror (fun _ => none))

def defaultScope : TargetWatchKey := ⟨configMaps, "default"⟩

def otherScope : TargetWatchKey := ⟨configMaps, "other"⟩

def noDivergence : RenderDivergence := ⟨"", ""⟩

def replayScope (index : Nat) (rv : String) : List (MirrorInput Nat) :=
  [.watch index (.session streamAnswers), .watch index (bookmarkAt rv), .handle false .applied,
    .drain index false noDivergence]

def redeclaredInputs : List (MirrorInput Nat) :=
  [.declare [(defaultScope, ∅)]] ++ replayScope 0 "9" ++
    [.watch 0 (updateAt "10"), .declare [(defaultScope, ∅)], .handle false .applied] ++
    replayScope 1 "12"

end GitopsReverser.Watch
