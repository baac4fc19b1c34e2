import GitopsReverser.Reasoning.Lists
import GitopsReverser.Git.WorkerSpec
import GitopsReverser.Git.EventLoop
import GitopsReverser.Reasoning.Runs

/-!
# PruneModes — the policy a replayed write is planned under

A write captures the prune mode of its target when it is built. Before every replay the policies
are read again and the captured modes lowered. Two lookups find the mode: the sweep of a resync by
the name of the target, a live delete by the path of its folder.
-/

namespace GitopsReverser.Git

open Reasoning

variable {H T : Type}

/-! ## 1. The two lookups -/

def PendingWrite.targetIdentity (pw : PendingWrite H) : TargetKey :=
  if pw.kind = .atomic ∨ pw.kind = .resync then pw.target
  else match pw.events with
    | [] => ⟨"", ""⟩
    | e :: _ => e.target

def zeroMetadata : ResolvedTargetMetadata := ⟨⟨"", ""⟩, [], .unset⟩

def PendingWrite.findTargetMetadata (pw : PendingWrite H) (key : TargetKey) :
    ResolvedTargetMetadata :=
  if key.name = "" ∨ key.ns = "" then zeroMetadata
  else match pw.targets.find? (fun t => t.1 = key) with
    | some t => t.2
    | none => zeroMetadata

def PendingWrite.resolvedTarget (pw : PendingWrite H) : ResolvedTargetMetadata :=
  let md := pw.findTargetMetadata pw.targetIdentity
  if md.key.name ≠ "" then md else ⟨pw.targetIdentity, [], .unset⟩

def sweepMode (pw : PendingWrite H) : PruneMode := pw.resolvedTarget.pruneMode.orDefault

def pruneModeForBase (targets : List (TargetKey × ResolvedTargetMetadata)) (base : Path) :
    PruneMode :=
  match targets.find? (fun t => sanitizePath t.2.path = base) with
  | some t => t.2.pruneMode.orDefault
  -- no target owns the base
  | none => .onEvent

/-- At least as restrictive: what `m` removes, `other` allows to be removed. -/
structure PruneMode.AsStrictAs (m other : PruneMode) : Prop where
  rank : m.restrictiveness ≤ other.restrictiveness
  deletes : m.orDefault.appliesEventDeletes = true → other.orDefault.appliesEventDeletes = true
  sweeps : m.orDefault.sweepsOrphans = true → other.orDefault.sweepsOrphans = true

theorem PruneMode.appliesEventDeletes_iff (m : PruneMode) :
    m.orDefault.appliesEventDeletes = true ↔ 1 ≤ m.restrictiveness := by
  cases m <;> simp [orDefault, appliesEventDeletes, restrictiveness]

theorem PruneMode.sweepsOrphans_iff (m : PruneMode) :
    m.orDefault.sweepsOrphans = true ↔ 2 ≤ m.restrictiveness := by
  cases m <;> simp [orDefault, sweepsOrphans, restrictiveness]

theorem PruneMode.AsStrictAs.of_rank {m other : PruneMode}
    (h : m.restrictiveness ≤ other.restrictiveness) : m.AsStrictAs other where
  rank := h
  deletes hm := other.appliesEventDeletes_iff.mpr ((m.appliesEventDeletes_iff.mp hm).trans h)
  sweeps hm := other.sweepsOrphans_iff.mpr ((m.sweepsOrphans_iff.mp hm).trans h)

@[simp] theorem PruneMode.restrictiveness_orDefault (m : PruneMode) :
    m.orDefault.restrictiveness = m.restrictiveness := by
  cases m <;> rfl

theorem PruneMode.restrictiveness_moreRestrictiveOf (m current : PruneMode) :
    (m.moreRestrictiveOf current).restrictiveness = min m.restrictiveness current.restrictiveness := by
  unfold moreRestrictiveOf
  split <;> simp <;> omega

theorem restrictiveness_tightenMetadata (md : ResolvedTargetMetadata) (current : PruneMode) :
    (tightenMetadata md current).pruneMode.restrictiveness =
      min md.pruneMode.restrictiveness current.restrictiveness := by
  unfold tightenMetadata
  simp only
  split
  · rename_i hsame
    rw [← PruneMode.restrictiveness_moreRestrictiveOf, hsame, PruneMode.restrictiveness_orDefault]
  · exact PruneMode.restrictiveness_moreRestrictiveOf _ _

theorem tightenMetadata_place (md : ResolvedTargetMetadata) (current : PruneMode) :
    (tightenMetadata md current).key = md.key ∧ (tightenMetadata md current).path = md.path := by
  unfold tightenMetadata
  simp only
  split <;> exact ⟨rfl, rfl⟩

/-! ## 2. One pass -/

variable {S : ObjectStore H T} (env : Nat → World S)

def readPolicy (current : List (TargetKey × PruneMode)) (key : TargetKey) (w : Worker H T) :
    Worker H T × Option PruneMode :=
  match current.find? (fun entry => entry.1 = key) with
  | some entry => (w, some entry.2)
  | none => match (env w.tick).getGitTarget key with
    | .gone => (w.next, some .never)
    | .failed => (w.next, none)
    | .found _ mode => (w.next, some mode.orDefault)

/-- What a pass over these targets has read in the end, and what it has not reached when a read
    fails. -/
structure PassOutcome (H T : Type) where
  w : Worker H T
  reads : List (TargetKey × PruneMode)
  unreached : List (TargetKey × ResolvedTargetMetadata)

def policyPass : List (TargetKey × ResolvedTargetMetadata) → List (TargetKey × PruneMode) →
    Worker H T → PassOutcome H T
  | [], current, w => ⟨w, current, []⟩
  | (key, md) :: rest, current, w =>
    match readPolicy env current key w with
    | (w₁, none) => ⟨w₁, current, (key, md) :: rest⟩
    | (w₁, some mode) => policyPass rest ((key, mode) :: current) w₁

variable {current : List (TargetKey × PruneMode)} {key : TargetKey} {w w₁ : Worker H T}
  {targets : List (TargetKey × ResolvedTargetMetadata)} {t : TargetKey × ResolvedTargetMetadata}
  {reads : List (TargetKey × PruneMode)} {pw : PendingWrite H}

theorem policyPass_append (first second : List (TargetKey × ResolvedTargetMetadata))
    (current : List (TargetKey × PruneMode)) (w : Worker H T) :
    policyPass env (first ++ second) current w =
      let p := policyPass env first current w
      if p.unreached = [] then policyPass env second p.reads p.w
      else { p with unreached := p.unreached ++ second } := by
  fun_induction policyPass env first current w with
  | case1 => rfl
  | case2 current w key md rest w₁ hread => simp [policyPass, hread]
  | case3 current w key md rest w₁ mode hread ih => simpa [policyPass, hread] using ih

theorem policyPass_reads_mono (hr : r ∈ current) : r ∈ (policyPass env targets current w).reads := by
  fun_induction policyPass env targets current w with
  | case1 | case2 => exact hr
  | case3 current w key md rest w₁ mode hread ih => exact ih (List.mem_cons_of_mem _ hr)

theorem policyPass_reads_keys (hr : r ∈ (policyPass env targets current w).reads) :
    r ∈ current ∨ r.1 ∈ targets.map Prod.fst := by
  fun_induction policyPass env targets current w with
  | case1 | case2 => exact .inl hr
  | case3 current w key md rest w₁ mode hread ih =>
    rcases ih hr with hr | hr
    · rcases List.mem_cons.mp hr with rfl | hr
      · exact .inr List.mem_cons_self
      · exact .inl hr
    · exact .inr (List.mem_cons_of_mem _ hr)

def ReadOnce (reads : List (TargetKey × PruneMode)) : Prop :=
  ∀ key m m', (key, m) ∈ reads → (key, m') ∈ reads → m = m'

theorem ReadOnce.read (h : ReadOnce current)
    (hread : readPolicy env current key w = (w₁, some mode)) : ReadOnce ((key, mode) :: current) := by
  have hknow : ∀ m, (key, m) ∈ current → m = mode := by
    intro m hm
    unfold readPolicy at hread
    cases hfind : current.find? (fun entry => entry.1 = key) with
    | none => exact absurd (List.find?_eq_none.mp hfind _ hm) (by simp)
    | some entry =>
      rw [hfind] at hread
      obtain rfl : entry.2 = mode := Option.some.inj (Prod.mk.inj hread).2
      have hkey : entry.1 = key := by simpa using List.find?_some hfind
      exact h key m entry.2 hm (hkey ▸ List.mem_of_find?_eq_some hfind)
  intro k m m' hm hm'
  rcases List.mem_cons.mp hm with heq | hold <;> rcases List.mem_cons.mp hm' with heq' | hold'
  · rw [(Prod.mk.inj heq).2, (Prod.mk.inj heq').2]
  · obtain ⟨rfl, rfl⟩ := Prod.mk.inj heq
    exact (hknow m' hold').symm
  · obtain ⟨rfl, rfl⟩ := Prod.mk.inj heq'
    exact hknow m hold
  · exact h k m m' hold hold'

theorem readOnce_policyPass (targets : List (TargetKey × ResolvedTargetMetadata))
    (h : ReadOnce current) (w : Worker H T) :
    ReadOnce (policyPass env targets current w).reads := by
  fun_induction policyPass env targets current w with
  | case1 | case2 => exact h
  | case3 current w key md rest w₁ mode hread ih => exact ih (h.read env hread)

def Lowers (targets : List (TargetKey × ResolvedTargetMetadata))
    (after : TargetKey × ResolvedTargetMetadata) : Prop :=
  ∃ md, (after.1, md) ∈ targets ∧ after.2.key = md.key ∧ after.2.path = md.path ∧
    after.2.pruneMode.restrictiveness ≤ md.pruneMode.restrictiveness

theorem lowers_self (ht : t ∈ targets) : Lowers targets t := ⟨t.2, ht, rfl, rfl, le_rfl⟩

/-- What a pass makes of one target: lowered to what it has read, or not reached. -/
structure Lowered (targets : List (TargetKey × ResolvedTargetMetadata)) (p : PassOutcome H T)
    (after : TargetKey × ResolvedTargetMetadata) : Prop where
  before : Lowers targets after
  read : (∃ mode, (after.1, mode) ∈ p.reads ∧
    after.2.pruneMode.restrictiveness ≤ mode.restrictiveness) ∨ after ∈ p.unreached

theorem Lowered.mono (h : Lowered targets p t)
    (hsub : ∀ t ∈ targets, t ∈ targets') : Lowered targets' p t := by
  obtain ⟨⟨md, hmd, hplain⟩, hread⟩ := h
  exact ⟨⟨md, hsub _ hmd, hplain⟩, hread⟩

theorem tightenTargets_pass (targets : List (TargetKey × ResolvedTargetMetadata))
    (current : List (TargetKey × PruneMode)) (w : Worker H T) :
    let p := policyPass env targets current w
    (tightenTargets env targets current w).1 = p.w ∧
    (tightenTargets env targets current w).2.2 = (if p.unreached = [] then some p.reads else none) ∧
    (tightenTargets env targets current w).2.1.map Prod.fst = targets.map Prod.fst ∧
    ∀ t ∈ (tightenTargets env targets current w).2.1, Lowered targets p t := by
  intro p
  induction targets generalizing current w with
  | nil => exact ⟨rfl, rfl, rfl, by simp [tightenTargets]⟩
  | cons entry rest ih =>
    obtain ⟨key, md⟩ := entry
    have hunfold : tightenTargets env ((key, md) :: rest) current w =
        match readPolicy env current key w with
        | (w₁, none) => (w₁, (key, md) :: rest, none)
        | (w₁, some mode) =>
          let r := tightenTargets env rest ((key, mode) :: current) w₁
          (r.1, (key, tightenMetadata md mode) :: r.2.1, r.2.2) := rfl
    subst p
    rw [hunfold, policyPass]
    cases hread : readPolicy env current key w with
    | mk w₁ mode =>
      cases mode with
      | none => exact ⟨rfl, rfl, rfl, fun t ht => ⟨lowers_self ht, .inr ht⟩⟩
      | some mode =>
        obtain ⟨hw, hseen, hkeys, hlow⟩ := ih ((key, mode) :: current) w₁
        refine ⟨hw, hseen, congrArg (key :: ·) hkeys, fun t ht => ?_⟩
        rcases List.mem_cons.mp ht with rfl | ht
        · have hrank := restrictiveness_tightenMetadata md mode
          obtain ⟨hkey, hpath⟩ := tightenMetadata_place md mode
          refine ⟨⟨md, List.mem_cons_self, hkey, hpath, ?_⟩, Or.inl ⟨mode, ?_, ?_⟩⟩
          · exact hrank.trans_le (min_le_left _ _)
          · exact policyPass_reads_mono env List.mem_cons_self
          · exact hrank.trans_le (min_le_right _ _)
        · exact (hlow t ht).mono (fun t ht => List.mem_cons_of_mem _ ht)

/-- What is out of reach is already as strict as what the pass has read of the same target. -/
def PassOutcome.Reaches (p : PassOutcome H T) : Prop :=
  ∀ t ∈ p.unreached, ∀ r ∈ p.reads, r.1 = t.1 → t.2.pruneMode.restrictiveness ≤ r.2.restrictiveness
  deriving Decidable

/-- A write after a pass that has read these modes. -/
structure Tightened (reads : List (TargetKey × PruneMode)) (before after : PendingWrite H) :
    Prop where
  kind : after.kind = before.kind
  events : after.events = before.events
  target : after.target = before.target
  keys : after.targets.map Prod.fst = before.targets.map Prod.fst
  lowered : ∀ t ∈ after.targets, Lowers before.targets t
  strict : ∀ t ∈ after.targets, ∀ mode, (t.1, mode) ∈ reads →
    t.2.pruneMode.restrictiveness ≤ mode.restrictiveness

theorem tightened_lowered {p q : PassOutcome H T}
    (hkeys : targets.map Prod.fst = pw.targets.map Prod.fst)
    (hlow : ∀ t ∈ targets, Lowered pw.targets p t) (hreads : ∀ r ∈ p.reads, r ∈ q.reads)
    (hunreached : ∀ t ∈ p.unreached, t ∈ q.unreached) (honce : ReadOnce q.reads) (hreach : q.Reaches) :
    Tightened q.reads pw { pw with targets := targets } where
  kind := rfl
  events := rfl
  target := rfl
  keys := hkeys
  lowered t ht := (hlow t ht).before
  strict t ht mode hmode := by
    rcases (hlow t ht).read with ⟨read, hread, hrank⟩ | hun
    · rwa [honce t.1 mode read hmode (hreads _ hread)]
    · exact hreach t (hunreached t hun) _ hmode rfl

theorem tightened_self (h : ∀ t ∈ pw.targets, ∀ mode, (t.1, mode) ∈ reads →
    t.2.pruneMode.restrictiveness ≤ mode.restrictiveness) : Tightened reads pw pw :=
  ⟨rfl, rfl, rfl, rfl, fun _ ht => lowers_self ht, h⟩

theorem tightenPendingPruneModes_tightened (writes : List (PendingWrite H))
    (honce : ReadOnce current) (w : Worker H T)
    (hreach : (policyPass env (writes.flatMap PendingWrite.targets) current w).Reaches) :
    List.Forall₂ (Tightened (policyPass env (writes.flatMap PendingWrite.targets) current w).reads)
      writes (tightenPendingPruneModes env writes current w).2.1 := by
  induction writes generalizing current w with
  | nil => exact List.Forall₂.nil
  | cons pw rest ih =>
    obtain ⟨hw, hseen, hkeys, hlow⟩ := tightenTargets_pass env pw.targets current w
    have honce' := readOnce_policyPass env ((pw :: rest).flatMap PendingWrite.targets) honce w
    rw [List.flatMap_cons, policyPass_append] at hreach honce' ⊢
    simp only at hreach honce' ⊢
    rw [tightenPendingPruneModes]
    generalize policyPass env pw.targets current w = p at hw hseen hlow hreach honce' ⊢
    generalize tightenTargets env pw.targets current w = result at hw hseen hkeys hlow ⊢
    obtain ⟨w₁, targets, seen⟩ := result
    obtain rfl : w₁ = p.w := hw
    obtain rfl : seen = _ := hseen
    by_cases hall : p.unreached = []
    · rw [if_pos hall] at hreach honce' ⊢
      rw [if_pos hall]
      have hp : ReadOnce p.reads := fun k m m' hm hm' =>
        honce' k m m' (policyPass_reads_mono env hm) (policyPass_reads_mono env hm')
      refine List.Forall₂.cons ?_ (ih hp p.w hreach)
      refine tightened_lowered hkeys hlow (fun r hr => policyPass_reads_mono env hr) ?_ honce' hreach
      simp [hall]
    · -- the pass stopped in this write, and the others are not reached
      rw [if_neg hall] at hreach honce' ⊢
      rw [if_neg hall]
      refine List.Forall₂.cons ?_ (List.forall₂_same.mpr (fun pw' hpw' => ?_))
      · exact tightened_lowered hkeys hlow (fun r hr => hr)
          (fun t ht => List.mem_append_left _ ht) honce' hreach
      · have hun : ∀ t ∈ pw'.targets, t ∈ p.unreached ++ rest.flatMap PendingWrite.targets :=
          fun t ht => List.mem_append_right _ (List.mem_flatMap.mpr ⟨pw', hpw', ht⟩)
        exact tightened_self (fun t ht mode hmode => hreach t (hun t ht) _ hmode rfl)

/-! ## 3. One replay -/

theorem Tightened.reapplied (h : Tightened reads a b)
    (hsame : Reapplied b c) : Tightened reads a c := by
  rw [hsame.same]
  exact ⟨h.kind, h.events, h.target, h.keys, h.lowered, h.strict⟩

theorem forall₂_tightened_reapplied
    (hab : List.Forall₂ (Tightened reads) a b) (hbc : List.Forall₂ Reapplied b c) :
    List.Forall₂ (Tightened reads) a c := by
  induction hab generalizing c with
  | nil =>
    cases hbc
    exact List.Forall₂.nil
  | cons h _ ih =>
    cases hbc with
    | cons h' hrest => exact List.Forall₂.cons (h.reapplied h') (ih hrest)

section Replay

variable (target : Branch)

/-- The pass of `rebuildPendingWrites`; there is none without a branch to write to. -/
def rebuildPass (writes : List (PendingWrite H)) (w : Worker H T) : PassOutcome H T :=
  match w.ensureWriteBranch env target with
  | (w₁, none) => ⟨w₁, [], []⟩
  | (w₁, some _) => policyPass env (writes.flatMap PendingWrite.targets) [] w₁

/-- A replay plans its writes under the modes its own pass has lowered. -/
theorem rebuildPendingWrites_tightened (writes : List (PendingWrite H)) (w : Worker H T)
    (hreach : (rebuildPass env target writes w).Reaches) :
    List.Forall₂ (Tightened (rebuildPass env target writes w).reads) writes
      (rebuildPendingWrites env target writes w).2.1 := by
  unfold rebuildPass at hreach ⊢
  unfold rebuildPendingWrites
  generalize w.ensureWriteBranch env target = ensured at hreach ⊢
  obtain ⟨w₁, _ | base⟩ := ensured
  · exact List.forall₂_same.mpr (fun pw _ => tightened_self (by simp))
  · have hnone : ReadOnce [] := by simp [ReadOnce]
    have htighten := tightenPendingPruneModes_tightened env writes hnone w₁ hreach
    dsimp only at htighten ⊢
    generalize tightenPendingPruneModes env writes [] w₁ = result at htighten ⊢
    obtain ⟨w₂, tightened, _ | _⟩ := result
    · exact htighten
    · exact forall₂_tightened_reapplied htighten (executePendingWrites_spec env tightened w₂).2.1

/-! ## 4. Runs -/

/-- A retained write; `captured` and `reread` are specification fields: the modes it was built
    with, and those read in all its replays. -/
structure Retained (H : Type) where
  write : PendingWrite H
  captured : List (TargetKey × PruneMode)
  reread : List (TargetKey × PruneMode)

/-- What becomes of the retained writes. The worker and the answers it gets are those of the
    moment. -/
inductive PruneInput (S : ObjectStore H T) where
  | grouped (env : Nat → World S) (w : Worker H T) (events : List Event)
  | atomic (env : Nat → World S) (w : Worker H T) (request : WriteRequest)
  | resync (env : Nat → World S) (w : Worker H T) (request : ResyncRequest)
  | replay (env : Nat → World S) (w : Worker H T)
  | published

def PruneInput.build : PruneInput S → Option (PendingWrite H)
  | .grouped env w events => (buildGroupedPendingWrite env events w).2
  | .atomic env w request => (buildAtomicPendingWrite env request w).2
  | .resync env w request => (buildResyncPendingWrite env request w).2
  | .replay _ _ => none
  | .published => none

def retain (pw : PendingWrite H) : Retained H :=
  ⟨pw, pw.targets.map (fun t => (t.1, t.2.pruneMode)), []⟩

def pruneStep (rs : List (Retained H)) (input : PruneInput S) : List (Retained H) :=
  match input with
  | .replay env w =>
    let writes := rs.map Retained.write
    let reads := (rebuildPass env target writes w).reads
    List.zipWith (fun r pw => { r with write := pw, reread := reads ++ r.reread }) rs
      (rebuildPendingWrites env target writes w).2.1
  | .published => []
  | input => rs ++ (input.build.map retain).toList

/-- Every event is filed in the folder of the target it names, and of no other. -/
structure OwnPaths (pw : PendingWrite H) : Prop where
  own : ∀ e ∈ pw.events, e.target.name ≠ "" → e.target.ns ≠ "" →
    ∃ md, (e.target, md) ∈ pw.targets ∧ sanitizePath md.path = sanitizePath e.path
  unique : ∀ t ∈ pw.targets, ∀ t' ∈ pw.targets,
    sanitizePath t.2.path = sanitizePath t'.2.path → t.1 = t'.1

/-- No write has foreign paths, and no replay stops between two writes whose target it has read. -/
def Steady (rs : List (Retained H)) : PruneInput S → Prop
  | .replay env w => (rebuildPass env target (rs.map Retained.write) w).Reaches
  | .published => True
  | input => ∀ pw, input.build = some pw → OwnPaths pw

/-- Both lookups find a mode that is as strict as the captured one and as all that were read. -/
structure Retained.Obeys (r : Retained H) : Prop where
  sweep : r.write.kind = .resync → ∀ mode,
    (r.write.targetIdentity, mode) ∈ r.captured ++ r.reread → (sweepMode r.write).AsStrictAs mode
  delete : ∀ e ∈ r.write.events, ∀ mode, (e.target, mode) ∈ r.captured ++ r.reread →
    (pruneModeForBase r.write.targets (sanitizePath e.path)).AsStrictAs mode

/-- The targets of a write, as the builders make them. -/
structure WellTargeted (pw : PendingWrite H) : Prop where
  keys : (pw.targets.map Prod.fst).Nodup
  named : ∀ t ∈ pw.targets, t.2.key = t.1 ∧ t.1.name ≠ "" ∧ t.1.ns ≠ ""
  swept : pw.kind = .resync → pw.target ∈ pw.targets.map Prod.fst

structure Retained.Tight (r : Retained H) : Prop where
  targeted : WellTargeted r.write
  paths : OwnPaths r.write
  strict : ∀ t ∈ r.write.targets, ∀ mode, (t.1, mode) ∈ r.captured ++ r.reread →
    t.2.pruneMode.restrictiveness ≤ mode.restrictiveness
  known : ∀ read ∈ r.captured ++ r.reread, read.1.name ≠ "" ∧ read.1.ns ≠ ""

/-! ### Building -/

theorem resolveTargets_named (events : List Event)
    (targets : List (TargetKey × ResolvedTargetMetadata)) (w : Worker H T)
    (hkeys : (targets.map Prod.fst).Nodup)
    (hnamed : ∀ t ∈ targets, t.2.key = t.1 ∧ t.1.name ≠ "" ∧ t.1.ns ≠ "")
    (h : (resolveTargets env events targets w).2 = some resolved) :
    (resolved.map Prod.fst).Nodup ∧ ∀ t ∈ resolved, t.2.key = t.1 ∧ t.1.name ≠ "" ∧ t.1.ns ≠ "" := by
  -- a target joins only when it is named and new
  induction events generalizing targets w with
  | nil => exact Option.some.inj h ▸ ⟨hkeys, hnamed⟩
  | cons e events ih =>
    rw [resolveTargets] at h
    split at h
    · exact ih targets w hkeys hnamed h
    · rename_i hname
      rw [not_or] at hname
      split at h
      · exact ih targets w hkeys hnamed h
      · rename_i hnew
        split at h
        · refine ih _ _ ?_ ?_ h
          · rw [List.map_append, List.nodup_append]
            refine ⟨hkeys, by simp, fun k hk k' hk' hkk => hnew ?_⟩
            obtain ⟨t, ht, rfl⟩ := List.mem_map.mp hk
            obtain rfl : k' = e.target := by simpa using hk'
            exact List.any_eq_true.mpr ⟨t, ht, by simpa using hkk⟩
          · intro t ht
            rcases List.mem_append.mp ht with ht | ht
            · exact hnamed t ht
            · obtain rfl := List.mem_singleton.mp ht
              exact ⟨rfl, hname.1, hname.2⟩
        · simp at h

theorem buildGroupedPendingWrite_targeted (h : (buildGroupedPendingWrite env events w).2 = some pw) :
    WellTargeted pw := by
  unfold buildGroupedPendingWrite at h
  split at h
  · simp at h
  · split at h
    · simp at h
    · rename_i w₁ targets hres
      obtain ⟨hkeys, hname⟩ := resolveTargets_named env events [] w.next List.nodup_nil (by simp)
        (congrArg Prod.snd hres)
      obtain rfl := Option.some.inj h
      exact ⟨hkeys, hname, by simp⟩

theorem buildAtomicPendingWrite_targeted (h : (buildAtomicPendingWrite env request w).2 = some pw) :
    WellTargeted pw := by
  unfold buildAtomicPendingWrite at h
  split at h
  · simp at h
  · split at h
    · rename_i hname
      split at h
      · obtain rfl := Option.some.inj h
        exact ⟨by simp, by simpa using hname, by simp⟩
      · simp at h
    · obtain rfl := Option.some.inj h
      exact ⟨List.nodup_nil, by simp, by simp⟩

theorem buildResyncPendingWrite_targeted (h : (buildResyncPendingWrite env request w).2 = some pw) :
    WellTargeted pw := by
  unfold buildResyncPendingWrite at h
  split at h
  · simp at h
  · rename_i hname
    simp only [not_or] at hname
    split at h
    · obtain rfl := Option.some.inj h
      exact ⟨by simp, by simpa using ⟨hname.1, hname.2.1⟩, by simp⟩
    · simp at h

theorem build_targeted {input : PruneInput S} (h : input.build = some pw) : WellTargeted pw := by
  cases input with
  | grouped env w events => exact buildGroupedPendingWrite_targeted env h
  | atomic env w request => exact buildAtomicPendingWrite_targeted env h
  | resync env w request => exact buildResyncPendingWrite_targeted env h
  | replay env w | published => simp [PruneInput.build] at h

/-! ### Replaying -/

theorem rebuildPass_named (writes : List (PendingWrite H)) (w : Worker H T)
    (hname : ∀ pw ∈ writes, WellTargeted pw) :
    ∀ r ∈ (rebuildPass env target writes w).reads, r.1.name ≠ "" ∧ r.1.ns ≠ "" := by
  intro r hr
  unfold rebuildPass at hr
  generalize w.ensureWriteBranch env target = ensured at hr
  obtain ⟨w₁, _ | base⟩ := ensured
  · simp at hr
  · rcases policyPass_reads_keys env hr with hr | hr
    · simp at hr
    · obtain ⟨t, ht, hkey⟩ := List.mem_map.mp hr
      obtain ⟨pw, hpw, ht⟩ := List.mem_flatMap.mp ht
      exact hkey ▸ ((hname pw hpw).named t ht).2

theorem Tightened.wellTargeted (h : Tightened reads pw pw')
    (hpw : WellTargeted pw) : WellTargeted pw' where
  keys := h.keys ▸ hpw.keys
  named t ht := by
    obtain ⟨md, hmd, hkey, -⟩ := h.lowered t ht
    exact ⟨hkey.trans (hpw.named _ hmd).1, (hpw.named _ hmd).2⟩
  swept hkind := by
    rw [h.keys, h.target]
    exact hpw.swept (h.kind ▸ hkind)

theorem Tightened.ownPaths (h : Tightened reads pw pw') (htarget : WellTargeted pw) (hpw : OwnPaths pw) :
    OwnPaths pw' where
  own e he hname hns := by
    obtain ⟨md, hmd, hpath⟩ := hpw.own e (h.events ▸ he) hname hns
    have hkey : e.target ∈ pw'.targets.map Prod.fst := by
      rw [h.keys]
      exact List.mem_map.mpr ⟨_, hmd, rfl⟩
    obtain ⟨t, ht, htkey⟩ := List.mem_map.mp hkey
    obtain ⟨md', hmd', -, hpath', -⟩ := h.lowered t ht
    -- the write has one target of this name
    have hsame : (t.1, md') = (e.target, md) := List.inj_on_of_nodup_map htarget.keys hmd' hmd htkey
    refine ⟨t.2, htkey ▸ ht, ?_⟩
    rw [hpath', (Prod.mk.inj hsame).2, hpath]
  unique t ht t' ht' hpath := by
    obtain ⟨md, hmd, -, hmdp, -⟩ := h.lowered t ht
    obtain ⟨md', hmd', -, hmdp', -⟩ := h.lowered t' ht'
    exact hpw.unique (t.1, md) hmd (t'.1, md') hmd' (by rw [← hmdp, hpath, hmdp'])

theorem mem_append_left_comm {α : Type} (a : α) (l l' l'' : List α) :
    a ∈ l ++ (l' ++ l'') ↔ a ∈ l' ∨ a ∈ l ++ l'' := by
  simp only [List.mem_append, or_left_comm]

theorem Retained.Tight.replayed {r : Retained H} (h : r.Tight) (hpw : Tightened reads r.write pw)
    (hname : ∀ read ∈ reads, read.1.name ≠ "" ∧ read.1.ns ≠ "") :
    Retained.Tight { r with write := pw, reread := reads ++ r.reread } where
  targeted := hpw.wellTargeted h.targeted
  paths := hpw.ownPaths h.targeted h.paths
  strict t ht mode hmode := by
    obtain ⟨md, hmd, -, -, hrank⟩ := hpw.lowered t ht
    rcases (mem_append_left_comm ..).mp hmode with hmode | hmode
    · exact hpw.strict t ht mode hmode
    · exact hrank.trans (h.strict _ hmd mode hmode)
  known read hread := by
    rcases (mem_append_left_comm ..).mp hread with hread | hread
    · exact hname read hread
    · exact h.known read hread

theorem tight_retain (htarget : WellTargeted pw) (hpath : OwnPaths pw) : (retain pw).Tight where
  targeted := htarget
  paths := hpath
  strict t ht mode hmode := by
    obtain ⟨t', ht', heq⟩ := List.mem_map.mp (by simpa [retain] using hmode :
      (t.1, mode) ∈ pw.targets.map (fun t => (t.1, t.2.pruneMode)))
    obtain ⟨hkey, rfl⟩ := Prod.mk.inj heq
    rw [List.inj_on_of_nodup_map htarget.keys ht' ht hkey]
  known read hread := by
    obtain ⟨t, ht, rfl⟩ := List.mem_map.mp (by simpa [retain] using hread :
      read ∈ pw.targets.map (fun t => (t.1, t.2.pruneMode)))
    exact (htarget.named t ht).2

theorem tight_step (rs : List (Retained H)) (input : PruneInput S) (hok : Steady target rs input)
    (h : ∀ r ∈ rs, r.Tight) : ∀ r ∈ pruneStep target rs input, r.Tight := by
  have hbuild : (∀ pw, input.build = some pw → OwnPaths pw) →
      ∀ r ∈ rs ++ (input.build.map retain).toList, r.Tight := by
    intro hpaths r hr
    rcases List.mem_append.mp hr with hr | hr
    · exact h r hr
    · obtain ⟨pw, hpw, rfl⟩ := Option.map_eq_some_iff.mp (Option.mem_toList.mp hr)
      exact tight_retain (build_targeted hpw) (hpaths pw hpw)
  cases input with
  | grouped env w events | atomic env w request | resync env w request => exact hbuild hok
  | replay env w =>
    have htighten := rebuildPendingWrites_tightened env target (rs.map Retained.write) w hok
    have hname := rebuildPass_named env target (rs.map Retained.write) w (by
      intro pw hpw
      obtain ⟨r, hr, rfl⟩ := List.mem_map.mp hpw
      exact (h r hr).targeted)
    exact forall_mem_zipWith (List.forall₂_map_left_iff.mp htighten)
      (fun r hr pw hpw => (h r hr).replayed hpw hname)
  | published => simp [pruneStep]

theorem Retained.Tight.obeys {r : Retained H} (h : r.Tight) : r.Obeys where
  sweep hkind mode hmode := by
    have hidentity : r.write.targetIdentity = r.write.target := if_pos (Or.inr hkind)
    rw [hidentity] at hmode
    obtain ⟨t, ht, hkey⟩ := List.mem_map.mp (h.targeted.swept hkind)
    obtain ⟨found, hfound⟩ := Option.isSome_iff_exists.mp (List.find?_isSome.mpr
      ⟨t, ht, by simpa using hkey⟩ : (r.write.targets.find? (fun t => t.1 = r.write.target)).isSome)
    have hmem := List.mem_of_find?_eq_some hfound
    have hfkey : found.1 = r.write.target := by simpa using List.find?_some hfound
    obtain ⟨hname, hns⟩ := h.known _ hmode
    have hmd : r.write.findTargetMetadata r.write.target = found.2 := by
      rw [PendingWrite.findTargetMetadata, if_neg (by simp [hname, hns]), hfound]
    have hres : r.write.resolvedTarget = found.2 := by
      rw [PendingWrite.resolvedTarget, hidentity, hmd]
      exact if_pos ((h.targeted.named found hmem).1 ▸ (h.targeted.named found hmem).2.1)
    refine PruneMode.AsStrictAs.of_rank ?_
    rw [sweepMode, hres, PruneMode.restrictiveness_orDefault]
    exact h.strict found hmem mode (hfkey ▸ hmode)
  delete e he mode hmode := by
    obtain ⟨hname, hns⟩ := h.known _ hmode
    obtain ⟨md, hmd, hpath⟩ := h.paths.own e he hname hns
    obtain ⟨found, hfound⟩ := Option.isSome_iff_exists.mp (List.find?_isSome.mpr
      ⟨(e.target, md), hmd, by simpa using hpath⟩ :
        (r.write.targets.find? (fun t => sanitizePath t.2.path = sanitizePath e.path)).isSome)
    have hmem := List.mem_of_find?_eq_some hfound
    have hfpa : sanitizePath found.2.path = sanitizePath e.path := by
      simpa using List.find?_some hfound
    have hkey : found.1 = e.target :=
      h.paths.unique found hmem (e.target, md) hmd (hfpa.trans hpath.symm)
    refine PruneMode.AsStrictAs.of_rank ?_
    rw [pruneModeForBase, hfound]
    simpa using h.strict found hmem mode (hkey ▸ hmode)

/-- Every replay plans each of its writes under a mode that is as strict as the captured one and as
    every one read in a replay of the write so far, in every run of steady steps. -/
theorem replays_obey_every_policy (inputs : List (PruneInput S))
    (hinputs : AllSteps (pruneStep target) (Steady target) [] inputs) :
    ∀ r ∈ inputs.foldl (pruneStep target) [], r.Obeys := by
  have h := hinputs.invariant (tight_step target) (by simp)
  exact fun r hr => (h r hr).obeys

end Replay

def teamA : TargetKey := ⟨"a", "default"⟩

def teamB : TargetKey := ⟨"b", "default"⟩

def teamPolicies (a : PruneMode) (key : TargetKey) : TargetRead :=
  if key = teamA then .found ['a'] a else .found ['b'] .always

def policyEnv (policies : TargetKey → TargetRead) (_ : Nat) : World (freeStore (List Nat)) :=
  { World.calm _ (fun _ files => .changed (files ++ [1])) with getGitTarget := policies }

def policyWorker : Worker (Chain (List Nat)) (List Nat) :=
  ⟨featureClone, mainOnly, none, none, 0, [], []⟩

def resyncOf (key : TargetKey) : PruneInput (freeStore (List Nat)) :=
  .resync (policyEnv (teamPolicies .always)) policyWorker ⟨[], "", key, none, false, 0⟩

def replayUnder (policies : TargetKey → TargetRead) : PruneInput (freeStore (List Nat)) :=
  .replay (policyEnv policies) policyWorker

def interruptedInputs : List (PruneInput (freeStore (List Nat))) :=
  [resyncOf teamA, resyncOf teamB, resyncOf teamA,
    replayUnder (fun key => if key = teamA then .found ['a'] .never else .failed),
    replayUnder (teamPolicies .always)]

-- The first pass lowers the first write and stops; the third write sweeps in the second replay.
theorem interrupted_pass_forgets_policy :
    let retained := (interruptedInputs.take 4).foldl (pruneStep "feature") []
    let rs := interruptedInputs.foldl (pruneStep "feature") []
    rs.map (fun r => (r.write.target, sweepMode r.write)) =
      [(teamA, .never), (teamB, .always), (teamA, .always)] ∧
    (∀ r ∈ rs, (teamA, .never) ∈ r.reread) ∧
    (rebuildPendingWrites (policyEnv (teamPolicies .always)) "feature"
      (retained.map Retained.write) policyWorker).2.2 ≠ none ∧
    ¬ ∀ r ∈ rs, r.Obeys := by
  intro retained rs
  refine ⟨by decide, by decide, by decide, fun h => ?_⟩
  have hthird := h (rs.get ⟨2, by decide⟩) (List.get_mem _ _)
  exact absurd (hthird.sweep (by decide) .never (by decide)).rank (by decide)

def liveDelete : Event := ⟨"alice", .resolved, teamB, [], ['f'], "DELETE", none⟩

def tightenedInputs : List (PruneInput (freeStore (List Nat))) :=
  [resyncOf teamA, .grouped (policyEnv (teamPolicies .always)) policyWorker [liveDelete],
    replayUnder (teamPolicies .never), replayUnder (teamPolicies .always)]

theorem tightened_policy_kept :
    let rs := tightenedInputs.foldl (pruneStep "feature") []
    rs.map (fun r => (sweepMode r.write, pruneModeForBase r.write.targets ['b'])) =
      [(.never, .onEvent), (.always, .always)] ∧
    ∀ r ∈ rs, r.Obeys := by
  refine ⟨by decide, replays_obey_every_policy "feature" tightenedInputs ?_⟩
  refine ⟨fun pw hpw => ?_, fun pw hpw => ?_, ?_, ?_, trivial⟩
  · obtain rfl := Option.some.inj hpw
    exact ⟨by simp, by decide⟩
  · obtain rfl := Option.some.inj hpw
    refine ⟨fun e he _ _ => ?_, by decide⟩
    obtain rfl := List.mem_singleton.mp he
    exact ⟨⟨teamB, ['b'], .always⟩, by decide, by decide⟩
  · show PassOutcome.Reaches _
    decide
  · show PassOutcome.Reaches _
    decide

end GitopsReverser.Git
