import GitopsReverser.Git.Worker

/-!
# WorkerSpec — what committing and pushing preserve

`Published` is the invariant the worker lives by: HEAD is on the target branch and every
retained write has been applied at or below it. Committing on top keeps it, a completed replay
restores it, and a push that reports success puts the local head below the remote tip.
-/

namespace GitopsReverser.Git

open Reasoning

variable {H T : Type} {S : ObjectStore H T} (env : Nat → World S)

theorem triple_inj {α β γ : Type} {a a' : α} {b b' : β} {c c' : γ} (h : (a, b, c) = (a', b', c')) :
    a = a' ∧ b = b' ∧ c = c' := by
  simpa using h

/-- Re-applying a write keeps the request it carries and its size, and a recorded commit stays
    current. -/
structure Refreshed (before after : PendingWrite H) : Prop where
  commitRequest : after.commitRequest = before.commitRequest
  byteSize : after.byteSize = before.byteSize
  shaCurrent : before.ShaCurrent → after.ShaCurrent

theorem Refreshed.refl (pw : PendingWrite H) : Refreshed pw pw := ⟨rfl, rfl, id⟩

theorem Refreshed.trans {a b c : PendingWrite H} (hab : Refreshed a b) (hbc : Refreshed b c) :
    Refreshed a c :=
  ⟨hbc.commitRequest.trans hab.commitRequest, hbc.byteSize.trans hab.byteSize,
    fun h => hbc.shaCurrent (hab.shaCurrent h)⟩

variable (writes : List (PendingWrite H))

theorem forall₂_refreshed_refl : List.Forall₂ Refreshed writes writes :=
  List.forall₂_same.mpr (fun pw _ => Refreshed.refl pw)

/-- The write with the commit it has now. -/
structure Reapplied (before after : PendingWrite H) : Prop where
  same : after = { before with commitSHA := after.commitSHA, appliedAt := after.appliedAt }
  shaCurrent : before.ShaCurrent → after.ShaCurrent

theorem Reapplied.refreshed {a b : PendingWrite H} (h : Reapplied a b) : Refreshed a b :=
  ⟨by rw [h.same], by rw [h.same], h.shaCurrent⟩

/-- Applying writes only extends the history of HEAD. -/
structure Extended (S : ObjectStore H T) (before after : Worker H T) : Prop where
  head : after.repo.head = before.repo.head
  below : S.Below (headHash before.repo) (headHash after.repo)
  remote : after.remote = before.remote
  trace : after.trace = before.trace
  rootBranch : after.pushCycleRootBranch = before.pushCycleRootBranch
  rootHash : after.pushCycleRootHash = before.pushCycleRootHash

variable (w : Worker H T)

theorem Extended.refl : Extended S w w :=
  ⟨rfl, S.below_refl _, rfl, rfl, rfl, rfl⟩

theorem Extended.trans {a b c : Worker H T} (hab : Extended S a b) (hbc : Extended S b c) :
    Extended S a c where
  head := hbc.head.trans hab.head
  below := S.below_trans hab.below hbc.below
  remote := hbc.remote.trans hab.remote
  trace := hbc.trace.trans hab.trace
  rootBranch := hbc.rootBranch.trans hab.rootBranch
  rootHash := hbc.rootHash.trans hab.rootHash

/-- The write sits at or below this head, with a current commit hash. -/
def AppliedBelow (S : ObjectStore H T) (head : Option H) (pw : PendingWrite H) : Prop :=
  S.Below pw.appliedAt head ∧ pw.ShaCurrent

theorem AppliedBelow.mono
    (h : AppliedBelow S head pw) (hle : S.Below head head') : AppliedBelow S head' pw :=
  ⟨S.below_trans h.1 hle, h.2⟩

/-! ## 1. Applying -/

theorem executePendingWrite_extended (pw : PendingWrite H) (w : Worker H T) :
    Extended S w (executePendingWrite env pw w).1 := by
  have hsame : ∀ files history, Extended S w
      { w.next with repo := { w.repo with worktree := files }, history := history } :=
    fun _ _ => ⟨rfl, S.below_refl _, rfl, rfl, rfl, rfl⟩
  -- only a commit moves HEAD; the other outcomes touch the worktree at most
  unfold executePendingWrite
  simp only
  split
  · exact ⟨rfl, S.below_refl _, rfl, rfl, rfl, rfl⟩
  · split
    · exact hsame _ _
    · exact hsame _ _
    · rename_i files hflush
      split
      · refine ⟨rfl, ?_, rfl, rfl, rfl, rfl⟩
        rw [headHash_commitWorktree]
        exact S.below_commit _ _ _
      · exact hsame _ _

theorem executePendingWrite_applied (pw pw' : PendingWrite H) (w w' : Worker H T) (created : Bool)
    (h : executePendingWrite env pw w = (w', some (pw', created))) :
    Reapplied pw pw' ∧ AppliedBelow S (headHash w'.repo) pw' := by
  -- applied in three ways: without events, without a change, or with a commit
  unfold executePendingWrite at h
  simp only at h
  split at h
  · obtain ⟨rfl, hpw⟩ := Prod.mk.inj h
    obtain ⟨rfl, -⟩ := Prod.mk.inj (Option.some.inj hpw)
    exact ⟨⟨rfl, fun _ _ hsha => absurd hsha (by simp)⟩, S.below_refl _,
      fun _ hsha => absurd hsha (by simp)⟩
  · split at h
    · simp at h
    · obtain ⟨rfl, hpw⟩ := Prod.mk.inj h
      obtain ⟨rfl, -⟩ := Prod.mk.inj (Option.some.inj hpw)
      exact ⟨⟨rfl, fun _ _ hsha => absurd hsha (by simp)⟩, S.below_refl _,
        fun _ hsha => absurd hsha (by simp)⟩
    · split at h
      · obtain ⟨rfl, hpw⟩ := Prod.mk.inj h
        obtain ⟨rfl, -⟩ := Prod.mk.inj (Option.some.inj hpw)
        -- a resync records no hash of its own, any other write that of the new head
        have hcur : ∀ (repo : Repo H T) (sha : H),
            (if pw.kind = .resync then none else headHash repo) = some sha →
              headHash repo = some sha := by
          intro repo sha hsha
          split at hsha
          · simp at hsha
          · exact hsha
        exact ⟨⟨rfl, fun _ sha hsha => hcur _ sha hsha⟩, S.below_refl _,
          fun sha hsha => hcur _ sha hsha⟩
      · simp at h

theorem executePendingWrites_spec : Extended S w (executePendingWrites env writes w).1 ∧
      List.Forall₂ Reapplied writes (executePendingWrites env writes w).2.1 ∧
      ((executePendingWrites env writes w).2.2 ≠ none → ∀ pw ∈ (executePendingWrites env writes w).2.1,
          AppliedBelow S (headHash (executePendingWrites env writes w).1.repo) pw) := by
  -- later writes extend the history, so what is below the head stays below it
  induction writes generalizing w with
  | nil => exact ⟨Extended.refl w, List.Forall₂.nil, by simp [executePendingWrites]⟩
  | cons pw rest ih =>
    have hext := executePendingWrite_extended env pw w
    rw [executePendingWrites]
    cases hexec : executePendingWrite env pw w with
    | mk w₁ result =>
      rw [hexec] at hext
      cases result with
      | none =>
        refine ⟨hext, ?_, by simp⟩
        exact List.forall₂_same.mpr (fun _ _ => ⟨rfl, id⟩)
      | some applied =>
        obtain ⟨pw', created⟩ := applied
        obtain ⟨href, hbelow⟩ := executePendingWrite_applied env pw pw' w w₁ created hexec
        obtain ⟨hext', heach, hall⟩ := ih w₁
        refine ⟨hext.trans hext', List.Forall₂.cons href heach, ?_⟩
        intro hok b hb
        rcases List.mem_cons.mp hb with rfl | hb
        · exact hbelow.mono hext'.below
        · exact hall (by simpa using hok) b hb

theorem forall₂_refreshed_trans {a b c : List (PendingWrite H)} (hab : List.Forall₂ Refreshed a b)
    (hbc : List.Forall₂ Refreshed b c) : List.Forall₂ Refreshed a c := by
  induction hab generalizing c with
  | nil => exact hbc
  | cons h _ ih =>
    cases hbc with
    | cons h' hrest => exact List.Forall₂.cons (h.trans h') (ih hrest)

def Retargeted (before after : PendingWrite H) : Prop :=
  after = { before with targets := after.targets }

def OnlyTick (w w' : Worker H T) : Prop := w' = { w with tick := w'.tick } ∧ w.tick ≤ w'.tick

theorem OnlyTick.trans {a b c : Worker H T} (hab : OnlyTick a b) (hbc : OnlyTick b c) :
    OnlyTick a c := by
  refine ⟨?_, hab.2.trans hbc.2⟩
  rw [hbc.1, hab.1]

theorem OnlyTick.trace {w w' : Worker H T} (h : OnlyTick w w') : w'.trace = w.trace := by
  rw [h.1]

theorem OnlyTick.repo {w w' : Worker H T} (h : OnlyTick w w') : w'.repo = w.repo := by
  rw [h.1]

theorem onlyTick_refl : OnlyTick w w := ⟨rfl, le_refl _⟩

theorem onlyTick_next : OnlyTick w w.next := ⟨rfl, Nat.le_succ _⟩

theorem tightenTargets_onlyTick (targets : List (TargetKey × ResolvedTargetMetadata))
    (current : List (TargetKey × PruneMode)) (w : Worker H T) :
    OnlyTick w (tightenTargets env targets current w).1 := by
  induction targets generalizing current w with
  | nil => exact onlyTick_refl w
  | cons entry rest ih =>
    obtain ⟨key, md⟩ := entry
    rw [tightenTargets]
    cases hfind : current.find? (fun entry => entry.1 = key) with
    | some found => exact ih _ w
    | none =>
      cases hread : (env w.tick).getGitTarget key with
      | gone => exact (onlyTick_next w).trans (ih _ w.next)
      | failed => exact onlyTick_next w
      | found path mode => exact (onlyTick_next w).trans (ih _ w.next)

theorem tightenPendingPruneModes_spec (current : List (TargetKey × PruneMode)) (w : Worker H T) :
    OnlyTick w (tightenPendingPruneModes env writes current w).1 ∧
      List.Forall₂ Retargeted writes (tightenPendingPruneModes env writes current w).2.1 := by
  induction writes generalizing current w with
  | nil => exact ⟨onlyTick_refl w, List.Forall₂.nil⟩
  | cons pw rest ih =>
    have htick := tightenTargets_onlyTick env pw.targets current w
    rw [tightenPendingPruneModes]
    cases htarget : tightenTargets env pw.targets current w with
    | mk w₁ result =>
      obtain ⟨targets, seen⟩ := result
      rw [htarget] at htick
      have hpw : Retargeted pw { pw with targets := targets } := rfl
      cases seen with
      | none => exact ⟨htick, List.Forall₂.cons hpw (List.forall₂_same.mpr (fun _ _ => rfl))⟩
      | some current' =>
        obtain ⟨hrest, heach⟩ := ih current' w₁
        exact ⟨htick.trans hrest, List.Forall₂.cons hpw heach⟩

/-! ## 2. Committing -/

/-- What an operation on the clone leaves alone. -/
structure SameRun (before after : Worker H T) : Prop where
  trace : after.trace = before.trace
  rootBranch : after.pushCycleRootBranch = before.pushCycleRootBranch
  rootHash : after.pushCycleRootHash = before.pushCycleRootHash

theorem SameRun.trans {a b c : Worker H T} (hab : SameRun a b) (hbc : SameRun b c) : SameRun a c :=
  ⟨hbc.trace.trans hab.trace, hbc.rootBranch.trans hab.rootBranch, hbc.rootHash.trans hab.rootHash⟩

theorem SameRun.next : SameRun w w.next := ⟨rfl, rfl, rfl⟩

theorem Worker.ensureWriteBranch_spec (target : Branch) (w : Worker H T) :
    SameRun w (w.ensureWriteBranch env target).1 ∧
      (w.repo.head = target → w.ensureWriteBranch env target =
        (w.next, some (target, headHash w.repo))) ∧
      ((w.ensureWriteBranch env target).2 ≠ none →
        (w.ensureWriteBranch env target).1.repo.head = target) := by
  unfold Worker.ensureWriteBranch
  cases hensure : Git.ensureWriteBranch S (env w.tick).checkout target w.repo with
  | mk repo base =>
    refine ⟨⟨rfl, rfl, rfl⟩, ?_, ?_⟩
    · intro hon
      rw [ensureWriteBranch_on_target S _ target w.repo hon] at hensure
      obtain ⟨rfl, rfl⟩ := Prod.mk.inj hensure
      simp [switchOps, Worker.next]
    · intro hok
      cases base with
      | none => exact absurd rfl hok
      | some base => exact (ensureWriteBranch_ok S _ target w.repo repo base hensure).2.1

section Publish

variable [DecidableEq H] [EmptyCollection T] (target : Branch)

theorem Worker.syncToRemote_sameRun (w : Worker H T) : SameRun w (w.syncToRemote env target).1 := by
  unfold Worker.syncToRemote
  exact ⟨rfl, rfl, rfl⟩

theorem Worker.syncToRemote_fetch_error (w : Worker H T)
    (h : (w.syncToRemote env target).2 = .error .fetch) :
    (w.syncToRemote env target).1.repo.head = w.repo.head ∧
      (w.syncToRemote env target).1.repo.refs = w.repo.refs := by
  unfold Worker.syncToRemote at h ⊢
  exact Git.syncToRemote_fetch_error S _ _ _ _ target w.repo _ (Prod.ext rfl h)

variable (writes : List (PendingWrite H))

theorem commitPendingWrites_cases (has : Bool) (w : Worker H T) (hne : writes ≠ []) :
    (SameRun w (commitPendingWrites env target writes has w).1 ∧
      (commitPendingWrites env target writes has w).2 = (writes, none) ∧
      (has = true → w.repo.head = target →
        (commitPendingWrites env target writes has w).1.repo = w.repo)) ∨
    ∃ w₁ : Worker H T, w₁.trace = w.trace ∧ w₁.repo.head = target ∧
      (has = true → w.repo.head = target → w₁.repo = w.repo) ∧
      (has = false → w₁.repo.worktree = treeAt S (headHash w₁.repo)) ∧
      commitPendingWrites env target writes has w = executePendingWrites env writes w₁ := by
  unfold commitPendingWrites
  rw [if_neg hne]
  by_cases hapi : (env w.tick).apiOk = false
  · left
    rw [if_pos hapi]
    exact ⟨⟨rfl, rfl, rfl⟩, rfl, fun _ _ => rfl⟩
  · rw [if_neg hapi]
    cases has with
    -- commits are retained: no fetch, at most a switch of the branch
    | true =>
      simp only [if_true]
      obtain ⟨hrun, hon, hok⟩ := Worker.ensureWriteBranch_spec env target w.next
      cases hensure : w.next.ensureWriteBranch env target with
      | mk w₂ base =>
        rw [hensure] at hrun hok
        cases base with
        | none =>
          left
          refine ⟨(SameRun.next w).trans hrun, rfl, fun _ hhead => ?_⟩
          rw [hon hhead] at hensure
          simp at hensure
        | some base =>
          right
          refine ⟨w₂, hrun.trace, hok (by simp), fun _ hhead => ?_, by simp, rfl⟩
          rw [hon hhead] at hensure
          rw [← (Prod.mk.inj hensure).1]
          rfl
    -- nothing is retained: fetch, reset and switch
    | false =>
      simp only [Bool.false_eq_true, if_false]
      have hsync := Worker.syncToRemote_sameRun env target w.next
      cases hpull : w.next.syncToRemote env target with
      | mk w₁ report =>
        rw [hpull] at hsync
        cases report with
        | error err => exact Or.inl ⟨(SameRun.next w).trans hsync, rfl, by simp⟩
        | ok report =>
          obtain ⟨hrun, -, hok⟩ := Worker.ensureWriteBranch_spec env target w₁
          dsimp only
          cases hensure : w₁.ensureWriteBranch env target with
          | mk w₂ base =>
            rw [hensure] at hrun hok
            cases base with
            | none => exact Or.inl ⟨((SameRun.next w).trans hsync).trans hrun, rfl, by simp⟩
            | some base =>
              right
              refine ⟨{ w₂ with pushCycleRootBranch := some base.1
                                pushCycleRootHash := base.2 },
                hrun.trace.trans hsync.trace, hok (by simp), by simp, fun _ => ?_, rfl⟩
              -- a fresh checkout: the sync and the branch switch leave a clean worktree
              have hclean : w₁.repo.worktree = treeAt S (headHash w₁.repo) := by
                unfold Worker.syncToRemote at hpull
                obtain ⟨rfl, hrepo⟩ := Prod.mk.inj hpull
                exact syncToRemote_ok_worktree S _ _ _ _ target w.repo _ report (Prod.ext rfl hrepo)
              unfold Worker.ensureWriteBranch at hensure
              obtain ⟨rfl, hbase⟩ := Prod.mk.inj hensure
              exact ensureWriteBranch_ok_worktree S _ target w₁.repo _ base (Prod.ext rfl hbase) hclean

theorem commitPendingWrites_spec {writes writes' : List (PendingWrite H)} {has : Bool}
    {w w' : Worker H T} {result : Option Nat} (hne : writes ≠ [])
    (h : commitPendingWrites env target writes has w = (w', writes', result)) :
    w'.trace = w.trace ∧ List.Forall₂ Refreshed writes writes' ∧ (has = true → w.repo.head = target →
        w'.repo.head = target ∧ S.Below (headHash w.repo) (headHash w'.repo)) ∧
      (result ≠ none → w'.repo.head = target ∧
        ∀ pw ∈ writes', AppliedBelow S (headHash w'.repo) pw) := by
  rcases commitPendingWrites_cases env target writes has w hne with
    ⟨hrun, hres, hsame⟩ | ⟨w₁, htrace, hhead, hsame, -, hres⟩
  · rw [h] at hrun hres hsame
    obtain ⟨rfl, rfl⟩ := Prod.mk.inj hres
    refine ⟨hrun.trace, forall₂_refreshed_refl _, ?_, by simp⟩
    intro hhas hon
    rw [hsame hhas hon]
    exact ⟨hon, S.below_refl _⟩
  · obtain ⟨hext, heach, hall⟩ := executePendingWrites_spec env writes w₁
    rw [← hres, h] at hext heach hall
    refine ⟨hext.trace.trans htrace, heach.imp (fun _ _ => Reapplied.refreshed), ?_,
      fun hok => ⟨hext.head.trans hhead, hall hok⟩⟩
    intro hhas hon
    rw [← hsame hhas hon]
    exact ⟨hext.head.trans hhead, hext.below⟩

end Publish

/-! ## 3. Pushing -/

variable (target : Branch)

/-- HEAD is on the target branch, at or above every retained write. -/
structure Published (S : ObjectStore H T) (target : Branch) (writes : List (PendingWrite H))
    (w : Worker H T) : Prop where
  head : w.repo.head = target
  below : ∀ pw ∈ writes, S.Below pw.appliedAt (headHash w.repo)

theorem pushAtomic_spec [DecidableEq H] (rootHash : Option H) (rootBranch : Branch)
    (w : Worker H T) :
    SameRun w (pushAtomic env rootHash rootBranch w).1 ∧
      (pushAtomic env rootHash rootBranch w).1.repo = w.repo ∧
      ((pushAtomic env rootHash rootBranch w).2 = true → S.Below (headHash w.repo)
          ((pushAtomic env rootHash rootBranch w).1.remote.refs w.repo.head)) := by
  unfold pushAtomic
  simp only
  split
  · exact ⟨⟨rfl, rfl, rfl⟩, rfl, by simp⟩
  · split
    · exact ⟨⟨rfl, rfl, rfl⟩, rfl, by simp⟩
    -- up to date: the remote branch is the local head itself
    · rename_i hup
      refine ⟨⟨rfl, rfl, rfl⟩, rfl, fun _ => ?_⟩
      rw [(pushCommand_spec w.repo _ rootHash rootBranch).2 hup]
      exact S.below_refl _
    -- sent: once the compare-and-set is taken the remote branch is the local head
    · rename_i old new hsend
      obtain ⟨hnew, -⟩ := ((pushCommand_spec _ _ _ _).1 _ _).mp hsend
      split
      · exact ⟨⟨rfl, rfl, rfl⟩, rfl, by simp⟩
      · exact ⟨⟨rfl, rfl, rfl⟩, rfl, by simp⟩
      · split <;> exact ⟨⟨rfl, rfl, rfl⟩, rfl, by simp⟩
      · split
        · refine ⟨⟨rfl, rfl, rfl⟩, rfl, fun _ => ?_⟩
          simp only [Function.update_self]
          rw [hnew]
          exact S.below_refl _
        · exact ⟨⟨rfl, rfl, rfl⟩, rfl, by simp⟩

theorem Worker.fetchRemoteBranchHash_spec (branch : Branch) (w : Worker H T) :
    SameRun w (w.fetchRemoteBranchHash env branch).1 ∧
      (w.fetchRemoteBranchHash env branch).1.repo.head = w.repo.head ∧
      (w.fetchRemoteBranchHash env branch).1.repo.refs = w.repo.refs := by
  unfold Worker.fetchRemoteBranchHash
  refine ⟨⟨rfl, rfl, rfl⟩, ?_⟩
  simp only [Git.fetchRemoteBranchHash]
  have h := smartFetch_branches (env w.tick).connected (w.contact env).remote
    ((w.contact env).contact env).remote branch w.repo
  split
  · rename_i repo hfetch
    rw [hfetch] at h
    exact h
  · rename_i repo hfetch
    rw [hfetch] at h
    exact h

def ReplayNote (note : Note H) : Prop :=
  note = .replayAborted ∨ ∃ id, note = .replayedEmpty id

def CarriesCommit (pw : PendingWrite H) : Prop := pw.commitRequest ≠ none → pw.commitSHA ≠ none

theorem carriesCommit_of_no_replayedEmpty
    (h : ∀ id, Note.replayedEmpty id ∉ replayedEmptyNotes writes) :
    ∀ pw ∈ writes, CarriesCommit pw := by
  intro pw hpw hcarry hnone
  obtain ⟨id, hid⟩ := Option.ne_none_iff_exists'.mp hcarry
  apply h id
  rw [replayedEmptyNotes, List.mem_filterMap]
  exact ⟨pw, hpw, by simp [hnone, hid]⟩

theorem Retargeted.refreshed {a b : PendingWrite H} (h : Retargeted a b) : Refreshed a b := by
  rw [Retargeted] at h
  rw [h]
  exact ⟨rfl, rfl, id⟩

theorem Retargeted.carriesCommit (h : Retargeted a b) (ha : CarriesCommit a) : CarriesCommit b := by
  rw [Retargeted] at h
  rw [h]
  exact ha

theorem forall₂_retargeted_carriesCommit {a b : List (PendingWrite H)}
    (h : List.Forall₂ Retargeted a b) (ha : ∀ pw ∈ a, CarriesCommit pw) :
    ∀ pw ∈ b, CarriesCommit pw := by
  induction h with
  | nil => simp
  | cons h _ ih =>
    intro pw hpw
    rcases List.mem_cons.mp hpw with rfl | hpw
    · exact h.carriesCommit (ha _ (by simp))
    · exact ih (fun p hp => ha p (List.mem_cons_of_mem _ hp)) pw hpw

theorem replayNote_of_mem_replayedEmptyNotes : ∀ note ∈ replayedEmptyNotes writes, ReplayNote note := by
  intro note hnote
  rw [replayedEmptyNotes, List.mem_filterMap] at hnote
  obtain ⟨pw, -, hpw⟩ := hnote
  split at hpw
  · obtain ⟨id, -, rfl⟩ := Option.map_eq_some_iff.mp hpw
    exact Or.inr ⟨id, rfl⟩
  · simp at hpw

def ReplayedOnto (before after : Worker H T) : Prop :=
  ∃ notes, after.trace = notes ++ before.trace ∧ ∀ note ∈ notes, ReplayNote note

theorem ReplayedOnto.of_eq {a b : Worker H T} (h : b.trace = a.trace) : ReplayedOnto a b :=
  ⟨[], h, by simp⟩

theorem ReplayedOnto.trans {a b c : Worker H T} (hab : ReplayedOnto a b) (hbc : ReplayedOnto b c) :
    ReplayedOnto a c := by
  obtain ⟨ns, hns, hnot⟩ := hab
  obtain ⟨ms, hms, hmore⟩ := hbc
  refine ⟨ms ++ ns, by rw [hms, hns, List.append_assoc], ?_⟩
  intro note hnote
  rcases List.mem_append.mp hnote with h | h
  · exact hmore note h
  · exact hnot note h

theorem ReplayedOnto.mem (h : ReplayedOnto a b) (hnote : note ∈ a.trace) : note ∈ b.trace := by
  obtain ⟨ns, hns, -⟩ := h
  rw [hns]
  exact List.mem_append_right _ hnote

/-- What a replay, completed or not, says about the writes it replays. -/
structure Replayed (writes writes' : List (PendingWrite H)) (w w' : Worker H T) : Prop where
  onto : ReplayedOnto w w'
  refreshed : List.Forall₂ Refreshed writes writes'
  carries : (∀ pw ∈ writes, CarriesCommit pw) →
    (∃ id, Note.replayedEmpty id ∈ w'.trace) ∨ ∀ pw ∈ writes', CarriesCommit pw

theorem Replayed.unchanged {w w' : Worker H T} (h : ReplayedOnto w w') : Replayed writes writes w w' :=
  ⟨h, forall₂_refreshed_refl writes, Or.inr⟩

theorem Replayed.trans {w w' w'' : Worker H T}
    (h : Replayed a b w w') (h' : Replayed b c w' w'') : Replayed a c w w'' where
  onto := h.onto.trans h'.onto
  refreshed := forall₂_refreshed_trans h.refreshed h'.refreshed
  carries hcarry := by
    rcases h.carries hcarry with ⟨id, hid⟩ | hb
    · exact Or.inl ⟨id, h'.onto.mem hid⟩
    · exact h'.carries hb

theorem rebuildPendingWrites_spec (writes writes' : List (PendingWrite H)) (w w' : Worker H T)
    (base : Option (Branch × Option H))
    (h : rebuildPendingWrites env target writes w = (w', writes', base)) :
    Replayed writes writes' w w' ∧ (base ≠ none → Published S target writes' w') := by
  unfold rebuildPendingWrites at h
  obtain ⟨hrun, -, hhead⟩ := Worker.ensureWriteBranch_spec env target w
  cases hensure : w.ensureWriteBranch env target with
  | mk w₁ ensured =>
    rw [hensure] at h hrun hhead
    cases ensured with
    | none =>
      obtain ⟨rfl, rfl, rfl⟩ := triple_inj h
      exact ⟨Replayed.unchanged writes (.of_eq hrun.trace), by simp⟩
    | some ensured =>
      obtain ⟨htick, htarget⟩ := tightenPendingPruneModes_spec env writes [] w₁
      dsimp only at h
      cases htighten : tightenPendingPruneModes env writes [] w₁ with
      | mk w₂ result =>
        obtain ⟨tightened, ok⟩ := result
        rw [htighten] at h htick htarget
        have href : List.Forall₂ Refreshed writes tightened := htarget.imp (fun _ _ hab => hab.refreshed)
        have htrace : w₂.trace = w.trace := htick.trace.trans hrun.trace
        cases ok with
        -- a GitTarget cannot be read again, and the clone is already at the remote tip
        | false =>
          obtain ⟨rfl, rfl, rfl⟩ := triple_inj h
          exact ⟨⟨.of_eq htrace, href,
            fun hc => Or.inr (forall₂_retargeted_carriesCommit htarget hc)⟩, by simp⟩
        | true =>
          obtain ⟨hext', heach, hall⟩ := executePendingWrites_spec env tightened w₂
          dsimp only at h
          cases hexec : executePendingWrites env tightened w₂ with
          | mk w₃ executed =>
            obtain ⟨replayed, count⟩ := executed
            rw [hexec] at h hext' heach hall
            obtain ⟨rfl, rfl, rfl⟩ := triple_inj h
            refine ⟨⟨⟨replayedEmptyNotes replayed, ?_, replayNote_of_mem_replayedEmptyNotes replayed⟩,
              forall₂_refreshed_trans href (heach.imp (fun _ _ => Reapplied.refreshed)),
              fun _ => ?_⟩, fun hok => ?_⟩
            · have hexecute : w₃.trace = w.trace := hext'.trace.trans htrace
              simp only [hexecute]
            · -- either some request lost its commit, or none did
              by_cases hlost : ∃ id, Note.replayedEmpty id ∈ replayedEmptyNotes replayed
              · obtain ⟨id, hid⟩ := hlost
                exact Or.inl ⟨id, List.mem_append_left _ hid⟩
              · right
                exact carriesCommit_of_no_replayedEmpty replayed (fun id hid => hlost ⟨id, hid⟩)
            · have hcount : count ≠ none := by
                intro hnone
                simp [hnone] at hok
              refine ⟨?_, fun pw hpw => (hall hcount pw hpw).1⟩
              rw [hext'.head, htick.repo]
              exact hhead (by simp)

section Replay

variable [DecidableEq H] [EmptyCollection T]

/-- A completed replay publishes the writes; a failed one keeps them published unless it was
    aborted after the reset. -/
theorem replayOnRemote_spec (writes writes' : List (PendingWrite H)) (w w' : Worker H T)
    (base : Option (Branch × Option H))
    (h : replayOnRemote env target writes w = (w', writes', base)) :
    Replayed writes writes' w w' ∧ (base ≠ none → Published S target writes' w') ∧
      (Published S target writes w →
        Note.replayAborted ∈ w'.trace ∨ Published S target writes' w') := by
  have hsync := Worker.syncToRemote_sameRun env target w
  have habort : ∀ w₁ : Worker H T, ReplayedOnto w₁ (w₁.log .replayAborted) := fun w₁ =>
    ⟨[.replayAborted], rfl, by simp [ReplayNote]⟩
  unfold replayOnRemote at h
  split at h
  -- the fetch failed: the clone is as it was
  · rename_i w₁ hpull
    obtain ⟨hhead, hrefs⟩ := Worker.syncToRemote_fetch_error env target w (by rw [hpull])
    rw [hpull] at hsync hhead hrefs
    obtain ⟨rfl, rfl, rfl⟩ := triple_inj h
    refine ⟨Replayed.unchanged writes (.of_eq hsync.trace), by simp, fun hpublish => Or.inr ?_⟩
    refine ⟨hhead.trans hpublish.head, ?_⟩
    rw [headHash, hhead, hrefs]
    exact hpublish.below
  -- the checkout or the reset failed
  · rename_i w₁ err hnot hpull
    rw [hpull] at hsync
    obtain ⟨rfl, rfl, rfl⟩ := triple_inj h
    have honto := (ReplayedOnto.of_eq hsync.trace).trans (habort w₁)
    exact ⟨Replayed.unchanged writes honto, by simp, fun _ => Or.inl (by simp [Worker.log])⟩
  -- reset to the remote: only a complete rebuild brings the writes back
  · rename_i w₁ report hpull
    rw [hpull] at hsync
    have hbefore : Replayed writes writes w w₁ := Replayed.unchanged writes (.of_eq hsync.trace)
    split at h
    · rename_i w₂ replayed hrebuild
      obtain ⟨rfl, rfl, rfl⟩ := triple_inj h
      obtain ⟨hreplay, -⟩ := rebuildPendingWrites_spec env target writes _ w₁ w₂ none hrebuild
      exact ⟨(hbefore.trans hreplay).trans (Replayed.unchanged _ (habort w₂)), by simp,
        fun _ => Or.inl (by simp [Worker.log])⟩
    · rename_i w₂ replayed rebuilt hrebuild
      obtain ⟨rfl, rfl, rfl⟩ := triple_inj h
      obtain ⟨hreplay, hpublished⟩ := rebuildPendingWrites_spec env target writes _ w₁ _ _ hrebuild
      exact ⟨hbefore.trans hreplay, hpublished, fun _ => Or.inr (hpublished (by simp))⟩

/-- The outcome of the push loop on published writes: unless a replay was aborted the writes are
    still published, and a reported success puts the local head below the remote branch. -/
theorem pushLoop_spec (retries : Nat) (rootHash : Option H) (writes writes' : List (PendingWrite H))
    (w w' : Worker H T) (ok : Bool)
    (h : pushLoop env target retries rootHash writes w = (w', writes', ok)) :
    Replayed writes writes' w w' ∧ (Published S target writes w → Note.replayAborted ∈ w'.trace ∨
        (Published S target writes' w' ∧
          (ok = true → S.Below (headHash w'.repo) (w'.remote.refs target)))) := by
  -- on the attempts left; each replay renews the writes and the base of the next attempt
  induction retries generalizing rootHash writes w with
  | zero =>
    obtain ⟨rfl, rfl, rfl⟩ := triple_inj h
    exact ⟨Replayed.unchanged writes (.of_eq rfl), fun hpublish => Or.inr ⟨hpublish, by simp⟩⟩
  | succ retries ih =>
    rw [pushLoop] at h
    obtain ⟨hrun, hrepo, hbelow⟩ := pushAtomic_spec env rootHash (w.pushCycleRootBranch.getD target) w
    cases hpush : pushAtomic env rootHash (w.pushCycleRootBranch.getD target) w with
    | mk w₁ sent =>
      simp only [hpush] at h hrun hrepo hbelow
      cases sent with
      | true =>
        obtain ⟨rfl, rfl, rfl⟩ := triple_inj h
        refine ⟨Replayed.unchanged writes (.of_eq hrun.trace), fun hpublish => Or.inr ⟨?_, ?_⟩⟩
        · exact ⟨by rw [hrepo]; exact hpublish.head, by rw [hrepo]; exact hpublish.below⟩
        · intro _
          have htip := hbelow rfl
          rw [hpublish.head] at htip
          simp only [hrepo]
          exact htip
      | false =>
        obtain ⟨hrun₂, hhead₂, hrefs₂⟩ :=
          Worker.fetchRemoteBranchHash_spec env (w.pushCycleRootBranch.getD target) w₁
        cases hfetch : w₁.fetchRemoteBranchHash env (w.pushCycleRootBranch.getD target) with
        | mk w₂ fetched =>
          simp only [hfetch] at h hrun₂ hhead₂ hrefs₂
          have hpublish₂ : Published S target writes w → Published S target writes w₂ := by
            intro hpublish
            refine ⟨by rw [hhead₂, hrepo]; exact hpublish.head, ?_⟩
            rw [headHash, hhead₂, hrefs₂, hrepo]
            exact hpublish.below
          have htrace₂ : w₂.trace = w.trace := hrun₂.trace.trans hrun.trace
          cases fetched with
          -- the remote cannot be asked whether it moved
          | none =>
            obtain ⟨rfl, rfl, rfl⟩ := triple_inj h
            exact ⟨Replayed.unchanged writes (.of_eq htrace₂),
              fun hpublish => Or.inr ⟨hpublish₂ hpublish, by simp⟩⟩
          | some remoteHash =>
            have hbefore : Replayed writes writes w w₂ := Replayed.unchanged writes (.of_eq htrace₂)
            dsimp only at h
            -- the root did not move: no conflict, so the failure is returned
            split at h
            · obtain ⟨rfl, rfl, rfl⟩ := triple_inj h
              exact ⟨hbefore, fun hpublish => Or.inr ⟨hpublish₂ hpublish, by simp⟩⟩
            · split at h
              · rename_i w₃ replayed hreplayed
                obtain ⟨rfl, rfl, rfl⟩ := triple_inj h
                obtain ⟨hreplay, -, hkept⟩ := replayOnRemote_spec env target writes _ w₂ w₃ none hreplayed
                refine ⟨hbefore.trans hreplay, fun hpublish => ?_⟩
                exact (hkept (hpublish₂ hpublish)).imp id (fun hp => ⟨hp, by simp⟩)
              -- replayed: the next attempt starts from published writes
              · rename_i w₃ replayed baseBranch baseHash hreplayed
                obtain ⟨hreplay, hpublished, -⟩ := replayOnRemote_spec env target writes _ w₂ w₃ _ hreplayed
                obtain ⟨hrest, hfinal⟩ := ih baseHash replayed _ h
                have hroot : Replayed replayed replayed w₃
                    { w₃ with pushCycleRootBranch := some baseBranch
                              pushCycleRootHash := baseHash } :=
                  Replayed.unchanged replayed (.of_eq rfl)
                refine ⟨((hbefore.trans hreplay).trans hroot).trans hrest,
                  fun _ => hfinal ?_⟩
                exact ⟨(hpublished (by simp)).head, (hpublished (by simp)).below⟩

theorem pushPendingCommits_spec {writes writes' : List (PendingWrite H)} {w w' : Worker H T}
    {ok : Bool} (hne : writes ≠ [])
    (h : pushPendingCommits env target writes w = (w', writes', ok)) :
    Replayed writes writes' w w' ∧ (Published S target writes w → Note.replayAborted ∈ w'.trace ∨
        (Published S target writes' w' ∧
          (ok = true → S.Below (headHash w'.repo) (w'.remote.refs target)))) := by
  unfold pushPendingCommits at h
  rw [if_neg hne] at h
  split at h
  · obtain ⟨rfl, rfl, rfl⟩ := triple_inj h
    exact ⟨Replayed.unchanged writes (.of_eq rfl),
      fun hpublish => Or.inr ⟨⟨hpublish.head, hpublish.below⟩, by simp⟩⟩
  · obtain ⟨hreplay, hfinal⟩ := pushLoop_spec env target _ _ writes writes' w.next w' ok h
    have hnext : Replayed writes writes w w.next := Replayed.unchanged writes (.of_eq rfl)
    exact ⟨hnext.trans hreplay, fun hpublish => hfinal ⟨hpublish.head, hpublish.below⟩⟩

end Replay

end GitopsReverser.Git
