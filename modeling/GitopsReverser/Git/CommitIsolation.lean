import GitopsReverser.Git.CommitExecutor
import GitopsReverser.Git.Publication

/-!
# CommitIsolation — a commit holds its own write and nothing else

A commit is made of whatever is in the worktree, so it holds one write only as long as the worktree
is the tree of HEAD whenever a write is applied. A complete reset gives that, and so does a commit; a
write that makes none has to leave the files as it found them.
-/

namespace GitopsReverser.Git

open Reasoning Relation

variable {H T : Type} [EmptyCollection T] {S : ObjectStore H T} (env : Nat → World S)

/-- A commit that was made is its write applied to the tree of its parent. -/
def FileOp.Isolated : FileOp H T → Prop
  | .applied a => ∀ commit ∈ a.commit, S.parents commit = a.head.toList ∧
      (env a.tick).flush a.write (treeAt S a.head) = .changed (S.tree commit)
  | .reset | .stopped => True

/-- Something was left in the worktree since the last commit or complete reset, if there was one:
    by a reset that stopped part-way, or by a write that made no commit. -/
def Littered : List (FileOp H T) → Prop
  | [] => True
  | .reset :: _ => False
  | .stopped :: _ => True
  | .applied a :: earlier => a.commit = none ∧ (a.left ≠ a.found ∨ Littered earlier)

instance Littered.decide [DecidableEq T] [DecidableEq H] :
    (history : List (FileOp H T)) → Decidable (Littered history)
  | [] => .isTrue trivial
  | .reset :: _ => .isFalse id
  | .stopped :: _ => .isTrue trivial
  | .applied a :: earlier =>
    have := Littered.decide earlier
    inferInstanceAs (Decidable (a.commit = none ∧ (a.left ≠ a.found ∨ Littered earlier)))

instance [DecidableEq T] [DecidableEq H] : (op : FileOp H T) → Decidable (op.Isolated env)
  | .applied a => inferInstanceAs (Decidable (∀ commit ∈ a.commit, _ ∧ _))
  | .reset | .stopped => .isTrue trivial

/-! ## 1. What an operation keeps -/

def Repo.Clean (S : ObjectStore H T) (repo : Repo H T) : Prop :=
  repo.worktree = treeAt S (headHash repo)

structure Worker.Sound (w : Worker H T) : Prop where
  clean : ¬ Littered w.history → w.repo.Clean S
  isolated : ∀ op earlier, op :: earlier <:+ w.history → ¬ Littered earlier → op.Isolated env

def Kept (w w' : Worker H T) : Prop := w.Sound env → w'.Sound env

theorem Kept.trans {a b c : Worker H T} (hab : Kept env a b) (hbc : Kept env b c) : Kept env a c :=
  fun h => hbc (hab h)

theorem Kept.of_repo {w w' : Worker H T} (hrepo : w'.repo = w.repo)
    (hhistory : w'.history = w.history) : Kept env w w' := by
  intro h
  exact ⟨by rw [hhistory, hrepo]; exact h.clean, by rw [hhistory]; exact h.isolated⟩

theorem Kept.of_onlyTick {w w' : Worker H T} (h : OnlyTick w w') : Kept env w w' :=
  Kept.of_repo env (by rw [h.1]) (by rw [h.1])

/-- The newest operation is isolated, and leaves a clean worktree unless it litters. -/
theorem Worker.Sound.record {w w' : Worker H T} {op : FileOp H T} (h : w.Sound env)
    (hhistory : w'.history = op :: w.history) (hop : ¬ Littered w.history → op.Isolated env)
    (hclean : ¬ Littered (op :: w.history) → w'.repo.Clean S) : w'.Sound env := by
  refine ⟨by rw [hhistory]; exact hclean, fun op' earlier hsuffix => ?_⟩
  rw [hhistory, List.suffix_cons_iff] at hsuffix
  rcases hsuffix with heq | hsuffix
  · obtain ⟨rfl, rfl⟩ := List.cons.inj heq
    exact hop
  · exact h.isolated op' earlier hsuffix

/-! ## 2. Applying writes -/

theorem executePendingWrite_kept (pw : PendingWrite H) (w : Worker H T) :
    Kept env w (executePendingWrite env pw w).1 := by
  intro h
  -- without a commit HEAD stays, and unlittered files are those found
  have hleft : ∀ files, ¬ Littered (w.recordApplied pw files none) →
      Repo.Clean S { w.repo with worktree := files } := by
    intro files hlitter
    simp only [Worker.recordApplied, Littered, true_and, not_or, not_not] at hlitter
    exact hlitter.1.trans (h.clean hlitter.2)
  have hnone : ∀ files, FileOp.Isolated env
      (.applied ⟨pw, w.tick, headHash w.repo, w.repo.worktree, files, none⟩) := by
    rintro files commit ⟨⟩
  unfold executePendingWrite
  simp only
  split
  · exact Kept.of_onlyTick env (onlyTick_next w) h
  · split
    · exact h.record env rfl (fun _ => hnone _) (hleft _)
    · exact h.record env rfl (fun _ => hnone _) (hleft _)
    · rename_i staged hflush
      split
      · refine h.record env rfl (fun hlitter commit hcommit => ?_) (fun _ => ?_)
        -- the new HEAD is made of the worktree, and the worktree was its parent's tree
        · obtain rfl := Option.mem_some_iff.mp hcommit
          refine ⟨S.parents_commit _ _ _, ?_⟩
          rw [S.tree_commit, ← hflush]
          exact congrArg _ (h.clean hlitter).symm
        · unfold Repo.Clean
          rw [headHash_commitWorktree]
          exact (S.tree_commit _ _ _).symm
      · exact h.record env rfl (fun _ => hnone _) (hleft _)

variable (branch target : Branch) (writes : List (PendingWrite H))

theorem executePendingWrites_kept (w : Worker H T) :
    Kept env w (executePendingWrites env writes w).1 := by
  induction writes generalizing w with
  | nil => exact id
  | cons pw rest ih =>
    have hfirst := executePendingWrite_kept env pw w
    rw [executePendingWrites]
    cases hexec : executePendingWrite env pw w with
    | mk w₁ result =>
      rw [hexec] at hfirst
      cases result with
      | none => exact hfirst
      | some applied => exact hfirst.trans env (ih w₁)

/-! ## 3. Moving the clone -/

theorem ensureWriteBranch_some (fault : Option (CheckoutFault T)) (repo repo' : Repo H T)
    (base : Branch × Option H) (h : ensureWriteBranch S fault target repo = (repo', some base)) :
    (base.1 = target ∧ repo' = repo) ∨ (base.1 ≠ target ∧ repo'.Clean S) := by
  unfold ensureWriteBranch at h
  simp only at h
  split at h
  · rename_i hon
    obtain ⟨rfl, hbase⟩ := Prod.mk.inj h
    exact .inl ⟨Option.some.inj hbase ▸ hon, rfl⟩
  · rename_i hoff
    split at h
    · rename_i switched hswitch
      obtain ⟨rfl, hbase⟩ := Prod.mk.inj h
      refine .inr ⟨Option.some.inj hbase ▸ hoff, ?_⟩
      unfold switchOrCreateBranch at hswitch
      unfold Repo.Clean
      split at hswitch
      · obtain ⟨-, hhead, hfiles⟩ := checkoutReset_ok S fault _ _ _ _ hswitch
        rw [hhead, hfiles, treeAt]
      · obtain ⟨-, hhead, hfiles⟩ := checkoutReset_ok S fault _ _ _ _ hswitch
        rw [hhead, hfiles, treeAt]
      · simp at hswitch
    · simp at h

theorem smartFetch_clean (connected : Bool) (listed fetched : Remote H) (repo : Repo H T)
    (h : repo.Clean S) : (smartFetch connected listed fetched branch repo).1.Clean S := by
  unfold smartFetch
  split
  · exact h
  · split
    · exact h
    · split <;> exact h

theorem Worker.fetchRemoteBranchHash_kept (w : Worker H T) :
    Kept env w (w.fetchRemoteBranchHash env branch).1 := by
  intro h
  refine ⟨fun hlitter => ?_, h.isolated⟩
  have hfetch := smartFetch_clean branch (env w.tick).connected (w.contact env).remote
    ((w.contact env).contact env).remote w.repo (h.clean hlitter)
  unfold Worker.fetchRemoteBranchHash Git.fetchRemoteBranchHash
  simp only
  cases hfetched : smartFetch (env w.tick).connected (w.contact env).remote
      ((w.contact env).contact env).remote branch w.repo with
  | mk repo available =>
    rw [hfetched] at hfetch
    cases available with
    | none | some _ => exact hfetch

theorem kept_log (w : Worker H T) (note : Note H) : Kept env w (w.log note) :=
  Kept.of_repo env rfl rfl

theorem syncToRemote_fetch_clean [DecidableEq H] (connected : Bool)
    (fault : Option (CheckoutFault T))
    (listed fetched : Remote H) (repo repo' : Repo H T)
    (hfetch : syncToRemote S connected fault listed fetched branch repo = (repo', .error .fetch))
    (h : repo.Clean S) : repo'.Clean S := by
  have hclean := smartFetch_clean branch connected listed fetched repo h
  unfold syncToRemote at hfetch
  simp only at hfetch
  split at hfetch
  · rename_i heq
    obtain ⟨rfl, -⟩ := Prod.mk.inj hfetch
    rwa [heq] at hclean
  · split at hfetch <;> simp at hfetch
  · split at hfetch <;> simp at hfetch

theorem Worker.ensureWriteBranch_kept (w : Worker H T) :
    Kept env w (w.ensureWriteBranch env target).1 := by
  intro h
  unfold Worker.ensureWriteBranch
  cases hensure : Git.ensureWriteBranch S (env w.tick).checkout target w.repo with
  | mk repo base =>
    cases base with
    | none => exact h.record env rfl (fun _ => trivial) (fun hlitter => absurd trivial hlitter)
    | some base =>
      rcases ensureWriteBranch_some target _ _ _ _ hensure with ⟨hon, rfl⟩ | ⟨hoff, hclean⟩
      · have hsame : switchOps target (some base) ++ w.history = w.history := by simp [switchOps, hon]
        simp only [hsame]
        exact Kept.of_onlyTick env (onlyTick_next w) h
      · exact h.record env (show switchOps target (some base) ++ w.history = .reset :: w.history by
          simp [switchOps, hoff]) (fun _ => trivial)
          (fun _ => hclean)

theorem Worker.syncToRemote_kept [DecidableEq H] (w : Worker H T) :
    Kept env w (w.syncToRemote env target).1 := by
  intro h
  unfold Worker.syncToRemote
  simp only
  cases hsync : Git.syncToRemote S (env w.tick).connected (env w.tick).checkout (w.contact env).remote
      ((w.contact env).contact env).remote target w.repo with
  | mk repo report =>
    match report, hsync with
    | .error .fetch, hsync =>
      refine ⟨fun hlitter => ?_, h.isolated⟩
      exact syncToRemote_fetch_clean target _ _ _ _ _ _ hsync (h.clean hlitter)
    | .error .checkoutAndReset, _ | .error .rootBranch, _ =>
      exact h.record env rfl (fun _ => trivial) (fun hlitter => absurd trivial hlitter)
    | .ok report, hsync =>
      refine h.record env rfl (fun _ => trivial) (fun _ => ?_)
      exact syncToRemote_ok_worktree S _ _ _ _ target w.repo repo report hsync

/-! ## 4. Committing and pushing -/

theorem commitPendingWrites_kept [DecidableEq H] (hasPendingCommits : Bool) (w : Worker H T) :
    Kept env w (commitPendingWrites env target writes hasPendingCommits w).1 := by
  have hnext : Kept env w w.next := Kept.of_onlyTick env (onlyTick_next w)
  -- what follows once the clone is where the writes go
  have happly : ∀ (w₁ w₂ : Worker H T) base, w₁.ensureWriteBranch env target = (w₂, base) →
      Kept env w w₁ → Kept env w w₂ := by
    intro w₁ w₂ base hensure hkept
    have hbranch := w₁.ensureWriteBranch_kept env target
    rw [hensure] at hbranch
    exact hkept.trans env hbranch
  unfold commitPendingWrites
  split
  · exact id
  · split
    · exact hnext
    · cases hasPendingCommits with
      | true =>
        simp only [if_true]
        split
        · rename_i hensure
          exact happly _ _ _ hensure hnext
        · rename_i hensure
          exact (happly _ _ _ hensure hnext).trans env (executePendingWrites_kept env writes _)
      | false =>
        have hsynced := hnext.trans env (w.next.syncToRemote_kept env target)
        simp only [Bool.false_eq_true, if_false]
        cases hsync : w.next.syncToRemote env target with
        | mk w₁ report =>
          rw [hsync] at hsynced
          cases report with
          | error err => exact hsynced
          | ok report =>
            simp only
            split
            · rename_i hensure
              exact happly _ _ _ hensure hsynced
            · rename_i w₂ baseBranch baseHash hensure
              have hrooted : Kept env w₂ { w₂ with
                  pushCycleRootBranch := some baseBranch, pushCycleRootHash := baseHash } :=
                Kept.of_repo env rfl rfl
              exact ((happly _ _ _ hensure hsynced).trans env hrooted).trans env
                (executePendingWrites_kept env writes _)

theorem pushAtomic_kept [DecidableEq H] (rootHash : Option H) (rootBranch : Branch)
    (w : Worker H T) :
    Kept env w (pushAtomic env rootHash rootBranch w).1 := by
  -- a push moves tracking refs and the remote, no file and no branch
  have hsame : ∀ w' : Worker H T, headHash w'.repo = headHash w.repo →
      w'.repo.worktree = w.repo.worktree → w'.history = w.history → Kept env w w' := by
    intro w' hhead hfiles hhistory h
    refine ⟨fun hlitter => ?_, by rw [hhistory]; exact h.isolated⟩
    unfold Repo.Clean
    rw [hfiles, hhead]
    exact h.clean (hhistory ▸ hlitter)
  unfold pushAtomic
  simp only
  split
  · exact hsame _ rfl rfl rfl
  · split
    · exact hsame _ rfl rfl rfl
    · exact hsame _ rfl rfl rfl
    · split
      · exact hsame _ rfl rfl rfl
      · exact hsame _ rfl rfl rfl
      · split <;> exact hsame _ rfl rfl rfl
      · split <;> exact hsame _ rfl rfl rfl

theorem rebuildPendingWrites_kept (w : Worker H T) :
    Kept env w (rebuildPendingWrites env target writes w).1 := by
  have hbranch := w.ensureWriteBranch_kept env target
  unfold rebuildPendingWrites
  split
  · rename_i heq
    rw [heq] at hbranch
    exact hbranch
  · rename_i w₁ base heq
    rw [heq] at hbranch
    have htighten := (tightenPendingPruneModes_spec env writes [] w₁).1
    split
    · rename_i heq'
      rw [heq'] at htighten
      exact hbranch.trans env (Kept.of_onlyTick env htighten)
    · rename_i w₂ tightened heq'
      rw [heq'] at htighten
      have hreplay := executePendingWrites_kept env tightened w₂
      simp only
      generalize executePendingWrites env tightened w₂ = result at hreplay
      -- the notes of a replay without a commit touch no file
      have hnoted : Kept env result.1
          { result.1 with trace := replayedEmptyNotes result.2.1 ++ result.1.trace } :=
        Kept.of_repo env rfl rfl
      exact ((hbranch.trans env (Kept.of_onlyTick env htighten)).trans env hreplay).trans env hnoted

theorem replayOnRemote_kept [DecidableEq H] (w : Worker H T) :
    Kept env w (replayOnRemote env target writes w).1 := by
  have hsync := w.syncToRemote_kept env target
  unfold replayOnRemote
  split
  · rename_i heq
    rw [heq] at hsync
    exact hsync
  · rename_i heq
    rw [heq] at hsync
    exact hsync.trans env (kept_log env _ _)
  · rename_i w₁ report heq
    rw [heq] at hsync
    have hrebuild := rebuildPendingWrites_kept env target writes w₁
    split
    · rename_i heq'
      rw [heq'] at hrebuild
      exact (hsync.trans env hrebuild).trans env (kept_log env _ _)
    · rename_i heq'
      rw [heq'] at hrebuild
      exact hsync.trans env hrebuild

theorem pushLoop_kept [DecidableEq H] (retries : Nat) (rootHash : Option H)
    (writes : List (PendingWrite H))
    (w : Worker H T) : Kept env w (pushLoop env target retries rootHash writes w).1 := by
  -- each round ends on the files of the last successful reset
  induction retries generalizing rootHash writes w with
  | zero => exact id
  | succ retries ih =>
    have hpush := pushAtomic_kept env rootHash (w.pushCycleRootBranch.getD target) w
    rw [pushLoop]
    split
    · rename_i w₁ heq
      rw [heq] at hpush
      have hdone : Kept env w₁
          { w₁ with pushCycleRootBranch := none, pushCycleRootHash := none } :=
        Kept.of_repo env rfl rfl
      exact hpush.trans env hdone
    · rename_i w₁ heq
      rw [heq] at hpush
      have hfetch := w₁.fetchRemoteBranchHash_kept env (w.pushCycleRootBranch.getD target)
      split
      · rename_i heq'
        rw [heq'] at hfetch
        exact hpush.trans env hfetch
      · rename_i w₂ remoteHash heq'
        rw [heq'] at hfetch
        split
        · exact hpush.trans env hfetch
        · have hreplay := replayOnRemote_kept env target writes w₂
          split
          · rename_i heq''
            rw [heq''] at hreplay
            exact (hpush.trans env hfetch).trans env hreplay
          · rename_i w₃ writes' baseBranch baseHash heq''
            rw [heq''] at hreplay
            have hrooted : Kept env w₃ { w₃ with
                pushCycleRootBranch := some baseBranch, pushCycleRootHash := baseHash } :=
              Kept.of_repo env rfl rfl
            exact (((hpush.trans env hfetch).trans env hreplay).trans env hrooted).trans env (ih _ _ _)

theorem pushPendingCommits_kept [DecidableEq H] (w : Worker H T) :
    Kept env w (pushPendingCommits env target writes w).1 := by
  have hnext : Kept env w w.next := Kept.of_onlyTick env (onlyTick_next w)
  unfold pushPendingCommits
  split
  · exact id
  · split
    · exact hnext
    · exact hnext.trans env (pushLoop_kept env target _ _ _ _)

/-! ## 5. Runs -/

variable (cfg : LoopConfig)

theorem handleAttachCommitRequest_kept [DecidableEq H] (req : AttachCommitRequest) (l : Loop H T) :
    Kept env l.w (handleAttachCommitRequest env req l).w := by
  refine Kept.of_repo env (handleAttachCommitRequest_frame env req l).1 ?_
  unfold handleAttachCommitRequest
  split
  · rfl
  · split
    · rfl
    · simp only
      split <;> rfl

theorem resolvePushedCommitRequests_kept (l : Loop H T) :
    Kept env l.w (resolvePushedCommitRequests env cfg writes l).w := by
  induction writes generalizing l with
  | nil => exact id
  | cons pw rest ih =>
    rw [resolvePushedCommitRequests]
    split
    · refine Kept.trans env ?_ (ih _)
      exact Kept.of_repo env rfl rfl
    · exact ih l

theorem pushPending_kept [DecidableEq H] (l : Loop H T) :
    Kept env l.w (pushPending env cfg l).w := by
  unfold pushPending
  split
  · exact id
  · have hpush := pushPendingCommits_kept env cfg.branch l.pendingWrites l.w
    split
    · rename_i heq
      rw [heq] at hpush
      exact hpush
    · rename_i w writes heq
      rw [heq] at hpush
      have hresolve := resolvePushedCommitRequests_kept env writes cfg
        { l with w := w, pendingWrites := writes }
      exact (hpush.trans env hresolve).trans env (Kept.of_repo env rfl rfl)

theorem loopStep_kept [DecidableEq H] {l l' : Loop H T} (hstep : LoopStep env cfg l l') :
    Kept env l.w l'.w := by
  have hcommit : ∀ pw w' applied count,
      commitPendingWrites env cfg.branch [pw] l.hasPending l.w = (w', applied, count) →
      Kept env l.w w' := by
    intro pw w' applied count hcommit
    have hkept := commitPendingWrites_kept env cfg.branch [pw] l.hasPending l.w
    rwa [hcommit] at hkept
  cases hstep with
  | quiet hquiet => exact Kept.of_repo env hquiet.repo hquiet.history
  | register req => exact handleAttachCommitRequest_kept env req l
  | claim window p hopen hfree hp => exact id
  | drop window cause hopen =>
    cases hrequest : window.pendingCR with
    | none | some _ => exact Kept.of_repo env rfl rfl
  | reject id hclaim hmem => exact Kept.of_repo env rfl rfl
  | attempt pw w' applied count hcom => exact hcommit _ _ _ _ hcom
  | retain pw applied kept w' count hcom hat hreq hsha => exact hcommit _ _ _ _ hcom
  | settle window id pw applied w' count hopen hclaim hkind hreq hcom =>
    have hkept := hcommit _ _ _ _ hcom
    unfold settleCommitRequest
    split
    -- the outcome is recorded at once, perhaps after a note
    · refine hkept.trans env ?_
      simp only
      split <;> exact Kept.of_repo env rfl rfl
    · exact hkept.trans env (Kept.of_repo env rfl rfl)
  | push => exact pushPending_kept env cfg l

theorem turn_kept [DecidableEq H] (l : Loop H T) (wake : Wake) :
    Kept env l.w (turn env cfg l wake).w := by
  have hsteps := turn_steps env cfg l wake
  generalize turn env cfg l wake = final at hsteps
  induction hsteps with
  | refl => exact id
  | tail _ hlast ih => exact ih.trans env (loopStep_kept env cfg hlast)

/-- Commit isolation: in every run, a commit made while nothing had been left in the worktree since
    the last commit or complete reset is its own write applied to the tree of its parent. -/
theorem run_commits_isolated [DecidableEq H] (repo : Repo H T) (remote : Remote H)
    (wakes : List Wake)
    (op : FileOp H T) (earlier : List (FileOp H T))
    (hop : op :: earlier <:+ (run env cfg repo remote wakes).w.history)
    (hlitter : ¬ Littered earlier) : op.Isolated env := by
  have hsound : ∀ (wakes : List Wake) (l : Loop H T), l.w.Sound env →
      (wakes.foldl (turn env cfg) l).w.Sound env := by
    intro wakes
    induction wakes with
    | nil => exact fun _ => id
    | cons wake wakes ih => exact fun l h => ih _ (turn_kept env cfg l wake h)
  have hinit : (initialLoop repo remote).w.Sound env :=
    ⟨fun h => absurd trivial h, fun op earlier hsuffix => by simp [initialLoop] at hsuffix⟩
  exact (hsound wakes _ hinit).isolated op earlier hop hlitter

/-- Files are numbers: folder `b` needs the bootstrap file 5, an event adds file 1 and a `refused`
    one is not accepted. -/
def sampleStages : Stages (Chain (List Nat)) (List Nat) where
  bootstrap e files := (if e.path = ['b'] ∧ 5 ∉ files then files ++ [5] else files, true)
  bootstrapTarget _ files := (files, true)
  encryptor _ := true
  accepts _ _ := true
  flushEventsToWorktree _ _ events files :=
    if events.any (fun e => decide (e.operation = "refused")) then (files, none)
    else if events.any (fun e => decide (e.operation = "noop")) then (files, some false)
    else (files ++ [1], some true)
  applyResyncToWorktree _ files := (files, some false)
  commitMetadata _ := true

def stagedWorld : World (freeStore (List Nat)) := World.calm _ sampleStages.flush

def retainingEnv (_ : Nat) : World (freeStore (List Nat)) := { stagedWorld with push := some .dropped }

def writeIn (path : Path) (operation : String) : Wake :=
  .item (.write ⟨[{ sampleEvent operation with path := path }], "", ⟨"", ""⟩, false⟩)

/-- What a commit holds, the tree of its parent and what its write makes of that tree. -/
def FileOp.summary : FileOp (Chain (List Nat)) (List Nat) →
    Option (List Nat × List Nat × Flush (List Nat))
  | .applied a => a.commit.map (fun commit =>
      let parent := treeAt (freeStore (List Nat)) a.head
      (commit.tree, parent, sampleStages.flush a.write parent))
  | .reset | .stopped => none

def refusedRun : List Wake := [writeIn ['a'] "set", writeIn ['b'] "refused", writeIn ['a'] "set"]

def emptyRun : List Wake := [writeIn ['a'] "set", writeIn ['b'] "noop", writeIn ['a'] "set"]

-- The second write is refused, or finds nothing to change, after its bootstrap file was staged; the
-- file is committed with the third write, which is about another folder.
theorem bootstrap_file_enters_next_commit :
    (¬ ∀ op ∈ (run retainingEnv sampleConfig freshClone mainOnly refusedRun).w.history,
      op.Isolated retainingEnv) ∧
    (run retainingEnv sampleConfig freshClone mainOnly refusedRun).w.history.filterMap
        FileOp.summary =
      [([0, 1, 5, 1], [0, 1], .changed [0, 1, 1]), ([0, 1], [0], .changed [0, 1])] ∧
    (¬ ∀ op ∈ (run retainingEnv sampleConfig freshClone mainOnly emptyRun).w.history,
      op.Isolated retainingEnv) ∧
    (run retainingEnv sampleConfig freshClone mainOnly emptyRun).w.history.filterMap
        FileOp.summary =
      [([0, 1, 5, 1], [0, 1], .changed [0, 1, 1]), ([0, 1], [0], .changed [0, 1])] := by
  decide

-- The refused write of folder `b` leaves its bootstrap file behind. Nothing is retained, so the next
-- write starts from a reset; when `b` is written, its file is in its own commit.
theorem refused_write_does_not_leak :
    let final := run retainingEnv sampleConfig freshClone mainOnly
      [writeIn ['b'] "refused", writeIn ['a'] "set", writeIn ['b'] "set", writeIn ['b'] "noop",
        writeIn ['b'] "set"]
    final.w.history.filterMap FileOp.summary =
        [([0, 1, 5, 1, 1], [0, 1, 5, 1], .changed [0, 1, 5, 1, 1]),
          ([0, 1, 5, 1], [0, 1], .changed [0, 1, 5, 1]), ([0, 1], [0], .changed [0, 1])] ∧
      ∀ op ∈ final.w.history, op.Isolated retainingEnv := by
  intro final
  refine ⟨by decide, fun op hop => ?_⟩
  obtain ⟨later, earlier, hsplit⟩ := List.append_of_mem hop
  have hsuffix : op :: earlier <:+ final.w.history := ⟨later, hsplit.symm⟩
  have hclear : ∀ ops ∈ final.w.history.tails, ∀ op ∈ ops.head?,
      op.summary = none ∨ ¬ Littered ops.tail := by decide
  rcases hclear (op :: earlier) ((List.mem_tails _ _).mpr hsuffix) op rfl with hnone | hlitter
  · cases op with
    | reset | stopped => trivial
    | applied a =>
      intro commit hcommit
      simp [FileOp.summary, Option.mem_def.mp hcommit] at hnone
  · exact run_commits_isolated retainingEnv sampleConfig freshClone mainOnly _ op earlier hsuffix
      hlitter

end GitopsReverser.Git
