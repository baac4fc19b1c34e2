import GitopsReverser.Git.PendingWrite
import GitopsReverser.Git.Push

/-!
# Worker — committing and publishing pending writes

The part of the branch worker that touches Git: applying writes to the worktree, committing
them, and the push with its replay on a conflict. Everything outside the process answers
through `World`, one answer per question asked, so a run is determined by the stream of answers.
The trace is a specification device: it records the moments the properties talk about.
-/

namespace GitopsReverser.Git

open Reasoning

variable {H T : Type}

/-! ## 1. The world -/

/-- What applying a write to the worktree does: it fails part-way, finds nothing to change, or
    leaves changes to be committed. -/
inductive Flush (T : Type) where
  | failed (files : T)
  | unchanged (files : T)
  | changed (files : T)
  deriving DecidableEq

def Flush.isUnchanged : Flush T → Bool
  | unchanged _ => true
  | _ => false

/-- How sending a ref update fails: it never arrives, the server refuses it, or the reply is
    lost after the update. -/
inductive PushFault where
  | dropped
  | rejected
  | replyLost
  deriving DecidableEq

inductive TargetRead where
  | gone
  | failed
  | found (path : Path) (pruneMode : PruneMode)

/-- Other writers of the remote: they may create branches and move them forward. -/
structure OtherWriters (S : ObjectStore H T) where
  run : Remote H → Remote H
  advances : ∀ remote, S.Advances remote.refs (run remote).refs

def OtherWriters.idle (S : ObjectStore H T) : OtherWriters S :=
  ⟨id, fun remote => S.advances_refl remote.refs⟩

def OtherWriters.commitOn (S : ObjectStore H T) (branch : Branch) (files : T) (stamp : Nat) :
    OtherWriters S where
  run remote := { remote with
    refs := Function.update remote.refs branch (some (S.commit (remote.refs branch) files stamp)) }
  advances remote b := by
    by_cases h : b = branch
    · subst h
      simp only [Function.update_self]
      exact S.below_commit _ _ _
    · simp only [Function.update_of_ne h]
      exact S.below_refl _

/-- One answer of the environment; each operation reads the fields that concern it. -/
structure World (S : ObjectStore H T) where
  others : OtherWriters S
  now : Int
  /-- Provider, credentials, signer and clone could be read. -/
  apiOk : Bool
  connected : Bool
  checkout : Option (CheckoutFault T)
  push : Option PushFault
  getGitTarget : TargetKey → TargetRead
  flush : PendingWrite H → T → Flush T
  /-- Applying the write to these files leaves the content of one of its events out: there is no
      safe place for it, or its document may not be edited. The flush does not report that. -/
  skips : PendingWrite H → T → Bool
  stamp : Nat
  commitOk : Bool
  writesAllowed : TargetKey → Bool
  /-- The iteration order of a map with these keys. -/
  order : List CommitRequestId → List CommitRequestId
  order_perm : ∀ ids, (order ids).Perm ids

def World.calm (S : ObjectStore H T) (flush : PendingWrite H → T → Flush T) : World S where
  others := OtherWriters.idle S
  now := 0
  apiOk := true
  connected := true
  checkout := none
  push := none
  getGitTarget := fun _ => .found [] .onEvent
  flush := flush
  skips := fun _ _ => false
  stamp := 1
  commitOk := true
  writesAllowed := fun _ => true
  order := id
  order_perm := fun ids => List.Perm.refl ids

theorem order_refl (ids : List CommitRequestId) : (id ids).Perm ids := .refl ids

/-- The moments recorded in a trace. -/
inductive Note (H : Type) where
  /-- `pendingWrites` was emptied, with the remote branch at `tip`. -/
  | cleared (writes : List (PendingWrite H)) (tip : Option H)
  | registered (id : CommitRequestId)
  /-- An outcome was recorded with the remote branch at `tip`; `carried` is the write of the
      window that carried the request and the answer it was applied under. -/
  | resolved (id : CommitRequestId) (result : FinalizeResult H)
      (carried : Option (PendingWrite H × Nat)) (tip : Option H)
  | expired (id : CommitRequestId)
  | replied (channel : Nat) (failed : Bool)
  /-- A replay stopped after the clone had been reset to the remote. -/
  | replayAborted
  /-- A replay of a write that carries this request found nothing to change. -/
  | replayedEmpty (id : CommitRequestId)
  /-- An attach arrived for a request that rides a retained write. -/
  | reattached (id : CommitRequestId)
  /-- A window was found unchanged against files that are not the remote branch tip, or by a flush
      that skipped one of its events. -/
  | doubtfulComparison (id : CommitRequestId)
  deriving DecidableEq

/-- A write that was applied: the answer it was applied under, HEAD and the files it found, the
    files it left and the commit it made. -/
structure Applied (H T : Type) where
  write : PendingWrite H
  tick : Nat
  head : Option H
  found : T
  left : T
  commit : Option H

/-- What happened to the files of the clone: a reset that completed, one that stopped part-way, or
    a write. -/
inductive FileOp (H T : Type) where
  | reset
  | stopped
  | applied (a : Applied H T)

/-- `history`, like the trace, is a specification field: what happened to the files, newest first. -/
structure Worker (H T : Type) where
  repo : Repo H T
  remote : Remote H
  pushCycleRootBranch : Option Branch
  pushCycleRootHash : Option H
  tick : Nat
  trace : List (Note H)
  history : List (FileOp H T)

def Worker.log (w : Worker H T) (note : Note H) : Worker H T := { w with trace := note :: w.trace }

variable {S : ObjectStore H T} (env : Nat → World S)

/-- A moment on the network: other writers may have moved the remote since the last one. -/
def Worker.contact (w : Worker H T) : Worker H T :=
  { w with remote := (env w.tick).others.run w.remote, tick := w.tick + 1 }

def Worker.next (w : Worker H T) : Worker H T := { w with tick := w.tick + 1 }

/-! ## 2. Applying writes -/

def Worker.recordApplied (w : Worker H T) (pw : PendingWrite H) (left : T) (commit : Option H) :
    List (FileOp H T) :=
  .applied ⟨pw, w.tick, headHash w.repo, w.repo.worktree, left, commit⟩ :: w.history

/-- The write with its commit, and whether a commit was made. A resync reports no commit hash. -/
def executePendingWrite (pw : PendingWrite H) (w : Worker H T) :
    Worker H T × Option (PendingWrite H × Bool) :=
  let world := env w.tick
  if pw.kind ≠ .resync ∧ pw.events = [] then
    (w.next, some ({ pw with commitSHA := none, appliedAt := headHash w.repo }, false))
  else match world.flush pw w.repo.worktree with
    -- a failed flush leaves its half-written files in the worktree
    | .failed files =>
      ({ w.next with
          repo := { w.repo with worktree := files }, history := w.recordApplied pw files none },
        none)
    | .unchanged files =>
      ({ w.next with
          repo := { w.repo with worktree := files }, history := w.recordApplied pw files none },
        some ({ pw with commitSHA := none, appliedAt := headHash w.repo }, false))
    | .changed files =>
      let staged := { w.repo with worktree := files }
      if world.commitOk then
        let repo := commitWorktree S world.stamp staged
        let commit := S.commit (headHash w.repo) files world.stamp
        ({ w.next with
            repo := repo
            history := w.recordApplied pw files (some commit) },
          some ({ pw with commitSHA := if pw.kind = .resync then none else headHash repo
                          appliedAt := headHash repo }, true))
      -- staged but not committed
      else ({ w.next with repo := staged, history := w.recordApplied pw files none }, none)

/-- The writes with their refreshed commits and how many commits were made; an error keeps what was
    refreshed before it. -/
def executePendingWrites :
    List (PendingWrite H) → Worker H T → Worker H T × List (PendingWrite H) × Option Nat
  | [], w => (w, [], some 0)
  | pw :: rest, w =>
    match executePendingWrite env pw w with
    -- the writes after the failed one keep their old hashes
    | (w₁, none) => (w₁, pw :: rest, none)
    | (w₁, some (pw', created)) =>
      match executePendingWrites rest w₁ with
      | (w₂, rest', count) => (w₂, pw' :: rest', count.map (· + created.toNat))

def tightenMetadata (md : ResolvedTargetMetadata) (current : PruneMode) : ResolvedTargetMetadata :=
  let tightened := md.pruneMode.moreRestrictiveOf current
  if tightened = md.pruneMode.orDefault then md else { md with pruneMode := tightened }

/-- The inner loop of `tightenPendingPruneModes` over one write's targets, with the modes read so
    far; `none` is a failed read. -/
def tightenTargets :
    List (TargetKey × ResolvedTargetMetadata) → List (TargetKey × PruneMode) → Worker H T →
      Worker H T × List (TargetKey × ResolvedTargetMetadata) × Option (List (TargetKey × PruneMode))
  | [], current, w => (w, [], some current)
  | (key, md) :: rest, current, w =>
    let read : Worker H T × Option PruneMode :=
      match current.find? (fun entry => entry.1 = key) with
      | some entry => (w, some entry.2)
      | none => match (env w.tick).getGitTarget key with
        -- a target that is gone prunes nothing any more
        | .gone => (w.next, some .never)
        | .failed => (w.next, none)
        | .found _ mode => (w.next, some mode.orDefault)
    match read with
    | (w₁, none) => (w₁, (key, md) :: rest, none)
    | (w₁, some mode) =>
      match tightenTargets rest ((key, mode) :: current) w₁ with
      | (w₂, rest', seen) => (w₂, (key, tightenMetadata md mode) :: rest', seen)

def tightenPendingPruneModes : List (PendingWrite H) → List (TargetKey × PruneMode) → Worker H T →
      Worker H T × List (PendingWrite H) × Bool
  | [], _, w => (w, [], true)
  | pw :: rest, current, w =>
    match tightenTargets env pw.targets current w with
    | (w₁, targets, none) => (w₁, { pw with targets := targets } :: rest, false)
    | (w₁, targets, some current') =>
      match tightenPendingPruneModes rest current' w₁ with
      | (w₂, rest', ok) => (w₂, { pw with targets := targets } :: rest', ok)

/-! ## 3. Committing and pushing -/

section Publish

variable [DecidableEq H] [EmptyCollection T] (target : Branch)

/-- Nothing is checked out on the target branch itself. -/
def switchOps (target : Branch) : Option (Branch × Option H) → List (FileOp H T)
  | none => [.stopped]
  | some base => if base.1 = target then [] else [.reset]

def syncOps : Except SyncError (PullReport H) → List (FileOp H T)
  | .error .fetch => []
  | .error _ => [.stopped]
  | .ok _ => [.reset]

def Worker.ensureWriteBranch (w : Worker H T) : Worker H T × Option (Branch × Option H) :=
  match Git.ensureWriteBranch S (env w.tick).checkout target w.repo with
  | (repo, base) => ({ w.next with repo := repo, history := switchOps target base ++ w.history }, base)

def Worker.syncToRemote (w : Worker H T) : Worker H T × Except SyncError (PullReport H) :=
  let listed := w.contact env
  let fetched := listed.contact env
  match Git.syncToRemote S (env w.tick).connected (env w.tick).checkout listed.remote
      fetched.remote target w.repo with
  | (repo, report) => ({ fetched with repo := repo, history := syncOps report ++ w.history }, report)

def commitPendingWrites (writes : List (PendingWrite H)) (hasPendingCommits : Bool)
    (w : Worker H T) : Worker H T × List (PendingWrite H) × Option Nat :=
  if writes = [] then (w, writes, some 0)
  else if (env w.tick).apiOk = false then (w.next, writes, none)
  else
    let prepared : Worker H T × Bool :=
      if hasPendingCommits then (w.next, true)
      else match w.next.syncToRemote env target with
        | (w₁, .ok _) => (w₁, true)
        | (w₁, .error _) => (w₁, false)
    match prepared with
    | (w₁, false) => (w₁, writes, none)
    | (w₁, true) =>
      match w₁.ensureWriteBranch env target with
      | (w₂, none) => (w₂, writes, none)
      | (w₂, some (baseBranch, baseHash)) =>
        -- a push cycle is rooted where its first commit was based
        let w₃ := if hasPendingCommits then w₂
          else { w₂ with pushCycleRootBranch := some baseBranch, pushCycleRootHash := baseHash }
        executePendingWrites env writes w₃

/-- The remote is contacted for its refs and again for the update, which is an atomic
    compare-and-set of the branch HEAD is on. -/
def pushAtomic (rootHash : Option H) (rootBranch : Branch) (w : Worker H T) : Worker H T × Bool :=
  let advertised := w.contact env
  if (env w.tick).connected = false then (advertised, false)
  else match pushCommand w.repo advertised.remote.refs rootHash rootBranch with
    | .refused _ => (advertised, false)
    | .upToDate => (advertised, true)
    | .send old new =>
      -- the remote may have moved since its refs were advertised
      let received := advertised.contact env
      let accepted := decide (received.remote.refs w.repo.head = old)
      let updated := { received with
        remote := { received.remote with
          refs := Function.update received.remote.refs w.repo.head new } }
      match (env w.tick).push with
      | some .dropped => (received, false)
      | some .rejected => (received, false)
      -- the update went through, but the worker is told it failed
      | some .replyLost => (if accepted then updated else received, false)
      | none => if accepted then (updated, true) else (received, false)

def Worker.fetchRemoteBranchHash (branch : Branch) (w : Worker H T) : Worker H T × Option (Option H) :=
  let listed := w.contact env
  let fetched := listed.contact env
  match Git.fetchRemoteBranchHash (env w.tick).connected listed.remote fetched.remote branch w.repo with
  | (repo, hash) => ({ fetched with repo := repo }, hash)

def replayedEmptyNotes (writes : List (PendingWrite H)) : List (Note H) :=
  writes.filterMap (fun pw =>
    if pw.commitSHA = none then pw.commitRequest.map Note.replayedEmpty else none)

def rebuildPendingWrites (writes : List (PendingWrite H)) (w : Worker H T) :
    Worker H T × List (PendingWrite H) × Option (Branch × Option H) :=
  match w.ensureWriteBranch env target with
  | (w₁, none) => (w₁, writes, none)
  | (w₁, some base) =>
    match tightenPendingPruneModes env writes [] w₁ with
    | (w₂, tightened, false) => (w₂, tightened, none)
    | (w₂, tightened, true) =>
      match executePendingWrites env tightened w₂ with
      | (w₃, replayed, count) =>
        ({ w₃ with trace := replayedEmptyNotes replayed ++ w₃.trace }, replayed,
          count.map (fun _ => base))

def replayOnRemote (writes : List (PendingWrite H)) (w : Worker H T) :
    Worker H T × List (PendingWrite H) × Option (Branch × Option H) :=
  match w.syncToRemote env target with
  -- nothing was reset yet
  | (w₁, .error .fetch) => (w₁, writes, none)
  | (w₁, .error _) => (w₁.log .replayAborted, writes, none)
  | (w₁, .ok _) =>
    match rebuildPendingWrites env target writes w₁ with
    | (w₂, writes', none) => (w₂.log .replayAborted, writes', none)
    | (w₂, writes', some base) => (w₂, writes', some base)

def pushLoop : Nat → Option H → List (PendingWrite H) → Worker H T →
    Worker H T × List (PendingWrite H) × Bool
  | 0, _, writes, w => (w, writes, false)
  | retries + 1, rootHash, writes, w =>
    let rootBranch := w.pushCycleRootBranch.getD target
    match pushAtomic env rootHash rootBranch w with
    | (w₁, true) =>
      ({ w₁ with pushCycleRootBranch := none, pushCycleRootHash := none }, writes, true)
    | (w₁, false) =>
      match w₁.fetchRemoteBranchHash env rootBranch with
      | (w₂, none) => (w₂, writes, false)
      | (w₂, some remoteHash) =>
        -- not a conflict: the failure of the push is returned
        if remoteHash = rootHash then (w₂, writes, false)
        else match replayOnRemote env target writes w₂ with
          | (w₃, writes', none) => (w₃, writes', false)
          | (w₃, writes', some (baseBranch, baseHash)) =>
            pushLoop retries baseHash writes'
              { w₃ with pushCycleRootBranch := some baseBranch
                        pushCycleRootHash := baseHash }

def maxRetries : Nat := 3

def pushPendingCommits (writes : List (PendingWrite H)) (w : Worker H T) :
    Worker H T × List (PendingWrite H) × Bool :=
  if writes = [] then (w, writes, true)
  else if (env w.tick).apiOk = false then (w.next, writes, false)
  else pushLoop env target maxRetries w.pushCycleRootHash writes w.next

end Publish

end GitopsReverser.Git
