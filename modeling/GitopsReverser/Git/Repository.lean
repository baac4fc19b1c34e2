import GitopsReverser.Reasoning.History

/-!
# Repository — the local clone and how it is brought to the remote

The clone is a symbolic HEAD, local branches, remote-tracking refs and one worktree. Each
operation below can stop part-way: a `CheckoutFault` says where, and which files it leaves.
The remote is read twice by a fetch (list, then fetch), so it appears twice as an argument.
-/

namespace GitopsReverser.Git

open Reasoning

/-- Short branch names; `refs/heads/` and `refs/remotes/origin/` are the two namespaces. -/
abbrev Branch := String

structure Repo (H T : Type) where
  head : Branch
  refs : Branch → Option H
  tracking : Branch → Option H
  worktree : T

structure Remote (H : Type) where
  refs : Branch → Option H
  head : Option Branch

/-- Where a checkout with a hard reset stops: before the branch ref (or, when the branch is being
    created, before HEAD) is moved, or after both, with these files left behind. -/
inductive CheckoutFault (T : Type) where
  | early (files : T)
  | late (files : T)

variable {H T : Type}

def getCurrentBranch (repo : Repo H T) : Branch × Option H := (repo.head, repo.refs repo.head)

def headHash (repo : Repo H T) : Option H := repo.refs repo.head

def Repo.setRef (repo : Repo H T) (branch : Branch) (hash : Option H) : Repo H T :=
  { repo with refs := Function.update repo.refs branch hash }

/-! ## 1. Fetching -/

def cleanBranchName (name : String) : String :=
  if name.toList.length > 7 ∧ name.toList.take 7 = "origin/".toList then
    String.ofList (name.toList.drop 7)
  else name

/-- `analyzeRemoteRefs`, the default branch: HEAD's branch unless it is dangling. -/
def defaultBranch (listed : Remote H) : Option Branch :=
  listed.head.filter (fun d => (listed.refs d).isSome)

/-- The branch `SmartFetch` returns for the listed refs: the target, else the default branch. -/
def availableBranch (listed : Remote H) (target : Branch) : Option Branch :=
  if (listed.refs target).isSome then some target else defaultBranch listed

def buildSmartRefSpecs (listed : Remote H) (target : Branch) : List (Branch × Branch) :=
  ((defaultBranch listed).map (fun d => (d, cleanBranchName d))).toList ++
  (if (listed.refs target).isSome ∧ defaultBranch listed ≠ some target
    then [(target, target)] else [])

/-- Fetch one refspec after the other into the tracking refs; a ref that is gone by now fails. -/
def fetchRefSpecs (fetched : Remote H) :
    List (Branch × Branch) → (Branch → Option H) → Option (Branch → Option H)
  | [], tracking => some tracking
  | (src, dst) :: specs, tracking =>
    match fetched.refs src with
    | none => none
    | some h => fetchRefSpecs fetched specs (Function.update tracking dst (some h))

/-- `connected` is false when listing or fetching fails. -/
def smartFetch (connected : Bool) (listed fetched : Remote H) (target : Branch)
    (repo : Repo H T) : Repo H T × Option (Option Branch) :=
  if connected = false then (repo, none)
  else match availableBranch listed target with
    | none => (repo, some none)
    | some branch =>
      match fetchRefSpecs fetched (buildSmartRefSpecs listed target) repo.tracking with
      | none => (repo, none)
      | some tracking => ({ repo with tracking := tracking }, some (some branch))

/-- The tracking ref after a fetch, which stays at its last value when the branch is not on the
    remote. -/
def fetchRemoteBranchHash (connected : Bool) (listed fetched : Remote H) (branch : Branch)
    (repo : Repo H T) : Repo H T × Option (Option H) :=
  match smartFetch connected listed fetched branch repo with
  | (repo', none) => (repo', none)
  | (repo', some _) => (repo', some (repo'.tracking branch))

/-! ## 2. Moving the clone -/

section Moving

variable (S : ObjectStore H T)

/-- A forced checkout of `branch` followed by a hard reset to `hash`, creating the branch when it
    does not exist. -/
def checkoutReset (fault : Option (CheckoutFault T)) (branch : Branch) (hash : H)
    (repo : Repo H T) : Repo H T × Bool :=
  match fault with
  | none =>
    ({ repo.setRef branch (some hash) with head := branch, worktree := S.tree hash }, true)
  | some (.late files) =>
    ({ repo.setRef branch (some hash) with head := branch, worktree := files }, false)
  | some (.early files) =>
    match repo.refs branch with
    | some _ => ({ repo with head := branch, worktree := files }, false)
    | none => ({ repo.setRef branch (some hash) with worktree := files }, false)

def checkoutAndReset (fault : Option (CheckoutFault T)) (branch : Branch) (repo : Repo H T) :
    Repo H T × Option H :=
  match repo.tracking branch with
  | none => (repo, none)
  | some hash =>
    match checkoutReset S fault branch hash repo with
    | (repo', true) => (repo', some hash)
    | (repo', false) => (repo', none)

def makeHeadUnborn [EmptyCollection T] (fault : Option (CheckoutFault T)) (branch : Branch)
    (repo : Repo H T) : Repo H T × Bool :=
  match fault with
  | none => ({ repo.setRef branch none with head := branch, worktree := ∅ }, true)
  | some (.early files) => ({ repo with head := branch, worktree := files }, false)
  | some (.late files) => ({ repo.setRef branch none with head := branch, worktree := files }, false)

structure PullReport (H : Type) where
  existsOnRemote : Bool
  incomingChanges : Bool
  shortName : Branch
  sha : Option H
  unborn : Bool

def createPullReport [DecidableEq H] (targetBranch : Branch) (before after : Option H)
    (remoteExists unborn : Bool) : PullReport H :=
  ⟨remoteExists, decide (before ≠ after), targetBranch, after, unborn⟩

inductive SyncError where
  | fetch
  | checkoutAndReset
  | rootBranch
  deriving DecidableEq

/-- The clone ends on the target branch or, when the remote does not have it, on the default branch,
    or unborn. -/
def syncToRemote [DecidableEq H] [EmptyCollection T] (connected : Bool)
    (fault : Option (CheckoutFault T)) (listed fetched : Remote H) (branch : Branch)
    (repo : Repo H T) : Repo H T × Except SyncError (PullReport H) :=
  let currentHash := headHash repo
  match smartFetch connected listed fetched branch repo with
  | (repo', none) => (repo', .error .fetch)
  | (repo', some (some available)) =>
    match checkoutAndReset S fault available repo' with
    | (repo'', none) => (repo'', .error .checkoutAndReset)
    | (repo'', some newHash) =>
      (repo'', .ok (createPullReport branch currentHash (some newHash)
        (decide (available = branch)) false))
  | (repo', some none) =>
    match makeHeadUnborn fault branch repo' with
    | (repo'', false) => (repo'', .error .rootBranch)
    | (repo'', true) => (repo'', .ok (createPullReport branch currentHash none false true))

/-- A reset to the zero hash is a reset to HEAD, and a branch cannot be created from an unborn HEAD. -/
def switchOrCreateBranch (fault : Option (CheckoutFault T)) (target : Branch)
    (baseHash : Option H) (repo : Repo H T) : Repo H T × Bool :=
  match baseHash, repo.refs target with
  | some h, _ => checkoutReset S fault target h repo
  | none, some old => checkoutReset S fault target old repo
  | none, none => (repo, false)

def ensureWriteBranch (fault : Option (CheckoutFault T)) (target : Branch) (repo : Repo H T) :
    Repo H T × Option (Branch × Option H) :=
  let base := getCurrentBranch repo
  if base.1 = target then (repo, some base)
  else match switchOrCreateBranch S fault target base.2 repo with
    | (repo', true) => (repo', some base)
    | (repo', false) => (repo', none)

def commitWorktree (stamp : Nat) (repo : Repo H T) : Repo H T :=
  repo.setRef repo.head (some (S.commit (headHash repo) repo.worktree stamp))

/-! ## 3. What the moves do to HEAD -/

@[simp] theorem headHash_commitWorktree (stamp : Nat) (repo : Repo H T) :
    headHash (commitWorktree S stamp repo) = some (S.commit (headHash repo) repo.worktree stamp) := by
  simp [headHash, commitWorktree, Repo.setRef]

variable (fault : Option (CheckoutFault T))

theorem checkoutReset_ok (branch : Branch) (hash : H)
    (repo repo' : Repo H T) (h : checkoutReset S fault branch hash repo = (repo', true)) :
    repo'.head = branch ∧ headHash repo' = some hash ∧ repo'.worktree = S.tree hash := by
  unfold checkoutReset at h
  split at h
  · obtain ⟨rfl, -⟩ := Prod.mk.inj h
    simp [headHash, Repo.setRef]
  · simp at h
  · split at h <;> simp at h

def treeAt [EmptyCollection T] : Option H → T
  | none => ∅
  | some h => S.tree h

variable (connected : Bool)

theorem smartFetch_branches (listed fetched : Remote H) (target : Branch) (repo : Repo H T) :
    (smartFetch connected listed fetched target repo).1.head = repo.head ∧
      (smartFetch connected listed fetched target repo).1.refs = repo.refs := by
  unfold smartFetch
  split
  · exact ⟨rfl, rfl⟩
  · split
    · exact ⟨rfl, rfl⟩
    · split <;> exact ⟨rfl, rfl⟩

theorem syncToRemote_fetch_error [DecidableEq H] [EmptyCollection T]
    (fault : Option (CheckoutFault T)) (listed fetched : Remote H) (branch : Branch)
    (repo repo' : Repo H T)
    (h : syncToRemote S connected fault listed fetched branch repo = (repo', .error .fetch)) :
    repo'.head = repo.head ∧ repo'.refs = repo.refs := by
  have hfetch := smartFetch_branches connected listed fetched branch repo
  unfold syncToRemote at h
  simp only at h
  split at h
  · rename_i repo₁ hsmart
    obtain ⟨rfl, -⟩ := Prod.mk.inj h
    rw [hsmart] at hfetch
    exact hfetch
  · split at h <;> simp at h
  · split at h <;> simp at h

theorem syncToRemote_ok_worktree [DecidableEq H] [EmptyCollection T]
    (fault : Option (CheckoutFault T)) (listed fetched : Remote H) (branch : Branch)
    (repo repo' : Repo H T) (report : PullReport H)
    (h : syncToRemote S connected fault listed fetched branch repo = (repo', .ok report)) :
    repo'.worktree = treeAt S (headHash repo') := by
  unfold syncToRemote at h
  simp only at h
  split at h
  · simp at h
  · rename_i repo₁ available hsmart
    split at h
    · simp at h
    · rename_i repo₂ newHash hcheckout
      obtain ⟨rfl, -⟩ := Prod.mk.inj h
      unfold checkoutAndReset at hcheckout
      split at hcheckout
      · simp at hcheckout
      · rename_i hash htracked
        split at hcheckout
        · rename_i repo₃ hres
          obtain ⟨rfl, -⟩ := Prod.mk.inj hcheckout
          obtain ⟨-, hhash, hfile⟩ := checkoutReset_ok S fault available hash repo₁ repo₃ hres
          rw [hhash, hfile]
          rfl
        · simp at hcheckout
  · -- the remote has no branch to reset to: the head is made unborn
    rename_i repo₁ hsmart
    split at h
    · simp at h
    · rename_i repo₂ hunborn
      obtain ⟨rfl, -⟩ := Prod.mk.inj h
      unfold makeHeadUnborn at hunborn
      split at hunborn
      · obtain ⟨rfl, -⟩ := Prod.mk.inj hunborn
        simp [headHash, Repo.setRef, treeAt]
      · simp at hunborn
      · simp at hunborn

variable (target : Branch)

/-- A successful `ensureWriteBranch` leaves HEAD on the target, at the returned base (or, from an
    unborn HEAD, at whatever the local target branch already was). -/
theorem ensureWriteBranch_ok (repo repo' : Repo H T) (base : Branch × Option H)
    (h : ensureWriteBranch S fault target repo = (repo', some base)) :
    base = getCurrentBranch repo ∧ repo'.head = target ∧
      (base.1 = target → repo' = repo) ∧ S.Below base.2 (headHash repo') := by
  unfold ensureWriteBranch at h
  simp only at h
  split at h
  · rename_i hon
    obtain ⟨rfl, hbase⟩ := Prod.mk.inj h
    obtain rfl := Option.some.inj hbase
    exact ⟨rfl, hon, fun _ => rfl, S.below_refl _⟩
  · rename_i hoff
    split at h
    · rename_i repo₁ hswitch
      obtain ⟨rfl, hbase⟩ := Prod.mk.inj h
      obtain rfl := Option.some.inj hbase
      unfold switchOrCreateBranch at hswitch
      cases hb : (getCurrentBranch repo).2 with
      | some base =>
        rw [hb] at hswitch
        obtain ⟨hhead, hhash, -⟩ := checkoutReset_ok S fault target base repo repo₁ hswitch
        exact ⟨rfl, hhead, fun hon => absurd hon hoff, by rw [hhash]; exact S.below_refl _⟩
      | none =>
        rw [hb] at hswitch
        cases hold : repo.refs target with
        | none => simp [hold] at hswitch
        | some old =>
          simp only [hold] at hswitch
          obtain ⟨hhead, hhash, -⟩ := checkoutReset_ok S fault target old repo repo₁ hswitch
          exact ⟨rfl, hhead, fun hon => absurd hon hoff, S.below_none _⟩
    · simp at h

theorem ensureWriteBranch_ok_worktree [EmptyCollection T]
    (repo repo' : Repo H T) (base : Branch × Option H)
    (h : ensureWriteBranch S fault target repo = (repo', some base))
    (hclean : repo.worktree = treeAt S (headHash repo)) :
    repo'.worktree = treeAt S (headHash repo') := by
  unfold ensureWriteBranch at h
  simp only at h
  split at h
  · obtain ⟨rfl, -⟩ := Prod.mk.inj h
    exact hclean
  · split at h
    · rename_i repo₁ hswitch
      obtain ⟨rfl, -⟩ := Prod.mk.inj h
      unfold switchOrCreateBranch at hswitch
      split at hswitch
      · obtain ⟨-, hhash, hfile⟩ := checkoutReset_ok S fault target _ repo repo₁ hswitch
        rw [hhash, hfile]
        rfl
      · obtain ⟨-, hhash, hfile⟩ := checkoutReset_ok S fault target _ repo repo₁ hswitch
        rw [hhash, hfile]
        rfl
      · simp at hswitch
    · simp at h

theorem ensureWriteBranch_on_target (repo : Repo H T) (h : repo.head = target) :
    ensureWriteBranch S fault target repo = (repo, some (target, headHash repo)) := by
  simp [ensureWriteBranch, getCurrentBranch, headHash, h]

end Moving

end GitopsReverser.Git
