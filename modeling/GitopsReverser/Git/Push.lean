import GitopsReverser.Git.Repository

/-!
# Push — the ref-update command of `PushAtomic`

A push names two refs: the root branch, which must still be where the work started, and the
target branch, which is updated by a compare-and-set. `pushCommand` is the decision taken on
the advertised refs; sending the command and its reply are the caller's side.
-/

namespace GitopsReverser.Git

open Reasoning

variable {H T : Type} [DecidableEq H]

inductive PushError where
  | remoteWentMissing
  | remoteReceivedUnknownUpdates
  deriving DecidableEq

inductive PushDecision (H : Type) where
  | refused (err : PushError)
  | upToDate
  | send (old new : Option H)
  deriving DecidableEq

/-- The checks of `validatePushState` on the hashes it has read: the target branch on the remote
    and locally, and the root branch now and at the start of the push cycle. -/
def checkPushState (remoteHash localHash currentRootHash rootHash : Option H) :
    Except PushError (Option H × Option H) :=
  if currentRootHash = none ∧ rootHash ≠ none then .error .remoteWentMissing
  else match remoteHash with
    | some remote =>
      if localHash = some remote then .ok (none, none)
      else if rootHash ≠ currentRootHash then .error .remoteReceivedUnknownUpdates
      else .ok (some remote, localHash)
    | none => .ok (none, localHash)

/-- `validatePushState`, on the advertised refs: the old and new value of the target branch. Two
    missing values are the signal for "already up to date". -/
def validatePushState (repo : Repo H T) (advertised : Branch → Option H) (rootHash : Option H)
    (rootBranch : Branch) : Except PushError (Option H × Option H) :=
  checkPushState (advertised (getCurrentBranch repo).1) (getCurrentBranch repo).2
    (advertised rootBranch) rootHash

def pushCommand (repo : Repo H T) (advertised : Branch → Option H) (rootHash : Option H)
    (rootBranch : Branch) : PushDecision H :=
  match validatePushState repo advertised rootHash rootBranch with
  | .error err => .refused err
  | .ok (none, none) => .upToDate
  | .ok (old, new) => .send old new

theorem pushCommand_spec (repo : Repo H T) (advertised : Branch → Option H) (rootHash : Option H)
    (rootBranch : Branch) :
    (∀ old new, pushCommand repo advertised rootHash rootBranch = .send old new ↔
      new = headHash repo ∧ old = advertised repo.head ∧ ¬ (old = none ∧ new = none) ∧
      ¬ (advertised rootBranch = none ∧ rootHash ≠ none) ∧
      (old ≠ none → headHash repo ≠ old ∧ advertised rootBranch = rootHash)) ∧
    (pushCommand repo advertised rootHash rootBranch = .upToDate →
      advertised repo.head = headHash repo) := by
  unfold pushCommand validatePushState
  simp only [getCurrentBranch, headHash]
  generalize repo.refs repo.head = localHash
  generalize advertised repo.head = remote
  generalize advertised rootBranch = currentRootHash
  unfold checkPushState
  by_cases hmiss : currentRootHash = none ∧ rootHash ≠ none
  · simp [hmiss]
  · rw [if_neg hmiss]
    cases remote with
    | none =>
      cases localHash <;> simp
      grind
    | some remoteHash =>
      by_cases hsame : localHash = some remoteHash
      · simp [hsame]
      · by_cases hroot : rootHash = currentRootHash <;> simp [hsame, hroot] <;> grind

/-! ## Remote history is kept -/

section Built

variable (S : ObjectStore H T)

def commitAll : List (T × Nat) → Repo H T → Repo H T
  | [], repo => repo
  | (files, stamp) :: edits, repo =>
    commitAll edits (commitWorktree S stamp { repo with worktree := files })

def builtCommits : List (T × Nat) → Repo H T → List H
  | [], _ => []
  | (files, stamp) :: edits, repo =>
    S.commit (headHash repo) files stamp ::
      builtCommits edits (commitWorktree S stamp { repo with worktree := files })

omit [DecidableEq H] in
theorem head_commitAll (edits : List (T × Nat)) (repo : Repo H T) :
    (commitAll S edits repo).head = repo.head := by
  induction edits generalizing repo with
  | nil => rfl
  | cons edit edits ih => exact ih _

omit [DecidableEq H] in

/-- The history of the local head is what HEAD started from plus the commits built on it. -/
theorem below_headHash_commitAll_iff (edits : List (T × Nat)) (repo : Repo H T) (c : H) :
    S.Below (some c) (headHash (commitAll S edits repo)) ↔
      c ∈ builtCommits S edits repo ∨ S.Below (some c) (headHash repo) := by
  induction edits generalizing repo with
  | nil => simp [commitAll, builtCommits]
  | cons edit edits ih =>
    obtain ⟨files, stamp⟩ := edit
    rw [commitAll, builtCommits, ih, headHash_commitWorktree, ObjectStore.below_some_some,
      S.ancestor_commit_iff, List.mem_cons]
    change _ ∨ c = S.commit (headHash repo) files stamp ∨ _ ↔ _
    tauto

/-- A push keeps remote history exactly when the work started on the target branch itself, the
    root branch has moved (so nothing is sent), or the advertised target tip is one of the commits
    built since or lies in the history they were built on. -/
theorem pushCommand_keeps_history_iff (fault : Option (CheckoutFault T)) (target : Branch)
    (repo repo' : Repo H T) (rootBranch : Branch) (rootHash : Option H)
    (hensure : ensureWriteBranch S fault target repo = (repo', some (rootBranch, rootHash)))
    (edits : List (T × Nat)) (advertised : Branch → Option H) :
    (∀ old new, pushCommand (commitAll S edits repo') advertised rootHash rootBranch =
        .send old new → (advertised target = none ∧ old = none) ∨ S.Below old new) ↔
      (rootBranch = target ∨ advertised rootBranch ≠ rootHash ∨ ∀ tip, advertised target = some tip →
          tip ∈ builtCommits S edits repo' ∨ S.Below (some tip) (headHash repo')) := by
  obtain ⟨hbase, hhead, hsame, hbelow⟩ :=
    ensureWriteBranch_ok S fault target repo repo' (rootBranch, rootHash) hensure
  have hon : (commitAll S edits repo').head = target := by rw [head_commitAll, hhead]
  simp only [← below_headHash_commitAll_iff]
  constructor
  · intro hkeeps
    by_cases htarget : rootBranch = target
    · exact Or.inl htarget
    · right
      by_cases hmoved : advertised rootBranch = rootHash
      · right
        intro tip htip
        by_cases hlocal : headHash (commitAll S edits repo') = some tip
        · rw [hlocal]
          exact S.below_refl _
        · -- the root branch is unmoved, so the command goes out with the foreign tip as its old value
          have hsend := ((pushCommand_spec (commitAll S edits repo') advertised rootHash
            rootBranch).1 (some tip) (headHash (commitAll S edits repo'))).mpr
            ⟨rfl, by rw [hon, htip], by simp, by rw [hmoved]; simp, fun _ => ⟨hlocal, hmoved⟩⟩
          rcases hkeeps _ _ hsend with habsent | hkept
          · simp [htip] at habsent
          · exact hkept
      · exact Or.inl hmoved
  · intro hcond old new hsend
    obtain ⟨hnew, hold, -, -, hguard⟩ := ((pushCommand_spec _ _ _ _).1 _ _).mp hsend
    rw [hon] at hold
    cases htip : advertised target with
    | none =>
      left
      exact ⟨rfl, by rw [hold, htip]⟩
    | some tip =>
      right
      rw [htip] at hold
      obtain ⟨-, hroot⟩ := hguard (by simp [hold])
      rcases hcond with htarget | hmoved | htips
      · -- the work started on the target branch, so its old value is the base of the commits
        have hbase' : some tip = headHash repo' := by
          rw [htarget, htip] at hroot
          rw [hroot, hsame htarget]
          exact (Prod.mk.inj hbase).2
        rw [hold, hnew, below_headHash_commitAll_iff, hbase']
        exact Or.inr (S.below_refl _)
      · exact absurd hroot hmoved
      · rw [hold, hnew]
        exact htips tip htip

end Built

def mainOnly : Remote (Chain (List Nat)) :=
  ⟨fun b => if b = "main" then some (.root [0] 0) else none, some "main"⟩

def freshClone : Repo (Chain (List Nat)) (List Nat) := ⟨"master", fun _ => none, fun _ => none, []⟩

def preparedClone : Repo (Chain (List Nat)) (List Nat) :=
  (syncToRemote (freeStore (List Nat)) true none mainOnly mainOnly "feature" freshClone).1

def featureClone : Repo (Chain (List Nat)) (List Nat) :=
  (ensureWriteBranch (freeStore (List Nat)) none "feature" preparedClone).1

-- Someone else creates `feature` with their own commit before the push: the command replaces it.
theorem pushCommand_overwrites_created_branch :
    let foreign : Chain (List Nat) := .child (.root [0] 0) [7] 7
    let ours : Chain (List Nat) := .child (.root [0] 0) [1] 1
    ensureWriteBranch (freeStore (List Nat)) none "feature" preparedClone =
        (featureClone, some ("main", some (.root [0] 0))) ∧
      pushCommand (commitAll (freeStore (List Nat)) [([1], 1)] featureClone)
        (Function.update mainOnly.refs "feature" (some foreign)) (some (.root [0] 0)) "main" =
        .send (some foreign) (some ours) ∧
      ¬ (freeStore (List Nat)).Below (some foreign) (some ours) := by
  refine ⟨rfl, by decide, by decide⟩

theorem pushCommand_keeps_absent_branch :
    pushCommand (commitAll (freeStore (List Nat)) [([1], 1)] featureClone) mainOnly.refs
        (some (.root [0] 0)) "main" = .send none (some (.child (.root [0] 0) [1] 1)) ∧
      ((mainOnly.refs "feature" = none ∧ (none : Option (Chain (List Nat))) = none) ∨
        (freeStore (List Nat)).Below none (some (.child (.root [0] 0) [1] 1))) := by
  have hsent : pushCommand (commitAll (freeStore (List Nat)) [([1], 1)] featureClone) mainOnly.refs
      (some (.root [0] 0)) "main" = .send none (some (.child (.root [0] 0) [1] 1)) := by decide
  refine ⟨hsent, ?_⟩
  exact (pushCommand_keeps_history_iff (freeStore (List Nat)) none "feature" preparedClone featureClone
    "main" (some (.root [0] 0)) rfl [([1], 1)] mainOnly.refs).mpr
    (Or.inr (Or.inr (fun tip htip => absurd htip (by simp [mainOnly])))) _ _ hsent

end GitopsReverser.Git
