import GitopsReverser.Git.Publication

/-!
# Outcomes — what a CommitRequest is told about the remote

A request is told `Committed` after a push, which `Publication` covers, or `AlreadyPresent` when
its window changed nothing. The second answer compares the window with the local worktree; it
speaks for the remote only if that worktree is a fresh checkout of the remote branch tip.
-/

namespace GitopsReverser.Git

open Reasoning Relation

variable {H T : Type} {S : ObjectStore H T}
  (env : Nat → World S) (cfg : LoopConfig)

/-! ## 1. Outcomes on a trace -/

/-- The files already hold the content of every event of the write: applying it changes nothing,
    and leaves no event out. -/
def holdsContent (world : World S) (pw : PendingWrite H) (files : T) : Bool :=
  decide (pw.events = []) || ((world.flush pw files).isUnchanged && !world.skips pw files)

/-- An `AlreadyPresent` outcome is true of the tree at the remote branch tip. -/
def Note.PresentOnRemote [EmptyCollection T] : Note H → Prop
  | .resolved _ result carried tip => result.outcome = some .alreadyPresent →
      ∃ pw tick, carried = some (pw, tick) ∧ holdsContent (env tick) pw (treeAt S tip) = true
  | _ => True

theorem resolve_present [EmptyCollection T] {l : Loop H T} (id : CommitRequestId)
    (result : FinalizeResult H)
    (carried : Option (PendingWrite H × Nat))
    (h : ∀ note ∈ l.w.trace, note.PresentOnRemote env)
    (hres : Note.PresentOnRemote env
      (.resolved id result carried ((l.w.contact env).remote.refs cfg.branch))) :
    ∀ note ∈ (resolveCommitRequest env cfg id result carried l).w.trace, note.PresentOnRemote env := by
  intro note hnote
  rcases mem_resolveCommitRequest_trace env cfg hnote with ⟨other, rfl⟩ | rfl | hold
  · trivial
  · exact hres
  · exact h note hold

theorem resolvePushed_present [EmptyCollection T] (writes : List (PendingWrite H)) (l : Loop H T)
    (h : ∀ note ∈ l.w.trace, note.PresentOnRemote env) :
    ∀ note ∈ (resolvePushedCommitRequests env cfg writes l).w.trace, note.PresentOnRemote env := by
  induction writes generalizing l with
  | nil => exact h
  | cons pw rest ih =>
    rw [resolvePushedCommitRequests]
    split
    · exact ih _ (resolve_present env cfg _ _ _ h (by simp [Note.PresentOnRemote]))
    · exact ih l h

/-! ## 2. A window without changes -/

theorem executePendingWrite_no_commit (pw pw' : PendingWrite H) (w w' : Worker H T) (created : Bool)
    (hkind : pw.kind = .commit) (hnone : pw'.commitSHA = none)
    (h : executePendingWrite env pw w = (w', some (pw', created))) :
    ((env (w'.tick - 1)).skips pw w.repo.worktree = false →
      holdsContent (env (w'.tick - 1)) pw w.repo.worktree = true) ∧
      headHash w'.repo = headHash w.repo := by
  unfold executePendingWrite at h
  simp only at h
  split at h
  · rename_i hempty
    obtain ⟨rfl, -⟩ := Prod.mk.inj h
    exact ⟨by simp [holdsContent, hempty.2], rfl⟩
  · split at h
    · simp at h
    · rename_i files hflush
      obtain ⟨rfl, -⟩ := Prod.mk.inj h
      refine ⟨fun happlied => ?_, rfl⟩
      -- applying a write takes one answer, the one it was applied under
      have htick : ({ w.next with repo := { w.repo with worktree := files } } : Worker H T).tick - 1 =
          w.tick := by
        simp [Worker.next]
      rw [htick] at happlied ⊢
      rw [holdsContent, hflush, happlied]
      simp [Flush.isUnchanged]
    · split at h
      · obtain ⟨rfl, hpw⟩ := Prod.mk.inj h
        obtain ⟨rfl, -⟩ := Prod.mk.inj (Option.some.inj hpw)
        -- a commit of a window always has its hash
        simp [hkind] at hnone
      · simp at h

variable [DecidableEq H] [EmptyCollection T]

/-- With nothing retained the window is compared with a fresh checkout, so "no change" is a
    statement about the tree of the local head. -/
theorem commitPendingWrites_no_change (pw applied : PendingWrite H) (w w' : Worker H T)
    (count : Nat) (hkind : pw.kind = .commit) (hnone : applied.commitSHA = none)
    (h : commitPendingWrites env cfg.branch [pw] false w = (w', [applied], some count))
    (happlied : (env (w'.tick - 1)).skips pw (treeAt S (headHash w'.repo)) = false) :
    holdsContent (env (w'.tick - 1)) pw (treeAt S (headHash w'.repo)) = true := by
  rcases commitPendingWrites_cases env cfg.branch [pw] false w (by simp) with
    ⟨-, hres, -⟩ | ⟨w₁, -, -, -, hclean, hres⟩
  · rw [h] at hres
    simp at hres
  · rw [h, executePendingWrites] at hres
    cases hexec : executePendingWrite env pw w₁ with
    | mk w₂ result =>
      rw [hexec] at hres
      cases result with
      | none => simp at hres
      | some entry =>
        obtain ⟨pw', created⟩ := entry
        simp only [executePendingWrites, Prod.mk.injEq, List.cons.injEq, and_true] at hres
        obtain ⟨rfl, rfl, -⟩ := hres
        obtain ⟨hhold, hhead⟩ :=
          executePendingWrite_no_commit env pw applied w₁ w' created hkind hnone hexec
        rw [hhead, ← hclean rfl] at happlied ⊢
        exact hhold happlied

/-! ## 3. The invariant -/

def PresentUnlessDoubtful (l : Loop H T) : Prop :=
  (∃ id, Note.doubtfulComparison id ∈ l.w.trace) ∨ ∀ note ∈ l.w.trace, note.PresentOnRemote env

theorem pushPending_present (l : Loop H T) (h : ∀ note ∈ l.w.trace, note.PresentOnRemote env) :
    ∀ note ∈ (pushPending env cfg l).w.trace, note.PresentOnRemote env := by
  unfold pushPending
  split
  · exact h
  · rename_i hne
    cases hpush : pushPendingCommits env cfg.branch l.pendingWrites l.w with
    | mk w rest =>
      obtain ⟨writes, ok⟩ := rest
      have hw : ∀ note ∈ w.trace, note.PresentOnRemote env := by
        obtain ⟨added, hadd, hreport⟩ := (pushPendingCommits_spec env cfg.branch hne hpush).1.onto
        intro note hnote
        rw [hadd, List.mem_append] at hnote
        -- the notes of replays speak of no outcome
        rcases hnote with hnote | hnote
        · rcases hreport note hnote with rfl | ⟨id, rfl⟩ <;> trivial
        · exact h note hnote
      cases ok with
      | false => exact hw
      | true =>
        intro note hnote
        rcases List.mem_cons.mp hnote with rfl | hnote
        · trivial
        · exact resolvePushed_present env cfg writes _ hw note hnote

theorem settle_present (l : Loop H T) (id : CommitRequestId) (pw applied : PendingWrite H)
    (w' : Worker H T) (count : Nat) (hkind : pw.kind = .commit)
    (hcommit : commitPendingWrites env cfg.branch [pw] l.hasPending l.w = (w', [applied], some count))
    (h : ∀ note ∈ w'.trace, note.PresentOnRemote env) :
    PresentUnlessDoubtful env (settleCommitRequest env cfg id pw applied (w'.tick - 1)
      { l with w := w', openWindow := none }) := by
  unfold settleCommitRequest
  split
  · rename_i hnone
    simp only
    split
    · left
      refine ⟨id, mem_trace_resolveCommitRequest env cfg ?_⟩
      simp [Worker.log]
    · rename_i hfree
      right
      apply resolve_present env cfg _ _ _ h
      -- a fresh comparison: nothing was retained, and the local head is the remote tip
      obtain ⟨⟨hretained, htip⟩, happlied⟩ : (l.pendingWrites = [] ∧
          (w'.contact env).remote.refs cfg.branch = headHash w'.repo) ∧
          (env (w'.tick - 1)).skips pw (treeAt S (headHash w'.repo)) = false := by
        simpa using hfree
      have hpend : l.hasPending = false := by simp [Loop.hasPending, hretained]
      rw [hpend] at hcommit
      intro _
      refine ⟨pw, w'.tick - 1, rfl, ?_⟩
      simp only [htip]
      exact commitPendingWrites_no_change env cfg pw applied l.w w' count hkind hnone hcommit happlied
  · exact Or.inr h

theorem present_step (l l' : Loop H T) (hstep : LoopStep env cfg l l')
    (h : PresentUnlessDoubtful env l) : PresentUnlessDoubtful env l' := by
  rcases h with ⟨id, hdoubtful⟩ | h
  · exact Or.inl ⟨id, mem_trace_step env cfg hstep hdoubtful⟩
  · cases hstep with
    | quiet hquiet =>
      right
      obtain ⟨notes, hnot, hreport⟩ := hquiet.trace
      intro note hnote
      rw [hnot, List.mem_append] at hnote
      rcases hnote with hnote | hnote
      · obtain ⟨channel, failed, rfl⟩ := hreport note hnote
        trivial
      · exact h note hnote
    | register req =>
      right
      obtain ⟨-, -, notes, hnot, hnew⟩ := handleAttachCommitRequest_frame env req l
      intro note hnote
      rw [hnot, List.mem_append] at hnote
      rcases hnote with hnote | hnote
      · rcases hnew note hnote with rfl | rfl <;> trivial
      · exact h note hnote
    | claim window p hopen hfree hp => exact Or.inr h
    | drop window cause hopen =>
      right
      unfold dropOpenWindow
      split
      · exact h
      · exact resolve_present env cfg _ _ _ h (by simp [Note.PresentOnRemote])
    | reject id hclaim hmem =>
      exact Or.inr (resolve_present env cfg _ _ _ h (by simp [Note.PresentOnRemote]))
    | attempt pw w' applied count hcommit | retain pw applied kept w' count hcommit hat hreq hsha =>
      right
      rw [commit_trace env cfg hcommit]
      exact h
    -- the only step that can report `AlreadyPresent`
    | settle window id pw applied w' count hopen hclaim hkind hreq hcommit =>
      apply settle_present env cfg l id pw applied w' count hkind hcommit
      rw [commit_trace env cfg hcommit]
      exact h
    | push => exact Or.inr (pushPending_present env cfg l h)

theorem run_present (repo : Repo H T) (remote : Remote H) (wakes : List Wake) :
    PresentUnlessDoubtful env (run env cfg repo remote wakes) := by
  apply run_invariant env cfg
  · exact Or.inr (by simp [initialLoop])
  · exact present_step env cfg

/-! ## 4. Recorded outcomes -/

def Note.reported : Note H → Option (CommitRequestId × H × Option H)
  | .resolved id result _ tip =>
    if result.outcome = some .committed then result.sha.map (fun sha => (id, sha, tip)) else none
  | _ => none

def Note.presence : Note H → Option (CommitRequestId × Bool)
  | .resolved id result (some (pw, tick)) tip =>
    if result.outcome = some .alreadyPresent then
      some (id, holdsContent (env tick) pw (treeAt S tip))
    else none
  | _ => none

def sampleRequest (name : String) : CommitRequestId := ⟨"default", name, "uid"⟩

def sampleAttach (name : String) : Wake :=
  .item (.attach ⟨sampleRequest name, "alice", .resolved, ⟨"target", "default"⟩, "", 0⟩)

def windowConfig : LoopConfig := ⟨"main", 5, 1000⟩

def onceFlush (_ : PendingWrite (Chain (List Nat))) (files : List Nat) : Flush (List Nat) :=
  if files.contains 1 then .unchanged files else .changed (files ++ [1])

def onceWorld : World (freeStore (List Nat)) := World.calm _ onceFlush

/-- No document of the window may be written. -/
def skippingWorld : World (freeStore (List Nat)) :=
  { World.calm _ (fun _ files => .unchanged files) with
    skips := fun _ _ => true, order_perm := order_refl }

def droppedPushEnv (_ : Nat) : World (freeStore (List Nat)) :=
  { onceWorld with push := some .dropped }

def abortedReportEnv (tick : Nat) : World (freeStore (List Nat)) :=
  if tick = 14 then
    { sampleWorld with others := .commitOn _ "main" [0, 9] 9, order_perm := order_refl }
  else if tick = 20 then
    { sampleWorld with getGitTarget := fun _ => .failed, order_perm := order_refl }
  else sampleWorld

def Note.doubtful : Note H → Bool
  | .doubtfulComparison _ => true
  | _ => false

end GitopsReverser.Git
