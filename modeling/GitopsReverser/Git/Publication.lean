import GitopsReverser.Git.LoopSteps

/-!
# Publication — cleared writes and reported commits are on the remote

The invariant of the loop is `Published` for the retained writes. It is lost in one way only:
a replay that stops after the clone has been reset to the remote leaves writes whose commits
are gone, and the next push, finding nothing to send, clears them.
-/

namespace GitopsReverser.Git

open Reasoning Relation

variable {H T : Type} {S : ObjectStore H T}
  (env : Nat → World S) (cfg : LoopConfig)

/-- What a note claims about the remote branch: cleared writes have been applied at or below its
    tip, and a commit reported to a CommitRequest is in its history. -/
def Note.OnRemote (S : ObjectStore H T) : Note H → Prop
  | .cleared writes tip => ∀ pw ∈ writes, S.Below pw.appliedAt tip
  | .resolved _ result _ tip => result.outcome = some .committed →
      ∃ sha, result.sha = some sha ∧ S.Below (some sha) tip
  | _ => True

structure PublicationInv (S : ObjectStore H T) (branch : Branch) (l : Loop H T) : Prop where
  published : l.pendingWrites ≠ [] → Published S branch l.pendingWrites l.w
  shaCurrent : ∀ pw ∈ l.pendingWrites, pw.ShaCurrent
  notes : ∀ note ∈ l.w.trace, note.OnRemote S

def PublishedUnlessAborted (S : ObjectStore H T) (branch : Branch) (l : Loop H T) : Prop :=
  Note.replayAborted ∈ l.w.trace ∨ PublicationInv S branch l

/-! ## 1. What resolving a request leaves alone -/

theorem resolveCommitRequest_trace (id : CommitRequestId) (result : FinalizeResult H)
    (carried : Option (PendingWrite H × Nat)) (l : Loop H T) :
    (resolveCommitRequest env cfg id result carried l).w.trace =
      expiredNotes id (env l.w.tick).now l.crOutcomes ++
        .resolved id result carried ((l.w.contact env).remote.refs cfg.branch) :: l.w.trace := by
  simp [resolveCommitRequest, Worker.contact]

variable {id : CommitRequestId} {note : Note H} {carried : Option (PendingWrite H × Nat)}
  {l : Loop H T}

theorem mem_expiredNotes {now : Int} {outcomes : List (CommitRequestId × OutcomeEntry H)}
    (h : note ∈ expiredNotes id now outcomes) : ∃ other, note = .expired other := by
  rw [expiredNotes, List.mem_map] at h
  obtain ⟨entry, -, rfl⟩ := h
  exact ⟨entry.1, rfl⟩

theorem mem_resolveCommitRequest_trace {result : FinalizeResult H}
    (h : note ∈ (resolveCommitRequest env cfg id result carried l).w.trace) :
    (∃ other, note = .expired other) ∨
      note = .resolved id result carried ((l.w.contact env).remote.refs cfg.branch) ∨
      note ∈ l.w.trace := by
  rw [resolveCommitRequest_trace, List.mem_append, List.mem_cons] at h
  rcases h with h | h | h
  · exact Or.inl (mem_expiredNotes h)
  · exact Or.inr (Or.inl h)
  · exact Or.inr (Or.inr h)

theorem mem_trace_resolveCommitRequest {result : FinalizeResult H}
    (h : note ∈ l.w.trace) : note ∈ (resolveCommitRequest env cfg id result carried l).w.trace := by
  rw [resolveCommitRequest_trace]
  exact List.mem_append_right _ (List.mem_cons_of_mem _ h)

theorem contact_advances (w : Worker H T) : S.Advances w.remote.refs (w.contact env).remote.refs :=
  (env w.tick).others.advances w.remote

/-! ## 2. The steps -/

section

variable (h : PublicationInv S cfg.branch l)

include h

theorem PublicationInv.resolve (id : CommitRequestId)
    (result : FinalizeResult H) (carried : Option (PendingWrite H × Nat)) (hres : Note.OnRemote S
      (.resolved id result carried ((l.w.contact env).remote.refs cfg.branch))) :
    PublicationInv S cfg.branch (resolveCommitRequest env cfg id result carried l) where
  published hne := ⟨(h.published hne).head, (h.published hne).below⟩
  shaCurrent := h.shaCurrent
  notes := by
    intro note hnote
    rcases mem_resolveCommitRequest_trace env cfg hnote with ⟨other, rfl⟩ | rfl | hold
    · trivial
    · exact hres
    · exact h.notes note hold

theorem PublicationInv.committed [DecidableEq H] [EmptyCollection T] (pw : PendingWrite H)
    (w' : Worker H T) (applied : List (PendingWrite H)) (count : Option Nat)
    (hcommit : commitPendingWrites env cfg.branch [pw] l.hasPending l.w = (w', applied, count)) :
    PublicationInv S cfg.branch { l with w := w' } := by
  obtain ⟨htrace, -, hkept, -⟩ := commitPendingWrites_spec env cfg.branch (by simp) hcommit
  refine ⟨fun hne => ?_, h.shaCurrent, ?_⟩
  · have hpublish := h.published hne
    obtain ⟨hhead, hbelow⟩ := hkept (by simpa [Loop.hasPending] using hne) hpublish.head
    exact ⟨hhead, fun b hb => S.below_trans (hpublish.below b hb) hbelow⟩
  · simp only [htrace]
    exact h.notes

theorem PublicationInv.retained [DecidableEq H] [EmptyCollection T]
    (pw applied kept : PendingWrite H) (w' : Worker H T) (count : Nat)
    (hcommit : commitPendingWrites env cfg.branch [pw] l.hasPending l.w =
      (w', [applied], some count)) (hat : kept.appliedAt = applied.appliedAt)
    (hsha : kept.commitSHA = applied.commitSHA ∨ kept.commitSHA = none) :
    PublicationInv S cfg.branch { l with w := w', pendingWrites := l.pendingWrites ++ [kept] } := by
  have hinv := h.committed env cfg pw w' _ _ hcommit
  obtain ⟨-, -, -, hok⟩ := commitPendingWrites_spec env cfg.branch (by simp) hcommit
  obtain ⟨hhead, happlied⟩ := hok (by simp)
  obtain ⟨hbelow, hcur⟩ := happlied applied (by simp)
  -- the kept copy has the hash of the commit or none at all
  have hkept : kept.ShaCurrent := by
    intro sha hkeeps
    rw [hat]
    rcases hsha with hsame | hnone
    · exact hcur sha (hsame ▸ hkeeps)
    · rw [hnone] at hkeeps
      exact absurd hkeeps (by simp)
  refine ⟨fun _ => ⟨hhead, ?_⟩, ?_, hinv.notes⟩
  · intro b hb
    rcases List.mem_append.mp hb with hb | hb
    · exact (hinv.published (List.ne_nil_of_mem hb)).below b hb
    · rw [List.mem_singleton.mp hb, hat]
      exact hbelow
  · intro b hb
    rcases List.mem_append.mp hb with hb | hb
    · exact h.shaCurrent b hb
    · rw [List.mem_singleton.mp hb]
      exact hkept

end

theorem forall₂_refreshed_shaCurrent {a b : List (PendingWrite H)}
    (h : List.Forall₂ Refreshed a b) (ha : ∀ pw ∈ a, pw.ShaCurrent) : ∀ pw ∈ b, pw.ShaCurrent := by
  induction h with
  | nil => simp
  | cons hab _ ih =>
    intro pw hpw
    rcases List.mem_cons.mp hpw with rfl | hpw
    · exact hab.shaCurrent (ha _ (by simp))
    · exact ih (fun p hp => ha p (List.mem_cons_of_mem _ hp)) pw hpw

theorem mem_trace_resolvePushedCommitRequests (writes : List (PendingWrite H)) (l : Loop H T)
    (h : note ∈ l.w.trace) :
    note ∈ (resolvePushedCommitRequests env cfg writes l).w.trace := by
  induction writes generalizing l with
  | nil => exact h
  | cons pw rest ih =>
    rw [resolvePushedCommitRequests]
    split
    · exact ih _ (mem_trace_resolveCommitRequest env cfg h)
    · exact ih _ h

/-- Resolving the requests of pushed writes reports only commits that are on the remote, which can
    only have moved forward in the meantime. -/
theorem resolvePushedCommitRequests_inv (writes : List (PendingWrite H)) (l : Loop H T)
    (h : PublicationInv S cfg.branch l)
    (hpush : ∀ pw ∈ writes, pw.ShaCurrent ∧ S.Below pw.appliedAt (l.w.remote.refs cfg.branch)) :
    PublicationInv S cfg.branch (resolvePushedCommitRequests env cfg writes l) ∧
      S.Advances l.w.remote.refs (resolvePushedCommitRequests env cfg writes l).w.remote.refs := by
  -- on the writes; between two outcomes other writers may advance the remote
  induction writes generalizing l with
  | nil => exact ⟨h, S.advances_refl _⟩
  | cons pw rest ih =>
    rw [resolvePushedCommitRequests]
    have hrest : ∀ b ∈ rest, b.ShaCurrent ∧ S.Below b.appliedAt (l.w.remote.refs cfg.branch) :=
      fun b hb => hpush b (List.mem_cons_of_mem _ hb)
    split
    · rename_i id sha hreq hsha
      obtain ⟨hcur, hbelow⟩ := hpush pw (by simp)
      rw [hcur sha hsha] at hbelow
      have hadvance := contact_advances env l.w
      have hres := h.resolve env cfg id ⟨some .committed, some sha, cfg.branch, none⟩ none
        (fun _ => ⟨sha, rfl, S.below_trans hbelow (hadvance cfg.branch)⟩)
      obtain ⟨hinv, hmore⟩ := ih _ hres
        (fun b hb => ⟨(hrest b hb).1, S.below_trans (hrest b hb).2 (hadvance cfg.branch)⟩)
      exact ⟨hinv, S.advances_trans hadvance hmore⟩
    · exact ih l h hrest

variable [DecidableEq H] [EmptyCollection T]

theorem mem_trace_pushPending (l : Loop H T) (h : note ∈ l.w.trace) :
    note ∈ (pushPending env cfg l).w.trace := by
  unfold pushPending
  split
  · exact h
  · rename_i hne
    split
    · rename_i w writes hpush
      exact (pushPendingCommits_spec env cfg.branch hne hpush).1.onto.mem h
    · rename_i w writes hpush
      have hw := (pushPendingCommits_spec env cfg.branch hne hpush).1.onto.mem h
      exact List.mem_cons_of_mem _ (mem_trace_resolvePushedCommitRequests env cfg writes _ hw)

theorem pushPending_inv (l : Loop H T) (h : PublicationInv S cfg.branch l) :
    PublishedUnlessAborted S cfg.branch (pushPending env cfg l) := by
  unfold pushPending
  split
  · exact Or.inr ⟨h.published, h.shaCurrent, h.notes⟩
  · rename_i hne
    cases hpush : pushPendingCommits env cfg.branch l.pendingWrites l.w with
    | mk w rest =>
      obtain ⟨writes, ok⟩ := rest
      obtain ⟨hreport, hfinal⟩ := pushPendingCommits_spec env cfg.branch hne hpush
      have hcur := forall₂_refreshed_shaCurrent hreport.refreshed h.shaCurrent
      -- a replay adds notes of its own, which claim nothing about the remote
      have hnot : ∀ note ∈ w.trace, note.OnRemote S := by
        obtain ⟨added, hadd, hreplay⟩ := hreport.onto
        intro note hnote
        rw [hadd, List.mem_append] at hnote
        rcases hnote with hnote | hnote
        · rcases hreplay note hnote with rfl | ⟨id, rfl⟩ <;> trivial
        · exact h.notes note hnote
      rcases hfinal (h.published hne) with habort | ⟨hpublish, hbelow⟩
      -- the note of the abort survives the resolutions
      · left
        cases ok with
        | false => exact habort
        | true =>
          exact List.mem_cons_of_mem _ (mem_trace_resolvePushedCommitRequests env cfg writes _ habort)
      · right
        have hpushed : PublicationInv S cfg.branch { l with w := w, pendingWrites := writes } :=
          ⟨fun _ => hpublish, hcur, hnot⟩
        cases ok with
        | false => exact ⟨hpushed.published, hpushed.shaCurrent, hpushed.notes⟩
        | true =>
          -- success: every write is below the local head, which is below the remote tip
          have htip : ∀ pw ∈ writes, S.Below pw.appliedAt (w.remote.refs cfg.branch) :=
            fun pw hpw => S.below_trans (hpublish.below pw hpw) (hbelow rfl)
          obtain ⟨hinv, hadvance⟩ := resolvePushedCommitRequests_inv env cfg writes
            { l with w := w, pendingWrites := writes } hpushed
            (fun pw hpw => ⟨hcur pw hpw, htip pw hpw⟩)
          refine ⟨fun hnil => absurd rfl hnil, by simp, ?_⟩
          intro note hnote
          rcases List.mem_cons.mp hnote with rfl | hnote
          · intro pw hpw
            exact S.below_trans (S.below_trans (htip pw hpw) (hadvance cfg.branch))
              (contact_advances env _ cfg.branch)
          · exact hinv.notes note hnote

theorem mem_trace_step {l l' : Loop H T} (hstep : LoopStep env cfg l l')
    (h : note ∈ l.w.trace) : note ∈ l'.w.trace := by
  cases hstep with
  | quiet hquiet =>
    obtain ⟨notes, hnote, -⟩ := hquiet.trace
    rw [hnote]
    exact List.mem_append_right _ h
  | register req =>
    obtain ⟨-, -, notes, hnote, -⟩ := handleAttachCommitRequest_frame env req l
    rw [hnote]
    exact List.mem_append_right _ h
  | claim window p hopen hfree hp => exact h
  | drop window cause hopen =>
    unfold dropOpenWindow
    split
    · exact h
    · exact mem_trace_resolveCommitRequest env cfg h
  | reject id hclaim hmem => exact mem_trace_resolveCommitRequest env cfg h
  | attempt pw w' applied count hcommit | retain pw applied kept w' count hcommit hat hreq hsha =>
    rw [commit_trace env cfg hcommit]
    exact h
  | settle window id pw applied w' count hopen hclaim hkind hreq hcommit =>
    have htrace := commit_trace env cfg hcommit
    unfold settleCommitRequest
    split
    · apply mem_trace_resolveCommitRequest env cfg
      simp only
      split
      · exact List.mem_cons_of_mem _ (by rw [htrace]; exact h)
      · rw [htrace]
        exact h
    · simp only [htrace]
      exact h
  | push => exact mem_trace_pushPending env cfg l h

theorem publication_step (l l' : Loop H T) (hstep : LoopStep env cfg l l')
    (h : PublishedUnlessAborted S cfg.branch l) : PublishedUnlessAborted S cfg.branch l' := by
  -- an abort stays in the trace; from here the invariant holds
  rcases h with habort | h
  · exact Or.inl (mem_trace_step env cfg hstep habort)
  · cases hstep with
    | quiet hquiet =>
      right
      obtain ⟨notes, hnot, hreport⟩ := hquiet.trace
      refine ⟨?_, by rw [hquiet.pendingWrites]; exact h.shaCurrent, ?_⟩
      · rw [hquiet.pendingWrites]
        intro hne
        refine ⟨by rw [hquiet.repo]; exact (h.published hne).head, ?_⟩
        rw [hquiet.repo]
        exact (h.published hne).below
      · intro note hnote
        rw [hnot, List.mem_append] at hnote
        rcases hnote with hnote | hnote
        · obtain ⟨channel, failed, rfl⟩ := hreport note hnote
          trivial
        · exact h.notes note hnote
    | register req =>
      right
      obtain ⟨hrepo, hwrite, notes, hnot, hnew⟩ := handleAttachCommitRequest_frame env req l
      refine ⟨?_, by rw [hwrite]; exact h.shaCurrent, ?_⟩
      · rw [hwrite]
        intro hne
        refine ⟨by rw [hrepo]; exact (h.published hne).head, ?_⟩
        rw [hrepo]
        exact (h.published hne).below
      · intro note hnote
        rw [hnot, List.mem_append] at hnote
        rcases hnote with hnote | hnote
        · rcases hnew note hnote with rfl | rfl <;> trivial
        · exact h.notes note hnote
    | claim window p hopen hfree hp => exact Or.inr ⟨h.published, h.shaCurrent, h.notes⟩
    -- a dropped window reports a failure, never a commit
    | drop window cause hopen =>
      right
      have hclose : PublicationInv S cfg.branch { l with openWindow := none, windowBytes := 0 } :=
        ⟨h.published, h.shaCurrent, h.notes⟩
      unfold dropOpenWindow
      split
      · exact hclose
      · exact hclose.resolve env cfg _ _ _ (by simp [Note.OnRemote])
    | reject id hclaim hmem => exact Or.inr (h.resolve env cfg _ _ _ (by simp [Note.OnRemote]))
    | attempt pw w' applied count hcommit => exact Or.inr (h.committed env cfg pw w' _ _ hcommit)
    | retain pw applied kept w' count hcommit hat hreq hsha =>
      exact Or.inr (h.retained env cfg pw applied kept w' count hcommit hat hsha)
    | settle window id pw applied w' count hopen hclaim hkind hreq hcommit =>
      right
      unfold settleCommitRequest
      split
      -- nothing to change: the write is retained without its request
      · have hinv := h.retained env cfg pw applied { applied with commitRequest := none } w' count
          hcommit rfl (Or.inl rfl)
        apply PublicationInv.resolve env cfg _ _ _ _ (by simp [Note.OnRemote])
        refine ⟨fun hne => ?_, hinv.shaCurrent, ?_⟩
        · have hpublish := hinv.published hne
          simp only
          split <;> exact ⟨hpublish.head, hpublish.below⟩
        · simp only
          split
          · intro note hnote
            rcases List.mem_cons.mp hnote with rfl | hnote
            · trivial
            · exact hinv.notes note hnote
          · exact hinv.notes
      -- a commit: the request rides on it
      · have hinv := h.retained env cfg pw applied applied w' count hcommit rfl (Or.inl rfl)
        exact ⟨hinv.published, hinv.shaCurrent, hinv.notes⟩
    | push => exact pushPending_inv env cfg l h

theorem run_published (repo : Repo H T) (remote : Remote H) (wakes : List Wake) :
    PublishedUnlessAborted S cfg.branch (run env cfg repo remote wakes) := by
  apply run_invariant env cfg
  · exact Or.inr ⟨fun h => absurd rfl h, by simp [initialLoop], by simp [initialLoop]⟩
  · exact publication_step env cfg

/-! ## 3. Cleared writes -/

/-- Publication safety: in a run in which no replay is aborted, whenever `pendingWrites` is
    emptied every write in it has been applied at or below the remote branch tip. -/
theorem run_cleared_writes_on_remote (repo : Repo H T) (remote : Remote H) (wakes : List Wake)
    (hreplays : Note.replayAborted ∉ (run env cfg repo remote wakes).w.trace)
    (writes : List (PendingWrite H)) (tip : Option H)
    (hcleared : Note.cleared writes tip ∈ (run env cfg repo remote wakes).w.trace) :
    ∀ pw ∈ writes, S.Below pw.appliedAt tip := by
  rcases run_published env cfg repo remote wakes with haborted | hinv
  · exact absurd haborted hreplays
  · exact hinv.notes _ hcleared

def Note.clearing : Note H → Option (List (Option H) × Option H)
  | .cleared writes tip => some (writes.map (·.appliedAt), tip)
  | _ => none

def sampleEvent (operation : String) : Event :=
  ⟨"alice", .resolved, ⟨"target", "default"⟩, ['a'], ['f'], operation, none⟩

def sampleWrite (operation : String) : Wake :=
  .item (.write ⟨[sampleEvent operation], "", ⟨"", ""⟩, false⟩)

def sampleFlush (pw : PendingWrite (Chain (List Nat))) (files : List Nat) : Flush (List Nat) :=
  if pw.events.any (fun e => decide (e.operation = "noop")) then .unchanged files
  else .changed (files ++ [1])

def sampleWorld : World (freeStore (List Nat)) := World.calm _ sampleFlush

def sampleConfig : LoopConfig := ⟨"main", 0, 1000⟩

/-- Someone commits to `main` just before the push. -/
def conflictEnv (tick : Nat) : World (freeStore (List Nat)) :=
  if tick = 10 then { sampleWorld with others := .commitOn _ "main" [0, 9] 9 } else sampleWorld

/-- The re-read of the GitTarget that the replay needs fails. -/
def abortedReplayEnv (tick : Nat) : World (freeStore (List Nat)) :=
  if tick = 16 then { sampleWorld with getGitTarget := fun _ => .failed } else conflictEnv tick

-- The commit of the first write is dropped by the reset; the second push finds nothing to send.
theorem abortedReplay_clears_lost_write :
    let ours : Chain (List Nat) := .child (.root [0] 0) [0, 1] 1
    let theirs : Chain (List Nat) := .child (.root [0] 0) [0, 9] 9
    (run abortedReplayEnv sampleConfig freshClone mainOnly
        [sampleWrite "set", sampleWrite "noop"]).w.trace.filterMap Note.clearing =
      [([some ours, some theirs], some theirs)] ∧
    ¬ (freeStore (List Nat)).Below (some ours) (some theirs) := by
  decide

-- The write is replayed on what the other writer left, and pushed.
theorem replayed_write_published :
    let final := run conflictEnv sampleConfig freshClone mainOnly [sampleWrite "set"]
    let replayed : Chain (List Nat) := .child (.child (.root [0] 0) [0, 9] 9) [0, 9, 1] 1
    ∃ writes, Note.cleared writes (some replayed) ∈ final.w.trace ∧
      writes.map PendingWrite.appliedAt = [some replayed] ∧
      ∀ pw ∈ writes, (freeStore (List Nat)).Below pw.appliedAt (some replayed) := by
  intro final replayed
  have hview : final.w.trace.filterMap Note.clearing = [([some replayed], some replayed)] := by
    decide
  obtain ⟨note, hnote, hclearing⟩ := List.mem_filterMap.mp (hview ▸ List.mem_singleton_self _)
  cases note with
  | cleared writes tip =>
    obtain ⟨hwrites, rfl⟩ := Prod.mk.inj (Option.some.inj hclearing)
    exact ⟨writes, hnote, hwrites, run_cleared_writes_on_remote _ _ _ _ _ (by decide) writes _ hnote⟩
  | _ => simp [Note.clearing] at hclearing

end GitopsReverser.Git
