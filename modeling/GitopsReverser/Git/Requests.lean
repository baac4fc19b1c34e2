import GitopsReverser.Git.Outcomes

/-!
# Requests — where a CommitRequest is

A registered request waits in `pendingCRs`, then rides a retained write, then has an outcome that
expires. The invariant is a conservation law: registrations are the places a request is in, plus
its recorded outcome, plus the outcomes that have expired.
-/

namespace GitopsReverser.Git

open Reasoning Relation

variable {H T : Type} {S : ObjectStore H T}
  (env : Nat → World S) (cfg : LoopConfig)

/-! ## 1. Counting -/

def waiting (id : CommitRequestId) (crs : List PendingCommitRequest) : Nat :=
  crs.countP (fun p => p.id = id)

def riding (id : CommitRequestId) (writes : List (PendingWrite H)) : Nat :=
  writes.countP (fun pw => pw.commitRequest = some id)

def recorded (id : CommitRequestId) (outcomes : List (CommitRequestId × OutcomeEntry H)) : Nat :=
  outcomes.countP (fun entry => entry.1 = id)

def Note.registers (id : CommitRequestId) : Note H → Bool
  | .registered other => decide (other = id)
  | _ => false

def Note.resolves (id : CommitRequestId) : Note H → Bool
  | .resolved other _ _ _ => decide (other = id)
  | _ => false

def Note.expires (id : CommitRequestId) : Note H → Bool
  | .expired other => decide (other = id)
  | _ => false

section
variable (id other : CommitRequestId) (result : FinalizeResult H)
  (carried : Option (PendingWrite H × Nat)) (tip : Option H)

@[simp] theorem registers_registered :
    (Note.registered other : Note H).registers id = decide (other = id) := rfl

@[simp] theorem registers_resolved :
    (Note.resolved other result carried tip).registers id = false := rfl

@[simp] theorem resolves_registered : (Note.registered other : Note H).resolves id = false := rfl

@[simp] theorem resolves_resolved :
    (Note.resolved other result carried tip).resolves id = decide (other = id) := rfl

@[simp] theorem expires_registered : (Note.registered other : Note H).expires id = false := rfl

@[simp] theorem expires_resolved : (Note.resolved other result carried tip).expires id = false := rfl

end

def registrations (id : CommitRequestId) (trace : List (Note H)) : Nat :=
  trace.countP (·.registers id)

def resolutions (id : CommitRequestId) (trace : List (Note H)) : Nat :=
  trace.countP (·.resolves id)

def expiries (id : CommitRequestId) (trace : List (Note H)) : Nat :=
  trace.countP (·.expires id)

def Note.Uncounted (note : Note H) : Prop :=
  ∀ id, note.registers id = false ∧ note.resolves id = false ∧ note.expires id = false

theorem counts_uncounted_append (notes trace : List (Note H)) (id : CommitRequestId)
    (h : ∀ note ∈ notes, note.Uncounted) :
    registrations id (notes ++ trace) = registrations id trace ∧
      resolutions id (notes ++ trace) = resolutions id trace ∧
      expiries id (notes ++ trace) = expiries id trace := by
  have hregister : notes.countP (·.registers id) = 0 :=
    List.countP_eq_zero.mpr (fun note hnote => by simp [(h note hnote id).1])
  have hres : notes.countP (·.resolves id) = 0 :=
    List.countP_eq_zero.mpr (fun note hnote => by simp [(h note hnote id).2.1])
  have hexpire : notes.countP (·.expires id) = 0 :=
    List.countP_eq_zero.mpr (fun note hnote => by simp [(h note hnote id).2.2])
  simp [registrations, resolutions, expiries, List.countP_append, hregister, hres, hexpire]

variable {id : CommitRequestId} {writes writes' : List (PendingWrite H)} {l : Loop H T}

theorem waiting_pos_iff {crs : List PendingCommitRequest} :
    0 < waiting id crs ↔ ∃ p ∈ crs, p.id = id := by
  simp [waiting, List.countP_pos_iff]

theorem recorded_pos_iff {outcomes : List (CommitRequestId × OutcomeEntry H)} :
    0 < recorded id outcomes ↔ hasCommitRequestOutcome id outcomes = true := by
  simp [recorded, hasCommitRequestOutcome, List.countP_pos_iff]

@[simp] theorem waiting_removePending_self (id : CommitRequestId)
    (crs : List PendingCommitRequest) : waiting id (removePending id crs) = 0 := by
  simp [waiting, removePending, List.countP_eq_zero]

theorem waiting_removePending_of_ne {id other : CommitRequestId} (hne : other ≠ id)
    (crs : List PendingCommitRequest) : waiting other (removePending id crs) = waiting other crs := by
  rw [waiting, removePending, List.countP_filter]
  apply List.countP_congr
  intro p _
  have : p.id = other → p.id ≠ id := fun h => h ▸ hne
  simpa using this

theorem waiting_markAttached (id other : CommitRequestId) (crs : List PendingCommitRequest) :
    waiting other (markAttached id crs) = waiting other crs := by
  rw [waiting, markAttached, List.countP_map]
  apply List.countP_congr
  intro p _
  simp only [Function.comp]
  split <;> simp

theorem riding_append (id : CommitRequestId) (a b : List (PendingWrite H)) :
    riding id (a ++ b) = riding id a + riding id b := List.countP_append ..

theorem riding_cons (id : CommitRequestId) (pw : PendingWrite H) (rest : List (PendingWrite H)) :
    riding id (pw :: rest) = riding id rest + if pw.commitRequest = some id then 1 else 0 := by
  simp [riding, List.countP_cons]

theorem riding_refreshed {a b : List (PendingWrite H)} (h : List.Forall₂ Refreshed a b)
    (id : CommitRequestId) : riding id b = riding id a := by
  induction h with
  | nil => rfl
  | cons hab _ ih => rw [riding_cons, riding_cons, ih, hab.commitRequest]

theorem counts_expiredNotes (id other : CommitRequestId) (now : Int)
    (outcomes : List (CommitRequestId × OutcomeEntry H)) :
    registrations other (expiredNotes id now outcomes) = 0 ∧
      resolutions other (expiredNotes id now outcomes) = 0 := by
  constructor <;>
  · refine List.countP_eq_zero.mpr (fun note hnote => ?_)
    obtain ⟨expired, rfl⟩ := mem_expiredNotes hnote
    simp [Note.registers, Note.resolves]

theorem expiries_expiredNotes_self (id : CommitRequestId) (now : Int)
    (outcomes : List (CommitRequestId × OutcomeEntry H)) :
    expiries id (expiredNotes id now outcomes) = 0 := by
  refine List.countP_eq_zero.mpr (fun note hnote => ?_)
  simp only [expiredNotes, List.mem_map, List.mem_filter] at hnote
  obtain ⟨entry, ⟨⟨-, hne⟩, -⟩, rfl⟩ := hnote
  simpa [Note.expires] using hne

theorem recorded_record_self (id : CommitRequestId) (result : FinalizeResult H) (now : Int)
    (outcomes : List (CommitRequestId × OutcomeEntry H)) :
    recorded id (recordCommitRequestOutcome id result now outcomes) = 1 := by
  have hfree : outcomeExpired now (id, (⟨result, now⟩ : OutcomeEntry H)) = false := by
    simp [outcomeExpired, commitRequestOutcomeTTL]
  have hother : ((outcomes.filter (fun entry => entry.1 ≠ id)).filter
      (fun entry => !outcomeExpired now entry)).countP (fun entry => entry.1 = id) = 0 := by
    simp +contextual [List.countP_eq_zero]
  rw [recorded, recordCommitRequestOutcome, List.filter_cons_of_pos (by simp [hfree]),
    List.countP_cons_of_pos (by simp), hother]

theorem recorded_record_of_ne {id other : CommitRequestId} (hne : other ≠ id)
    (result : FinalizeResult H) (now : Int) (outcomes : List (CommitRequestId × OutcomeEntry H)) :
    recorded other (recordCommitRequestOutcome id result now outcomes) +
      expiries other (expiredNotes id now outcomes) = recorded other outcomes := by
  have hself : recorded other (recordCommitRequestOutcome id result now outcomes) =
      ((outcomes.filter (fun entry => entry.1 ≠ id)).filter
        (fun entry => !outcomeExpired now entry)).countP (fun entry => entry.1 = other) := by
    rw [recorded, recordCommitRequestOutcome, List.filter_cons]
    split
    · rw [List.countP_cons_of_neg (by simpa using Ne.symm hne)]
    · rfl
  rw [hself]
  clear hself
  -- entry by entry: it has the recorded id and is replaced, it expires, or it is kept
  induction outcomes with
  | nil => rfl
  | cons entry rest ih =>
    by_cases hid : entry.1 = id
    · have hother : entry.1 ≠ other := fun h => hne (h ▸ hid)
      simpa [expiredNotes, recorded, hid, Ne.symm hne] using ih
    · cases hexpire : outcomeExpired now entry <;> by_cases hother : entry.1 = other <;>
        simp [expiredNotes, recorded, expiries, hid, hexpire, hother, Note.expires, hne] at ih ⊢ <;>
        omega

/-! ## 2. The conservation law -/

/-- The bookkeeping of a loop whose retained writes are `writes`. -/
structure Tracked (writes : List (PendingWrite H)) (l : Loop H T) : Prop where
  once : ∀ id, waiting id l.pendingCRs + riding id writes + recorded id l.crOutcomes ≤ 1
  registered : ∀ id, registrations id l.w.trace =
    waiting id l.pendingCRs + riding id writes + recorded id l.crOutcomes + expiries id l.w.trace
  resolved : ∀ id, resolutions id l.w.trace = recorded id l.crOutcomes + expiries id l.w.trace
  claimed : ∀ id, l.claimed = some id → 0 < waiting id l.pendingCRs
  carries : ∀ pw ∈ writes, CarriesCommit pw

/-- Either a request was registered while it rode a write, or a replay emptied a write that
    carried one, or the bookkeeping is right. -/
def TrackedUnlessLost (l : Loop H T) : Prop :=
  (∃ id, Note.reattached id ∈ l.w.trace ∨ Note.replayedEmpty id ∈ l.w.trace) ∨ Tracked l.pendingWrites l

theorem Tracked.congr {l l' : Loop H T} (h : Tracked writes l) (hcrs : l'.pendingCRs = l.pendingCRs)
    (hout : l'.crOutcomes = l.crOutcomes) (hride : ∀ id, riding id writes' = riding id writes)
    (hcarry : ∀ pw ∈ writes', CarriesCommit pw)
    (hclaim : ∀ id, l'.claimed = some id → l.claimed = some id)
    (htrace : ∃ notes, l'.w.trace = notes ++ l.w.trace ∧ ∀ note ∈ notes, note.Uncounted) :
    Tracked writes' l' := by
  obtain ⟨notes, hnote, huncounted⟩ := htrace
  have hcount := fun id => counts_uncounted_append notes l.w.trace id huncounted
  refine ⟨?_, ?_, ?_, ?_, hcarry⟩
  · intro id
    rw [hcrs, hout, hride]
    exact h.once id
  · intro id
    rw [hnote, (hcount id).1, (hcount id).2.2, hcrs, hout, hride]
    exact h.registered id
  · intro id
    rw [hnote, (hcount id).2.1, (hcount id).2.2, hout]
    exact h.resolved id
  · intro id hid
    rw [hcrs]
    exact h.claimed id (hclaim id hid)

theorem Tracked.resolve (h : Tracked writes l) (id : CommitRequestId) (result : FinalizeResult H)
    (carried : Option (PendingWrite H × Nat)) (hfree : l.claimed ≠ some id)
    (hhere : 0 < waiting id l.pendingCRs + riding id writes) (hgone : riding id writes' = 0)
    (hother : ∀ other, other ≠ id → riding other writes' = riding other writes)
    (hcarry : ∀ pw ∈ writes', CarriesCommit pw) :
    Tracked writes' (resolveCommitRequest env cfg id result carried l) := by
  -- the trace gains one outcome and the expiries of others
  have hcount : ∀ other, registrations other (resolveCommitRequest env cfg id result carried l).w.trace =
        registrations other l.w.trace ∧
      resolutions other (resolveCommitRequest env cfg id result carried l).w.trace =
        resolutions other l.w.trace + (if other = id then 1 else 0) ∧
      expiries other (resolveCommitRequest env cfg id result carried l).w.trace =
        expiries other (expiredNotes id (env l.w.tick).now l.crOutcomes) +
          expiries other l.w.trace := by
    intro other
    obtain ⟨hregister, hres⟩ := counts_expiredNotes (H := H) id other (env l.w.tick).now l.crOutcomes
    rw [resolveCommitRequest_trace]
    simp only [registrations, resolutions, expiries, List.countP_append, List.countP_cons] at *
    rw [hregister, hres]
    have hflip : (id = other) = (other = id) := propext eq_comm
    simp [hflip]
  have hself : recorded id (resolveCommitRequest env cfg id result carried l).crOutcomes = 1 :=
    recorded_record_self id result _ l.crOutcomes
  have hwait : waiting id (resolveCommitRequest env cfg id result carried l).pendingCRs = 0 :=
    waiting_removePending_self id l.pendingCRs
  have hexpire := expiries_expiredNotes_self (H := H) id (env l.w.tick).now l.crOutcomes
  have hrest : ∀ other, other ≠ id →
      waiting other (resolveCommitRequest env cfg id result carried l).pendingCRs =
        waiting other l.pendingCRs ∧
      recorded other (resolveCommitRequest env cfg id result carried l).crOutcomes +
        expiries other (expiredNotes id (env l.w.tick).now l.crOutcomes) =
        recorded other l.crOutcomes :=
    fun other hne => ⟨waiting_removePending_of_ne hne l.pendingCRs,
      recorded_record_of_ne hne result _ l.crOutcomes⟩
  refine ⟨?_, ?_, ?_, ?_, hcarry⟩
  · intro other
    -- the resolved id moves from its place to the outcomes, the others stay
    by_cases hne : other = id
    · subst hne
      omega
    · obtain ⟨hw, hr⟩ := hrest other hne
      have := h.once other
      rw [hw, hother other hne]
      omega
  · intro other
    obtain ⟨hregister, -, hexpiry⟩ := hcount other
    have honce := h.once other
    have hlaw := h.registered other
    by_cases hne : other = id
    · subst hne
      omega
    · obtain ⟨hw, hr⟩ := hrest other hne
      rw [hw, hother other hne]
      omega
  · intro other
    obtain ⟨-, hres, hexpiry⟩ := hcount other
    have honce := h.once other
    have hlaw := h.resolved other
    by_cases hne : other = id
    · subst hne
      rw [if_pos rfl] at hres
      omega
    · obtain ⟨-, hr⟩ := hrest other hne
      rw [if_neg hne] at hres
      omega
  · intro other hclaim
    -- the window keeps its claim, which is not the resolved id
    have hold : l.claimed = some other := hclaim
    have hne : other ≠ id := fun heq => hfree (heq ▸ hold)
    rw [(hrest other hne).1]
    exact h.claimed other hold

/-! ## 3. The steps -/

theorem Tracked.register (h : Tracked l.pendingWrites l) (req : AttachCommitRequest) :
    TrackedUnlessLost (handleAttachCommitRequest env req l) := by
  unfold handleAttachCommitRequest
  split
  · exact Or.inr h
  · rename_i hrec
    split
    · exact Or.inr h
    · rename_i hwaits
      simp only
      split
      -- registered again while it rides: the law is given up
      · left
        exact ⟨req.id, Or.inl List.mem_cons_self⟩
      · rename_i hride
        right
        -- the id is in no store, so the new entry is its only place
        have hnone : waiting req.id l.pendingCRs = 0 ∧ riding req.id l.pendingWrites = 0 ∧
            recorded req.id l.crOutcomes = 0 := by
          refine ⟨?_, ?_, ?_⟩
          · simpa [waiting, List.countP_eq_zero] using hwaits
          · simpa [riding, List.countP_eq_zero] using hride
          · exact Nat.eq_zero_of_not_pos (fun hpos => hrec (recorded_pos_iff.mp hpos))
        have hwait : ∀ id entry, entry.id = req.id → waiting id (l.pendingCRs ++ [entry]) =
              waiting id l.pendingCRs + (if req.id = id then 1 else 0) := by
          intro id entry hentry
          simp [waiting, List.countP_append, List.countP_cons, hentry]
        refine ⟨?_, ?_, ?_, ?_, h.carries⟩
        · intro id
          have honce := h.once id
          rw [hwait id _ rfl]
          split
          · rename_i heq
            subst heq
            simp only
            omega
          · exact honce
        · intro id
          have hlaw := h.registered id
          rw [hwait id _ rfl]
          simp only [Worker.log, Worker.next, registrations, expiries, List.countP_cons,
            registers_registered, expires_registered, decide_eq_true_eq] at hlaw ⊢
          simp only [Bool.false_eq_true, if_false]
          omega
        · intro id
          have hlaw := h.resolved id
          simp only [Worker.log, Worker.next, resolutions, expiries, List.countP_cons,
            resolves_registered, expires_registered] at hlaw ⊢
          simpa using hlaw
        · intro id hid
          rw [hwait id _ rfl]
          exact Nat.lt_of_lt_of_le (h.claimed id hid) (Nat.le_add_right _ _)

theorem Tracked.claim_waits {writes : List (PendingWrite H)} (h : Tracked writes l)
    {window : OpenWindow} (hopen : l.openWindow = some window)
    (hclaim : window.pendingCR = some id) :
    0 < waiting id l.pendingCRs ∧ riding id writes = 0 := by
  have hwait := h.claimed id (by simp [Loop.claimed, hopen, hclaim])
  have honce := h.once id
  exact ⟨hwait, by omega⟩

theorem Tracked.resolve_waiting (h : Tracked l.pendingWrites l) (id : CommitRequestId)
    (result : FinalizeResult H) (carried : Option (PendingWrite H × Nat))
    (hfree : l.claimed ≠ some id) (hwait : 0 < waiting id l.pendingCRs) :
    Tracked (resolveCommitRequest env cfg id result carried l).pendingWrites
      (resolveCommitRequest env cfg id result carried l) := by
  have honce := h.once id
  have hride : riding id l.pendingWrites = 0 := by omega
  exact h.resolve env cfg id result carried hfree (by omega) hride (fun _ _ => rfl) h.carries

theorem Tracked.drop (h : Tracked l.pendingWrites l) (window : OpenWindow) (cause : String)
    (hopen : l.openWindow = some window) :
    Tracked (dropOpenWindow env cfg window.pendingCR cause l).pendingWrites
      (dropOpenWindow env cfg window.pendingCR cause l) := by
  have hclose : Tracked l.pendingWrites { l with openWindow := none, windowBytes := 0 } :=
    h.congr rfl rfl (fun _ => rfl) h.carries (by simp [Loop.claimed]) ⟨[], rfl, by simp⟩
  unfold dropOpenWindow
  split
  · exact hclose
  · rename_i id hclaim
    exact hclose.resolve_waiting env cfg id _ _ (by simp [Loop.claimed]) (h.claim_waits hopen hclaim).1

theorem Tracked.retain {l l' : Loop H T} (h : Tracked l.pendingWrites l) (kept : PendingWrite H)
    (hreq : kept.commitRequest = none) (hwrite : l'.pendingWrites = l.pendingWrites ++ [kept])
    (hcrs : l'.pendingCRs = l.pendingCRs) (hout : l'.crOutcomes = l.crOutcomes)
    (hclaim : ∀ id, l'.claimed = some id → l.claimed = some id)
    (htrace : ∃ notes, l'.w.trace = notes ++ l.w.trace ∧ ∀ note ∈ notes, note.Uncounted) :
    Tracked l'.pendingWrites l' := by
  refine h.congr hcrs hout ?_ ?_ hclaim htrace
  · intro id
    simp [hwrite, riding, List.countP_append, hreq]
  · intro pw hpw
    rw [hwrite] at hpw
    rcases List.mem_append.mp hpw with hpw | hpw
    · exact h.carries pw hpw
    · rw [List.mem_singleton.mp hpw]
      exact fun hsome => absurd hreq hsome

theorem Tracked.settle [DecidableEq H] [EmptyCollection T] (h : Tracked l.pendingWrites l)
    (window : OpenWindow) (id : CommitRequestId)
    (pw applied : PendingWrite H) (w' : Worker H T) (hopen : l.openWindow = some window)
    (hclaim : window.pendingCR = some id) (hreq : applied.commitRequest = some id)
    (htrace : w'.trace = l.w.trace) :
    Tracked (settleCommitRequest env cfg id pw applied (w'.tick - 1)
        { l with w := w', openWindow := none }).pendingWrites
      (settleCommitRequest env cfg id pw applied (w'.tick - 1)
        { l with w := w', openWindow := none }) := by
  obtain ⟨hwait, hride⟩ := h.claim_waits hopen hclaim
  unfold settleCommitRequest
  split
  · -- nothing to change: the write is retained without the request, which is resolved
    simp only
    have huncounted : (Note.doubtfulComparison id : Note H).Uncounted := fun _ => ⟨rfl, rfl, rfl⟩
    split
    · refine Tracked.resolve_waiting env cfg ?_ id _ _ (by simp [Loop.claimed]) hwait
      exact h.retain { applied with commitRequest := none } rfl rfl rfl rfl (by simp [Loop.claimed])
        ⟨[.doubtfulComparison id], by simp [Worker.log, htrace], by simpa using huncounted⟩
    · refine Tracked.resolve_waiting env cfg ?_ id _ _ (by simp [Loop.claimed]) hwait
      exact h.retain { applied with commitRequest := none } rfl rfl rfl rfl (by simp [Loop.claimed])
        ⟨[], htrace, by simp⟩
  · -- the request moves from `pendingCRs` to the retained write
    rename_i sha hsha
    have hmove : ∀ other, waiting other (removePending id l.pendingCRs) +
        riding other (l.pendingWrites ++ [applied]) =
        waiting other l.pendingCRs + riding other l.pendingWrites := by
      intro other
      have honce := h.once id
      rw [riding_append, riding_cons, hreq]
      by_cases hne : other = id
      · subst hne
        simp only [waiting_removePending_self, if_true, riding, List.countP_nil] at hride hwait honce ⊢
        omega
      · rw [waiting_removePending_of_ne hne, if_neg (by simpa using Ne.symm hne)]
        rfl
    refine ⟨?_, ?_, ?_, by simp [Loop.claimed], ?_⟩
    · intro other
      simp only [hmove other]
      exact h.once other
    · intro other
      simp only [hmove other, htrace]
      exact h.registered other
    · intro other
      simp only [htrace]
      exact h.resolved other
    · intro b hb
      rcases List.mem_append.mp hb with hb | hb
      · exact h.carries b hb
      · rw [List.mem_singleton.mp hb, CarriesCommit, hsha]
        simp

theorem resolvePushed_tracked (writes : List (PendingWrite H)) (l : Loop H T)
    (h : Tracked writes l) : Tracked [] (resolvePushedCommitRequests env cfg writes l) := by
  -- on the writes, with the rest of them still riding
  induction writes generalizing l with
  | nil => exact h
  | cons pw rest ih =>
    have hcarry : ∀ b ∈ rest, CarriesCommit b := fun b hb => h.carries b (List.mem_cons_of_mem _ hb)
    rw [resolvePushedCommitRequests]
    split
    · rename_i id sha hreq hsha
      have honce := h.once id
      have hhere := riding_cons id pw rest
      rw [if_pos hreq] at hhere
      -- it rides, so it cannot be waiting for the window
      have hfree : l.claimed ≠ some id := by
        intro hclaim
        have := h.claimed id hclaim
        omega
      refine ih _ (h.resolve env cfg id _ _ hfree (by omega) (by omega) ?_ hcarry)
      intro other hne
      rw [riding_cons, if_neg (by simpa [hreq] using Ne.symm hne), Nat.add_zero]
    · rename_i hcase
      -- a write without a commit carries no request, so passing it over loses nothing
      have hnone : pw.commitRequest = none := by
        by_contra hsome
        obtain ⟨id, hid⟩ := Option.ne_none_iff_exists'.mp hsome
        obtain ⟨sha, hsha⟩ := Option.ne_none_iff_exists'.mp (h.carries pw (by simp) hsome)
        exact hcase id sha hid hsha
      refine ih l (h.congr rfl rfl ?_ hcarry (fun _ hid => hid) ⟨[], rfl, by simp⟩)
      intro id
      rw [riding_cons, if_neg (by simp [hnone]), Nat.add_zero]

variable [DecidableEq H] [EmptyCollection T]

theorem pushPending_tracked (l : Loop H T) (h : Tracked l.pendingWrites l) :
    TrackedUnlessLost (pushPending env cfg l) := by
  unfold pushPending
  split
  · exact Or.inr (h.congr rfl rfl (fun _ => rfl) h.carries (fun _ hid => hid) ⟨[], rfl, by simp⟩)
  · rename_i hne
    cases hpush : pushPendingCommits env cfg.branch l.pendingWrites l.w with
    | mk w rest =>
      obtain ⟨writes, ok⟩ := rest
      have hreplay := (pushPendingCommits_spec env cfg.branch hne hpush).1
      -- a replay that empties a carried write breaks the law
      rcases hreplay.carries h.carries with ⟨id, hempty⟩ | hcarry
      · left
        refine ⟨id, Or.inr ?_⟩
        cases ok with
        | false => exact hempty
        | true =>
          exact List.mem_cons_of_mem _ (mem_trace_resolvePushedCommitRequests env cfg writes _ hempty)
      · right
        have hw : Tracked writes { l with w := w, pendingWrites := writes } := by
          refine h.congr rfl rfl (riding_refreshed hreplay.refreshed) hcarry (fun _ hid => hid) ?_
          obtain ⟨notes, hnot, hreplayed⟩ := hreplay.onto
          refine ⟨notes, hnot, fun note hnote => ?_⟩
          rcases hreplayed note hnote with rfl | ⟨id, rfl⟩ <;> exact fun _ => ⟨rfl, rfl, rfl⟩
        cases ok with
        | false =>
          exact hw.congr rfl rfl (fun _ => rfl) hcarry (fun _ hid => hid) ⟨[], rfl, by simp⟩
        | true =>
          have hres := resolvePushed_tracked env cfg writes _ hw
          refine hres.congr rfl rfl (fun _ => rfl) (by simp) (fun _ hid => hid) ?_
          refine ⟨[.cleared writes _], rfl, fun note hnote => ?_⟩
          rw [List.mem_singleton.mp hnote]
          exact fun _ => ⟨rfl, rfl, rfl⟩

theorem tracked_step (l l' : Loop H T) (hstep : LoopStep env cfg l l')
    (h : TrackedUnlessLost l) : TrackedUnlessLost l' := by
  rcases h with ⟨id, hlost⟩ | h
  · exact Or.inl ⟨id, hlost.imp (mem_trace_step env cfg hstep) (mem_trace_step env cfg hstep)⟩
  · cases hstep with
    | quiet hquiet =>
      right
      refine h.congr hquiet.pendingCRs hquiet.crOutcomes ?_ ?_ ?_ ?_
      · intro id
        rw [hquiet.pendingWrites]
      · rw [hquiet.pendingWrites]
        exact h.carries
      · intro id hid
        rwa [hquiet.claimed] at hid
      · obtain ⟨notes, hnot, hreport⟩ := hquiet.trace
        refine ⟨notes, hnot, fun note hnote => ?_⟩
        obtain ⟨channel, failed, rfl⟩ := hreport note hnote
        exact fun _ => ⟨rfl, rfl, rfl⟩
    | register req => exact h.register env req
    | claim window p hopen hfree hp =>
      right
      refine ⟨?_, ?_, h.resolved, ?_, h.carries⟩
      · intro id
        simp only [waiting_markAttached]
        exact h.once id
      · intro id
        simp only [waiting_markAttached]
        exact h.registered id
      · intro id hid
        have hp' : p.id = id := by simpa [Loop.claimed] using hid
        simp only [waiting_markAttached]
        exact waiting_pos_iff.mpr ⟨p, hp, hp'⟩
    | drop window cause hopen => exact Or.inr (h.drop env cfg window cause hopen)
    | reject id hclaim hmem =>
      exact Or.inr (h.resolve_waiting env cfg id _ _ hclaim (waiting_pos_iff.mpr hmem))
    | attempt pw w' applied count hcommit =>
      have htrace := commit_trace env cfg hcommit
      exact Or.inr (h.congr rfl rfl (fun _ => rfl) h.carries (fun _ hid => hid) ⟨[], htrace, by simp⟩)
    | retain pw applied kept w' count hcommit hat hreq hsha =>
      have htrace := commit_trace env cfg hcommit
      exact Or.inr (h.retain kept hreq rfl rfl rfl (fun _ hid => hid) ⟨[], htrace, by simp⟩)
    -- the applied write carries what the window was claimed by
    | settle window id pw applied w' count hopen hclaim hkind hreq hcommit =>
      obtain ⟨htrace, href, -, -⟩ := commitPendingWrites_spec env cfg.branch (by simp) hcommit
      cases href with
      | cons hpw _ =>
        exact Or.inr (h.settle env cfg window id pw applied w' hopen hclaim
          (hpw.commitRequest.trans hreq) htrace)
    | push => exact pushPending_tracked env cfg l h

theorem run_tracked (repo : Repo H T) (remote : Remote H) (wakes : List Wake) :
    TrackedUnlessLost (run env cfg repo remote wakes) := by
  apply run_invariant env cfg
  · right
    refine ⟨?_, ?_, ?_, ?_, ?_⟩ <;>
      simp [initialLoop, waiting, riding, recorded, registrations, resolutions, expiries, Loop.claimed]
  · exact tracked_step env cfg

/-! ## 4. One place, one outcome -/

/-- Exactly-once bookkeeping, in a run in which no request is registered while it rides a retained
    write and no replay empties a write that carries one: a registered request without a recorded
    outcome is in one place and one with a recorded outcome in none; it is registered once until
    its outcome expires, gets at most one outcome per registration, and none is forgotten. -/
theorem run_requests_in_one_place (repo : Repo H T) (remote : Remote H) (wakes : List Wake)
    (hattached : ∀ id, Note.reattached id ∉ (run env cfg repo remote wakes).w.trace)
    (hreplayed : ∀ id, Note.replayedEmpty id ∉ (run env cfg repo remote wakes).w.trace)
    (id : CommitRequestId) :
    let final := run env cfg repo remote wakes
    let places := waiting id final.pendingCRs + riding id final.pendingWrites
    (expiries id final.w.trace < registrations id final.w.trace →
      recorded id final.crOutcomes = 0 → places = 1) ∧
    (0 < recorded id final.crOutcomes → places = 0) ∧
    registrations id final.w.trace ≤ expiries id final.w.trace + 1 ∧
    resolutions id final.w.trace ≤ registrations id final.w.trace ∧
    registrations id final.w.trace = places + resolutions id final.w.trace := by
  intro final places
  rcases run_tracked env cfg repo remote wakes with ⟨other, hlost | hlost⟩ | h
  · exact absurd hlost (hattached other)
  · exact absurd hlost (hreplayed other)
  · have honce : places + recorded id final.crOutcomes ≤ 1 := h.once id
    have hregistered : registrations id final.w.trace =
        places + recorded id final.crOutcomes + expiries id final.w.trace := h.registered id
    have hresolved : resolutions id final.w.trace =
        recorded id final.crOutcomes + expiries id final.w.trace := h.resolved id
    refine ⟨?_, ?_, ?_, ?_, ?_⟩ <;> omega

def Loop.requestCounts (id : CommitRequestId) (l : Loop H T) : Nat × Nat × Nat × Nat :=
  (registrations id l.w.trace, waiting id l.pendingCRs, riding id l.pendingWrites,
    resolutions id l.w.trace)

def resentAttach (name : String) : Wake :=
  .item (.attach ⟨sampleRequest name, "alice", .resolved, ⟨"target", "default"⟩, "", 60⟩)

def sameContentEnv (tick : Nat) : World (freeStore (List Nat)) :=
  if tick = 14 then
    { onceWorld with others := .commitOn _ "main" [0, 1] 9, order_perm := order_refl }
  else onceWorld

-- First run: the re-send registers a request that already rides the unpushed write.
-- Second run: the replayed write has no commit, so clearing it forgets the request.
theorem request_registered_twice_or_forgotten :
    (run droppedPushEnv windowConfig freshClone mainOnly [sampleWrite "set", sampleAttach "first",
        resentAttach "first"]).requestCounts (sampleRequest "first") = (2, 1, 1, 0) ∧
    (run sameContentEnv windowConfig freshClone mainOnly [sampleWrite "set",
        sampleAttach "first"]).requestCounts (sampleRequest "first") = (1, 0, 0, 0) := by
  decide

def Note.misplaced : Note H → Bool
  | .reattached _ => true
  | .replayedEmpty _ => true
  | _ => false

theorem calm_run_request_in_one_place :
    let final := run (fun _ => onceWorld) windowConfig freshClone mainOnly
      [sampleWrite "set", sampleAttach "first", resentAttach "second", resentAttach "second"]
    (0 < recorded (sampleRequest "first") final.crOutcomes ∧
      waiting (sampleRequest "first") final.pendingCRs +
        riding (sampleRequest "first") final.pendingWrites = 0) ∧
    expiries (sampleRequest "second") final.w.trace <
      registrations (sampleRequest "second") final.w.trace ∧
    waiting (sampleRequest "second") final.pendingCRs +
      riding (sampleRequest "second") final.pendingWrites = 1 := by
  intro final
  have hcalm : ∀ note ∈ final.w.trace, note.misplaced = false := by decide
  have hattached : ∀ id, Note.reattached id ∉ final.w.trace := fun id hid => by
    simpa [Note.misplaced] using hcalm _ hid
  have hreplayed : ∀ id, Note.replayedEmpty id ∉ final.w.trace := fun id hid => by
    simpa [Note.misplaced] using hcalm _ hid
  have hplace := run_requests_in_one_place (fun _ => onceWorld) windowConfig freshClone mainOnly
    [sampleWrite "set", sampleAttach "first", resentAttach "second", resentAttach "second"]
    hattached hreplayed
  have hfirst : 0 < recorded (sampleRequest "first") final.crOutcomes := by decide
  have hsecond : expiries (sampleRequest "second") final.w.trace <
      registrations (sampleRequest "second") final.w.trace := by decide
  exact ⟨⟨hfirst, (hplace (sampleRequest "first")).2.1 hfirst⟩, hsecond,
    (hplace (sampleRequest "second")).1 hsecond (by decide)⟩

end GitopsReverser.Git
