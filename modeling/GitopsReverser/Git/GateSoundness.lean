import GitopsReverser.Git.RenderFidelityGate
import GitopsReverser.Reasoning.Runs

/-!
# GateSoundness — the verdict of the render fidelity gate over its call history

A resync result carries the epoch of the `Begin` its resync was started under. `GateSpec` says what
the calls of a target amount to when a `Begin` is known by its position in the history; the gate
knows it by its epoch number only.
-/

namespace GitopsReverser.Git

open Reasoning

/-! ## 1. Calls on one target -/

/-- `report` is the result of a resync started under the `Begin` at position `began`. -/
inductive GateCall where
  | begin (scopes : List TargetWatchKey)
  | report (began : Nat) (scope : TargetWatchKey) (divergence : Option RenderDivergence)
  | fail (divergence : RenderDivergence)
  | forget
  deriving DecidableEq, Repr

/-- What the calls since the last `Forget` amount to. -/
structure GateSpec where
  declared : Option (List TargetWatchKey)
  clean : List TargetWatchKey
  diverged : Bool
  deriving DecidableEq, Repr

def GateSpec.allowed (spec : GateSpec) : Bool :=
  match spec.declared with
  | none => false
  | some scopes => scopes.all (fun scope => scope ∈ spec.clean) && !spec.diverged

def GateSpec.report (scope : TargetWatchKey) (divergence : Option RenderDivergence)
    (spec : GateSpec) : GateSpec :=
  match spec.declared with
  | none => spec
  | some scopes =>
    -- a resync of a scope that was not declared is not one of its resyncs
    if scope ∉ scopes then spec
    else match divergence with
      | none => { spec with clean := scope :: spec.clean }
      | some _ => { spec with diverged := true }

/-- The gate and what its calls amount to; `epochs` are the epochs of all `Begin`s, and `forgotten`
    is how many of them a `Forget` has followed. -/
structure GateRun where
  gate : RenderFidelityGate
  epochs : List Nat
  forgotten : Nat
  spec : GateSpec

/-- `MarkTargetRenderFidelityScopeClean` and `…Diverged`: epoch zero stands for no gate. -/
def markTargetRenderFidelityScope (gate : RenderFidelityGate) (target : ResourceReference)
    (epoch : Nat) (scope : TargetWatchKey) (divergence : Option RenderDivergence) :
    RenderFidelityGate :=
  if epoch = 0 then gate else (gate.recordScope target epoch (.scope scope) divergence).1

def gateStep (target : ResourceReference) (s : GateRun) : GateCall → GateRun
  | .begin scopes =>
    let (gate, status) := s.gate.begin target scopes
    ⟨gate, s.epochs ++ [status.epoch], s.forgotten, ⟨some scopes, [], false⟩⟩
  | .report began scope divergence =>
    match s.epochs[began]? with
    | none => s
    | some epoch =>
      { s with
        gate := markTargetRenderFidelityScope s.gate target epoch scope divergence
        spec := if began + 1 = s.epochs.length ∧ s.forgotten ≤ began then
          s.spec.report scope divergence else s.spec }
  | .fail divergence =>
    { s with
      gate := (s.gate.fail target divergence).1
      spec := { s.spec with diverged := true } }
  | .forget => ⟨s.gate.forget target, s.epochs, s.epochs.length, ⟨none, [], false⟩⟩

def initialGateRun : GateRun := ⟨fun _ => none, [], 0, ⟨none, [], false⟩⟩

/-- No result outlives a `Forget`, and the epoch counter does not wrap. -/
def GateCallOk (target : ResourceReference) (s : GateRun) : GateCall → Prop
  | .begin _ => ((s.gate target.key).map (·.epoch)).getD 0 + 1 < 2 ^ 64
  | .report began _ _ => s.forgotten ≤ began
  | _ => True

instance (target : ResourceReference) (s : GateRun) (call : GateCall) :
    Decidable (GateCallOk target s call) :=
  match call with
  | .begin _ => Nat.decLt _ _
  | .report _ _ _ => Nat.decLe _ _
  | .fail _ | .forget => instDecidableTrue

/-! ## 2. The gate is open when every scope is clean -/

theorem scanScopes_of_clean (scopes : List (ScopeKey × ScopeResult)) (clean : Nat)
    (h : ∀ entry ∈ scopes, entry.2.isClean = true) :
    scanScopes scopes clean = (clean + scopes.length, none) := by
  induction scopes generalizing clean with
  | nil => rfl
  | cons entry rest ih =>
    have hentry := h entry List.mem_cons_self
    simp only [ScopeResult.isClean, Bool.and_eq_true, Option.isNone_iff_eq_none] at hentry
    have hrest := ih (clean + 1) (fun e he => h e (List.mem_cons_of_mem _ he))
    rw [scanScopes, hentry.1.1, hentry.2, hentry.1.2, List.length_cons]
    simp only [if_true, Bool.true_eq_false, if_false, hrest, Prod.mk.injEq, and_true]
    omega

variable {gate : RenderFidelityGate} {state : FidelityState} {target : ResourceReference}
  {key : ScopeKey} {result : ScopeResult} {scopes : List (ScopeKey × ScopeResult)}
  {declared clean : List TargetWatchKey} {reported : Bool}

theorem allowsWrites_iff (hstate : gate target.key = some state) :
    gate.allowsWrites target = true ↔ ∀ entry ∈ state.scopes, entry.2.isClean = true := by
  constructor
  · exact allowsWrites_scopes hstate
  · intro h
    have hsort : (sortedScopes state.scopes).Perm state.scopes := List.perm_insertionSort _ _
    have hscan := scanScopes_of_clean (sortedScopes state.scopes) 0
      (fun entry hentry => h entry (hsort.mem_iff.mp hentry))
    have hready : reduceRenderFidelity state =
        renderFidelityReadyStatus state.epoch state.scopes.length state.scopes.length := by
      unfold reduceRenderFidelity
      rw [hscan]
      simp only [Nat.zero_add, hsort.length_eq, ne_eq, not_true_eq_false, if_false]
    unfold RenderFidelityGate.allowsWrites RenderFidelityGate.status
    rw [hstate]
    simp only [hready]
    rfl

theorem allowsWrites_of_unregistered
    (h : gate target.key = none) : gate.allowsWrites target = true := by
  unfold RenderFidelityGate.allowsWrites RenderFidelityGate.status
  rw [h]
  rfl

/-! ## 3. The scopes of an epoch -/

theorem keys_setScope (key : ScopeKey) (result : ScopeResult) (scopes : List (ScopeKey × ScopeResult)) :
    (setScope key result scopes).map (·.1) =
      if key ∈ scopes.map (·.1) then scopes.map (·.1) else scopes.map (·.1) ++ [key] := by
  have hany : scopes.any (fun entry => entry.1 = key) = true ↔ key ∈ scopes.map (·.1) := by
    simp
  unfold setScope
  by_cases h : key ∈ scopes.map (·.1)
  · rw [if_pos (hany.mpr h), if_pos h, List.map_map]
    apply List.map_congr_left
    intro entry _
    show (if entry.1 = key then (key, result) else entry).1 = entry.1
    split
    · rename_i heq
      exact heq.symm
    · rfl
  · rw [if_neg (fun h' => h (hany.mp h')), if_neg h, List.map_append]
    rfl

theorem nodup_setScope (h : (scopes.map (·.1)).Nodup) :
    ((setScope key result scopes).map (·.1)).Nodup := by
  rw [keys_setScope]
  split
  · exact h
  · rename_i hkey
    rw [List.nodup_append]
    exact ⟨h, List.nodup_singleton _, fun a ha b hb => by
      rw [List.mem_singleton.mp hb]
      exact fun heq => hkey (heq ▸ ha)⟩

theorem mem_setScope_iff : entry ∈ setScope key result scopes ↔
      entry = (key, result) ∨ (entry ∈ scopes ∧ entry.1 ≠ key) := by
  unfold setScope
  split
  · rename_i hany
    obtain ⟨old, hold, hkey⟩ := List.any_eq_true.mp hany
    rw [List.mem_map]
    constructor
    · rintro ⟨e, he, rfl⟩
      by_cases hek : e.1 = key
      · rw [if_pos hek]
        exact Or.inl rfl
      · rw [if_neg hek]
        exact Or.inr ⟨he, hek⟩
    · rintro (rfl | ⟨hmem, hne⟩)
      · exact ⟨old, hold, if_pos (of_decide_eq_true hkey)⟩
      · exact ⟨entry, hmem, if_neg hne⟩
  · rename_i hany
    have hnone : ∀ e ∈ scopes, e.1 ≠ key := by
      intro e he heq
      exact hany (List.any_eq_true.mpr ⟨e, he, decide_eq_true heq⟩)
    rw [List.mem_append, List.mem_singleton]
    constructor
    · rintro (hmem | rfl)
      · exact Or.inr ⟨hmem, hnone entry hmem⟩
      · exact Or.inl rfl
    · rintro (rfl | ⟨hmem, -⟩)
      · exact Or.inr rfl
      · exact Or.inl hmem

theorem find_scope (hnodup : (scopes.map (·.1)).Nodup) (hmem : (key, result) ∈ scopes) :
    scopes.find? (fun entry => entry.1 = key) = some (key, result) := by
  induction scopes with
  | nil => simp at hmem
  | cons entry rest ih =>
    rw [List.map_cons, List.nodup_cons] at hnodup
    rcases List.mem_cons.mp hmem with rfl | hmem
    · simp
    · have hne : entry.1 ≠ key := by
        rintro rfl
        exact hnodup.1 (List.mem_map.mpr ⟨_, hmem, rfl⟩)
      rw [List.find?_cons_of_neg (by simpa using hne)]
      exact ih hnodup.2 hmem

theorem mem_pendingScopes (scopes : List TargetWatchKey) (entry : ScopeKey × ScopeResult) :
    entry ∈ pendingScopes scopes ↔ ∃ scope ∈ scopes, entry = (.scope scope, ⟨false, false, none⟩) := by
  unfold pendingScopes
  -- on the scopes, for any entries to begin with that are pending
  have hfold : ∀ before : List (ScopeKey × ScopeResult), (∀ e ∈ before, e.2 = ⟨false, false, none⟩) →
      (entry ∈ scopes.foldl (fun acc scope => setScope (.scope scope) ⟨false, false, none⟩ acc) before ↔
        entry ∈ before ∨ ∃ scope ∈ scopes, entry = (.scope scope, ⟨false, false, none⟩)) := by
    induction scopes with
    | nil => simp
    | cons scope scopes ih =>
      intro before hbefore
      rw [List.foldl_cons, ih _ (fun e he => by
        rcases mem_setScope he with rfl | he
        · rfl
        · exact hbefore e he)]
      rw [mem_setScope_iff]
      constructor
      · rintro ((rfl | ⟨hmem, -⟩) | ⟨other, hother, rfl⟩)
        · exact Or.inr ⟨scope, List.mem_cons_self, rfl⟩
        · exact Or.inl hmem
        · exact Or.inr ⟨other, List.mem_cons_of_mem _ hother, rfl⟩
      · rintro (hmem | ⟨other, hother, rfl⟩)
        · by_cases hkey : entry.1 = .scope scope
          · left; left
            rw [← hkey, ← hbefore entry hmem]
          · exact Or.inl (Or.inr ⟨hmem, hkey⟩)
        · rcases List.mem_cons.mp hother with rfl | hother
          · exact Or.inl (Or.inl rfl)
          · exact Or.inr ⟨other, hother, rfl⟩
  simpa using hfold [] (by simp)

theorem nodup_pendingScopes (scopes : List TargetWatchKey) :
    ((pendingScopes scopes).map (·.1)).Nodup := by
  unfold pendingScopes
  have hfold : ∀ before : List (ScopeKey × ScopeResult), (before.map (·.1)).Nodup →
      ((scopes.foldl (fun acc scope => setScope (.scope scope) ⟨false, false, none⟩ acc)
        before).map (·.1)).Nodup := by
    induction scopes with
    | nil => exact fun _ h => h
    | cons scope scopes ih => exact fun before h => ih _ (nodup_setScope h)
  exact hfold [] List.nodup_nil

/-- The entries of an epoch say what the calls since its `Begin` amount to. -/
structure Reflects (declared clean : List TargetWatchKey) (diverged : Bool)
    (scopes : List (ScopeKey × ScopeResult)) : Prop where
  nodup : (scopes.map (·.1)).Nodup
  present : ∀ scope ∈ declared, ∃ result, (ScopeKey.scope scope, result) ∈ scopes
  known : ∀ scope result, (ScopeKey.scope scope, result) ∈ scopes → scope ∈ declared
  clean_iff : ∀ scope result, (ScopeKey.scope scope, result) ∈ scopes →
    (result.isClean = true ↔ scope ∈ clean ∧ result.divergence = none)
  write : ∀ result, (ScopeKey.write, result) ∈ scopes → result.divergence ≠ none
  diverged_iff : diverged = true ↔ ∃ entry ∈ scopes, entry.2.divergence ≠ none

theorem reflects_pending (scopes : List TargetWatchKey) :
    Reflects scopes [] false (pendingScopes scopes) where
  nodup := nodup_pendingScopes scopes
  present scope hscope := ⟨_, (mem_pendingScopes _ _).mpr ⟨scope, hscope, rfl⟩⟩
  known scope result hmem := by
    obtain ⟨other, hother, heq⟩ := (mem_pendingScopes _ _).mp hmem
    rw [ScopeKey.scope.inj (Prod.mk.inj heq).1]
    exact hother
  clean_iff scope result hmem := by
    obtain ⟨other, -, heq⟩ := (mem_pendingScopes _ _).mp hmem
    rw [(Prod.mk.inj heq).2]
    simp [ScopeResult.isClean]
  write result hmem := by
    obtain ⟨other, -, heq⟩ := (mem_pendingScopes _ _).mp hmem
    simp at heq
  diverged_iff := by
    simp only [Bool.false_eq_true, false_iff, not_exists, not_and, not_not]
    intro entry hmem
    obtain ⟨other, -, rfl⟩ := (mem_pendingScopes _ _).mp hmem
    rfl

section

variable (h : Reflects declared clean reported scopes)

include h

theorem Reflects.cleaned (hmem : (.scope scope, result) ∈ scopes) (hnone : result.divergence = none) :
    Reflects declared (scope :: clean) reported (setScope (.scope scope) ⟨true, true, none⟩ scopes) where
  nodup := nodup_setScope h.nodup
  present other hother := by
    by_cases heq : other = scope
    · exact ⟨_, mem_setScope_iff.mpr (Or.inl (by rw [heq]))⟩
    · obtain ⟨r, hr⟩ := h.present other hother
      exact ⟨r, mem_setScope_iff.mpr (Or.inr ⟨hr, by simpa using heq⟩)⟩
  known other r hr := by
    rcases mem_setScope hr with heq | hr
    · rw [ScopeKey.scope.inj (Prod.mk.inj heq).1]
      exact h.known scope result hmem
    · exact h.known other r hr
  clean_iff other r hr := by
    rcases mem_setScope_iff.mp hr with heq | ⟨hr, hne⟩
    · rw [(Prod.mk.inj heq).2, ScopeKey.scope.inj (Prod.mk.inj heq).1]
      simp [ScopeResult.isClean]
    · have hother : other ≠ scope := fun heq => hne (by rw [heq])
      rw [h.clean_iff other r hr, List.mem_cons]
      simp [hother]
  write r hr := by
    rcases mem_setScope_iff.mp hr with heq | ⟨hr, -⟩
    · simp at heq
    · exact h.write r hr
  diverged_iff := by
    rw [h.diverged_iff]
    constructor
    · rintro ⟨entry, hentry, hdiverge⟩
      refine ⟨entry, mem_setScope_iff.mpr (Or.inr ⟨hentry, ?_⟩), hdiverge⟩
      -- the scope itself has no divergence
      intro hkey
      have hfirst := find_scope h.nodup hmem
      have hsecond := find_scope h.nodup (show (entry.1, entry.2) ∈ scopes from hentry)
      rw [hkey, hfirst] at hsecond
      have heq : result = entry.2 := (Prod.mk.inj (Option.some.inj hsecond)).2
      exact hdiverge (heq ▸ hnone)
    · rintro ⟨entry, hentry, hdiverge⟩
      rcases mem_setScope_iff.mp hentry with rfl | ⟨hentry, -⟩
      · exact absurd rfl hdiverge
      · exact ⟨entry, hentry, hdiverge⟩

theorem Reflects.still_diverged (hmem : (.scope scope, result) ∈ scopes)
    (hsome : result.divergence ≠ none) : Reflects declared (scope :: clean) reported scopes where
  nodup := h.nodup
  present := h.present
  known := h.known
  clean_iff other r hr := by
    rw [h.clean_iff other r hr, List.mem_cons]
    by_cases heq : other = scope
    · subst heq
      have hfirst := find_scope h.nodup hmem
      rw [find_scope h.nodup hr] at hfirst
      have hr' : r = result := (Prod.mk.inj (Option.some.inj hfirst)).2
      simp [hr', hsome]
    · simp [heq]
  write := h.write
  diverged_iff := h.diverged_iff

theorem Reflects.diverged
    (hkey : ∀ scope, key = .scope scope → scope ∈ declared) (divergence : RenderDivergence) :
    Reflects declared clean true (setScope key ⟨false, true, some divergence⟩ scopes) where
  nodup := nodup_setScope h.nodup
  present other hother := by
    by_cases heq : ScopeKey.scope other = key
    · exact ⟨_, mem_setScope_iff.mpr (Or.inl (by rw [heq]))⟩
    · obtain ⟨r, hr⟩ := h.present other hother
      exact ⟨r, mem_setScope_iff.mpr (Or.inr ⟨hr, heq⟩)⟩
  known other r hr := by
    rcases mem_setScope hr with heq | hr
    · exact hkey other (Prod.mk.inj heq).1.symm
    · exact h.known other r hr
  clean_iff other r hr := by
    rcases mem_setScope_iff.mp hr with heq | ⟨hr, -⟩
    · rw [(Prod.mk.inj heq).2]
      simp [ScopeResult.isClean]
    · exact h.clean_iff other r hr
  write r hr := by
    rcases mem_setScope_iff.mp hr with heq | ⟨hr, -⟩
    · rw [(Prod.mk.inj heq).2]
      simp
    · exact h.write r hr
  diverged_iff := by
    simp only [true_iff]
    exact ⟨_, mem_setScope_iff.mpr (Or.inl rfl), by simp⟩

theorem Reflects.all_clean_iff : (∀ entry ∈ scopes, entry.2.isClean = true) ↔
      (∀ scope ∈ declared, scope ∈ clean) ∧ reported = false := by
  constructor
  · intro hall
    refine ⟨fun scope hscope => ?_, ?_⟩
    · obtain ⟨result, hmem⟩ := h.present scope hscope
      exact ((h.clean_iff scope result hmem).mp (hall _ hmem)).1
    · by_contra hdiverges
      obtain ⟨entry, hentry, hdiverge⟩ := h.diverged_iff.mp (Bool.eq_true_of_not_eq_false hdiverges)
      have hclean := hall entry hentry
      simp only [ScopeResult.isClean, Bool.and_eq_true, Option.isNone_iff_eq_none] at hclean
      exact hdiverge hclean.2
  · rintro ⟨hclean, hdiverges⟩ ⟨key, result⟩ hentry
    -- a write entry always has a divergence, so none can be left
    have hnone : result.divergence = none := by
      by_contra hdiverge
      have := h.diverged_iff.mpr ⟨_, hentry, hdiverge⟩
      rw [hdiverges] at this
      simp at this
    cases key with
    | scope scope =>
      exact (h.clean_iff scope result hentry).mpr ⟨hclean scope (h.known scope result hentry), hnone⟩
    | write => exact absurd hnone (h.write result hentry)

end

/-! ## 4. The run -/

/-- The epochs since the last `Forget` grow up to the current one. -/
structure EpochsGrow (epochs : List Nat) (forgotten : Nat) (epoch : Nat) : Prop where
  current : epochs[epochs.length - 1]? = some epoch
  recent : forgotten < epochs.length
  older : ∀ i e, forgotten ≤ i → i + 1 < epochs.length → epochs[i]? = some e → e < epoch
  pos : 0 < epoch

theorem EpochsGrow.pushed (hforget : forgotten ≤ epochs.length)
    (hold : ∀ i e, forgotten ≤ i → epochs[i]? = some e → e < epoch + 1) :
    EpochsGrow (epochs ++ [epoch + 1]) forgotten (epoch + 1) where
  current := by simp
  recent := by
    rw [List.length_append, List.length_singleton]
    omega
  older i e hi hlt he := by
    rw [List.length_append, List.length_singleton] at hlt
    rw [List.getElem?_append_left (by omega)] at he
    exact hold i e hi he
  pos := Nat.succ_pos _

/-- The gate of the target and what its calls amount to, side by side. -/
inductive Sound (target : ResourceReference) (s : GateRun) : Prop
  | unregistered (hgate : s.gate target.key = none) (hspec : s.spec.declared = none)
      (hforgotten : s.forgotten = s.epochs.length)
  -- a live write has failed before the first `Begin`
  | failed (state : FidelityState) (hgate : s.gate target.key = some state)
      (hspec : s.spec.declared = none) (hforgotten : s.forgotten = s.epochs.length)
      (result : ScopeResult) (hscopes : state.scopes = [(.write, result)])
      (hdivergence : result.divergence ≠ none)
  | begun (state : FidelityState) (declared : List TargetWatchKey)
      (hgate : s.gate target.key = some state) (hspec : s.spec.declared = some declared)
      (hepochs : EpochsGrow s.epochs s.forgotten state.epoch)
      (hreflects : Reflects declared s.spec.clean s.spec.diverged state.scopes)

theorem sound_begin (target : ResourceReference) (s : GateRun) (scopes : List TargetWatchKey)
    (hok : GateCallOk target s (.begin scopes)) (h : Sound target s) :
    Sound target (gateStep target s (.begin scopes)) := by
  have hmod := Nat.mod_eq_of_lt (show ((s.gate target.key).map (·.epoch)).getD 0 + 1 < 2 ^ 64 from hok)
  -- the new epoch is above all since the last `Forget`: the bound keeps it from wrapping
  have hgrow : EpochsGrow (s.epochs ++ [((s.gate target.key).map (·.epoch)).getD 0 + 1]) s.forgotten
      (((s.gate target.key).map (·.epoch)).getD 0 + 1) := by
    cases h with
    | unregistered hgate hspec hforget | failed state hgate hspec hforget result hscope hdiverge =>
      apply EpochsGrow.pushed (by omega)
      intro i e hi he
      rw [List.getElem?_eq_none (by omega)] at he
      simp at he
    | begun state declared hgate hspec hepoch href =>
      rw [hgate]
      apply EpochsGrow.pushed (Nat.le_of_lt hepoch.recent)
      intro i e hi he
      show e < state.epoch + 1
      obtain ⟨hlt, -⟩ := List.getElem?_eq_some_iff.mp he
      by_cases hlast : i + 1 < s.epochs.length
      · exact Nat.lt_succ_of_lt (hepoch.older i e hi hlast he)
      · have hcur := hepoch.current
        rw [show s.epochs.length - 1 = i by omega, he] at hcur
        rw [Option.some.inj hcur]
        exact Nat.lt_succ_self _
  refine .begun ⟨((s.gate target.key).map (·.epoch)).getD 0 + 1, pendingScopes scopes⟩ scopes ?_ rfl
    ?_ (reflects_pending scopes)
  · simp only [gateStep, RenderFidelityGate.begin, hmod, Function.update_self]
  · simp only [gateStep, RenderFidelityGate.begin, hmod, reduceRenderFidelity_epoch]
    exact hgrow

theorem recordScope_stale (hgate : gate target.key = some state)
    (hstate : epoch ≠ state.epoch) (key : ScopeKey) (divergence : Option RenderDivergence) :
    (gate.recordScope target epoch key divergence).1 = gate := by
  unfold RenderFidelityGate.recordScope
  rw [hgate]
  simp only [ne_eq, hstate.symm, not_false_eq_true, if_true]

theorem recordScope_current (hgate : gate target.key = some state) {spec : GateSpec}
    (hspec : spec.declared = some declared)
    (h : Reflects declared spec.clean spec.diverged state.scopes) (scope : TargetWatchKey)
    (divergence : Option RenderDivergence) :
    ∃ scopes, (gate.recordScope target state.epoch (.scope scope) divergence).1 target.key =
        some { state with scopes := scopes } ∧
      (spec.report scope divergence).declared = some declared ∧
      Reflects declared (spec.report scope divergence).clean (spec.report scope divergence).diverged
        scopes := by
  unfold RenderFidelityGate.recordScope GateSpec.report
  rw [hgate, hspec]
  by_cases hscope : scope ∈ declared
  · obtain ⟨result, hmem⟩ := h.present scope hscope
    simp only [ne_eq, not_true_eq_false, if_false, find_scope h.nodup hmem, hscope]
    cases divergence with
    | none =>
      by_cases hdiverge : result.divergence = none
      · simp only [hdiverge, not_true_eq_false, false_and, if_false, Function.update_self]
        exact ⟨_, rfl, trivial, h.cleaned hmem hdiverge⟩
      · simp only [hdiverge, not_false_eq_true, and_self, if_true]
        exact ⟨_, hgate, trivial, h.still_diverged hmem hdiverge⟩
    | some d =>
      simp only [reduceCtorEq, and_false, if_false, Function.update_self]
      exact ⟨_, rfl, trivial, h.diverged (fun other heq => by
        rw [← ScopeKey.scope.inj heq]
        exact hscope) d⟩
  · -- the gate does not know the scope either
    have hfind : state.scopes.find? (fun entry => entry.1 = ScopeKey.scope scope) = none := by
      rw [List.find?_eq_none]
      rintro ⟨key, result⟩ hmem hkey
      have heq : key = .scope scope := of_decide_eq_true hkey
      exact hscope (h.known scope result (heq ▸ hmem))
    simp only [ne_eq, not_true_eq_false, if_false, hfind, hscope, not_false_eq_true, if_true]
    exact ⟨_, hgate, hspec, h⟩

/-- A result of a resync started under an earlier `Begin` since the last `Forget`. -/
theorem report_stale (h : Sound target s)
    (hforget : s.forgotten ≤ began) (hstale : began + 1 ≠ s.epochs.length)
    (scope : TargetWatchKey) (divergence : Option RenderDivergence) :
    gateStep target s (.report began scope divergence) = s := by
  simp only [gateStep]
  cases hepoch : s.epochs[began]? with
  | none => rfl
  | some epoch =>
    obtain ⟨hlt, -⟩ := List.getElem?_eq_some_iff.mp hepoch
    simp only [hstale, false_and, if_false]
    cases h with
    | unregistered hgate hspec hforget' | failed state hgate hspec hforget' result hscope hdiverge => omega
    | begun state declared hgate hspec hepochs href =>
      have hne : epoch ≠ state.epoch := Nat.ne_of_lt (hepochs.older began epoch hforget (by omega) hepoch)
      unfold markTargetRenderFidelityScope
      split
      · rfl
      · rw [recordScope_stale hgate hne]

theorem sound_report (target : ResourceReference) (s : GateRun) (began : Nat) (scope : TargetWatchKey)
    (divergence : Option RenderDivergence) (hok : s.forgotten ≤ began) (h : Sound target s) :
    Sound target (gateStep target s (.report began scope divergence)) := by
  by_cases hstale : began + 1 ≠ s.epochs.length
  · rw [report_stale h hok hstale]
    exact h
  · cases h with
    | unregistered hgate hspec hforget | failed state hgate hspec hforget result hscope hdiverge => omega
    | begun state declared hgate hspec hepoch href =>
      have hcur := hepoch.current
      rw [show s.epochs.length - 1 = began by omega] at hcur
      obtain ⟨scopes, hgate', hspec', href'⟩ := recordScope_current hgate hspec href scope divergence
      unfold gateStep
      simp only [hcur, markTargetRenderFidelityScope, Nat.ne_of_gt hepoch.pos, if_false]
      rw [if_pos ⟨not_not.mp hstale, hok⟩]
      exact .begun _ declared hgate' hspec' hepoch href'

theorem sound_fail (target : ResourceReference) (s : GateRun) (divergence : RenderDivergence)
    (h : Sound target s) : Sound target (gateStep target s (.fail divergence)) := by
  unfold gateStep RenderFidelityGate.fail
  cases h with
  | unregistered hgate hspec hforget =>
    rw [hgate]
    exact .failed _ (Function.update_self _ _ _) hspec hforget _ rfl (by simp)
  | failed state hgate hspec hforget result hscope hdiverge =>
    rw [hgate]
    refine .failed _ (Function.update_self _ _ _) hspec hforget ⟨false, true, some divergence⟩ ?_ (by simp)
    simp [hscope, setScope]
  | begun state declared hgate hspec hepoch href =>
    rw [hgate]
    exact .begun _ declared (Function.update_self _ _ _) hspec hepoch (href.diverged (by simp) divergence)

theorem sound_step (target : ResourceReference) (s : GateRun) (call : GateCall)
    (hok : GateCallOk target s call) (h : Sound target s) : Sound target (gateStep target s call) := by
  cases call with
  | begin scopes => exact sound_begin target s scopes hok h
  | report began scope divergence => exact sound_report target s began scope divergence hok h
  | fail divergence => exact sound_fail target s divergence h
  | forget => exact .unregistered (Function.update_self _ _ _) rfl rfl

/-- The verdict agrees with the calls exactly while the target is registered. -/
theorem Sound.allowsWrites_iff_allowed (h : Sound target s) :
    (s.gate.allowsWrites target = true ↔ s.spec.allowed = true) ↔ s.gate target.key ≠ none := by
  cases h with
  | unregistered hgate hspec hforget =>
    simp [allowsWrites_of_unregistered hgate, GateSpec.allowed, hspec, hgate]
  | failed state hgate hspec hforget result hscope hdiverge =>
    have hclose : ¬ s.gate.allowsWrites target = true := by
      intro hopen
      have hclean := (allowsWrites_iff hgate).mp hopen (.write, result) (by simp [hscope])
      simp only [ScopeResult.isClean, Bool.and_eq_true, Option.isNone_iff_eq_none] at hclean
      exact hdiverge hclean.2
    simp [hclose, GateSpec.allowed, hspec, hgate]
  | begun state declared hgate hspec hepoch href =>
    rw [allowsWrites_iff hgate, href.all_clean_iff]
    simp [GateSpec.allowed, hspec, hgate]

/-- In every history in which no result outlives a `Forget` and the epoch counter does not wrap, a
    target that is registered with the gate accepts writes exactly when every scope of its latest
    `Begin` has been reported clean under it and nothing has diverged since, and results of resyncs
    started under another `Begin` change nothing. -/
theorem allowsWrites_iff_scopes_clean (target : ResourceReference) (calls : List GateCall)
    (hcalls : AllSteps (gateStep target) (GateCallOk target) initialGateRun calls) :
    let s := calls.foldl (gateStep target) initialGateRun
    ((s.gate.allowsWrites target = true ↔ s.spec.allowed = true) ↔ s.gate target.key ≠ none) ∧
    ∀ began scope divergence, GateCallOk target s (.report began scope divergence) →
      began + 1 ≠ s.epochs.length → gateStep target s (.report began scope divergence) = s := by
  intro s
  have h : Sound target s := hcalls.invariant (sound_step target) (.unregistered rfl rfl rfl)
  exact ⟨h.allowsWrites_iff_allowed, fun began scope divergence hok hstale =>
    report_stale h hok hstale scope divergence⟩

def sampleTarget : ResourceReference := ⟨"apps", "default"⟩

def sampleScope : TargetWatchKey := ⟨⟨"", "v1", "configmaps"⟩, "default"⟩

-- The epochs of a re-created target start at one again: a result from before opens its gate.
theorem forgotten_result_opens_gate :
    let s := [GateCall.begin [sampleScope], .forget, .begin [sampleScope], .report 0 sampleScope none].foldl
      (gateStep sampleTarget) initialGateRun
    s.epochs = [1, 1] ∧ s.spec = ⟨some [sampleScope], [], false⟩ ∧ s.spec.allowed = false ∧
    s.gate.allowsWrites sampleTarget = true := by
  decide

def redeclaredCalls : List GateCall :=
  [.begin [sampleScope], .begin [sampleScope], .report 0 sampleScope none, .report 1 sampleScope none]

theorem redeclared_gate_opens_on_own_result :
    let s := redeclaredCalls.foldl (gateStep sampleTarget) initialGateRun
    s.gate.allowsWrites sampleTarget = true ∧ s.spec.allowed = true := by
  have h := allowsWrites_iff_scopes_clean sampleTarget redeclaredCalls (by decide)
  have hallowed : (redeclaredCalls.foldl (gateStep sampleTarget) initialGateRun).spec.allowed = true := by
    decide
  exact ⟨(h.1.mpr (by decide)).mpr hallowed, hallowed⟩

end GitopsReverser.Git
