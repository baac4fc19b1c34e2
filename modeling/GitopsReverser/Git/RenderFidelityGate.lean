import GitopsReverser.Types

/-!
# RenderFidelityGate — when a GitTarget may be written

An epoch opens the gate once every one of its scopes has reported a clean replay. A divergence
closes it until the next epoch.
-/

namespace GitopsReverser.Git

structure RenderDivergence where
  field : String
  token : String
  deriving DecidableEq, Repr

/-- The source keys scopes by this text; the model keys them by the scope itself. -/
inductive ScopeKey where
  | scope (key : TargetWatchKey)
  /-- The pseudo scope of a divergence found by a live write. -/
  | write
  deriving DecidableEq, Repr

def ScopeKey.text : ScopeKey → String
  | .scope key => key.gvr.toString ++ "|" ++ key.ns
  | .write => "write"

structure ScopeResult where
  clean : Bool
  finished : Bool
  divergence : Option RenderDivergence
  deriving DecidableEq, Repr

/-- `renderFidelityTargetState`; the scopes are a map, kept as entries with distinct keys. -/
structure FidelityState where
  epoch : Nat
  scopes : List (ScopeKey × ScopeResult)
  deriving DecidableEq

abbrev RenderFidelityGate := String → Option FidelityState

inductive RenderFidelityState where
  | unknown
  | isTrue
  | isFalse
  deriving DecidableEq, Repr

structure RenderFidelityStatus where
  epoch : Nat
  state : RenderFidelityState
  reason : String
  message : String
  divergence : Option RenderDivergence
  scopeCount : Nat
  cleanScopes : Nat
  deriving DecidableEq, Repr

def renderFidelityReadyStatus (epoch scopes clean : Nat) : RenderFidelityStatus :=
  ⟨epoch, .isTrue, "RenderMatchesLive", "Every rendered token matches live", none, scopes, clean⟩

/-- The loop of `reduceRenderFidelity`: the clean scopes before the first divergence, and it. -/
def scanScopes : List (ScopeKey × ScopeResult) → Nat → Nat × Option RenderDivergence
  | [], clean => (clean, none)
  | (_, result) :: rest, clean =>
    if result.finished = false then scanScopes rest clean
    else match result.divergence with
      | some sample => (clean, some sample)
      | none => scanScopes rest (if result.clean then clean + 1 else clean)

def sortedScopes (scopes : List (ScopeKey × ScopeResult)) : List (ScopeKey × ScopeResult) :=
  scopes.insertionSort (fun a b => a.1.text ≤ b.1.text)

def reduceRenderFidelity (state : FidelityState) : RenderFidelityStatus :=
  match scanScopes (sortedScopes state.scopes) 0 with
  | (clean, some sample) =>
    ⟨state.epoch, .isFalse, "RenderDoesNotMatchLive",
      "Rendered token " ++ sample.token ++ " at " ++ sample.field ++ " does not match live",
      some sample, state.scopes.length, clean⟩
  | (clean, none) =>
    if clean ≠ state.scopes.length then
      ⟨state.epoch, .unknown, "Rechecking", "Waiting for every render scope in the current epoch",
        none, state.scopes.length, clean⟩
    else renderFidelityReadyStatus state.epoch state.scopes.length clean

def setScope (key : ScopeKey) (result : ScopeResult) (scopes : List (ScopeKey × ScopeResult)) :
    List (ScopeKey × ScopeResult) :=
  if scopes.any (fun entry => entry.1 = key) then
    scopes.map (fun entry => if entry.1 = key then (key, result) else entry)
  else scopes ++ [(key, result)]

def pendingScopes (keys : List TargetWatchKey) : List (ScopeKey × ScopeResult) :=
  keys.foldl (fun scopes key => setScope (.scope key) ⟨false, false, none⟩ scopes) []

namespace RenderFidelityGate

variable (gate : RenderFidelityGate) (target : ResourceReference)

/-- A new epoch with every scope pending. Epochs are `uint64`. -/
def begin (keys : List TargetWatchKey) : RenderFidelityGate × RenderFidelityStatus :=
  let epoch := (((gate target.key).map (·.epoch)).getD 0 + 1) % 2 ^ 64
  let state : FidelityState := ⟨epoch, pendingScopes keys⟩
  (Function.update gate target.key (some state), reduceRenderFidelity state)

def recordScope (epoch : Nat) (key : ScopeKey) (divergence : Option RenderDivergence) :
    RenderFidelityGate × Option RenderFidelityStatus :=
  match gate target.key with
  | none => (gate, none)
  | some state =>
    if state.epoch ≠ epoch then (gate, none)
    else match state.scopes.find? (fun entry => entry.1 = key) with
      | none => (gate, none)
      | some (_, result) =>
        -- within an epoch a clean replay does not undo a divergence
        if result.divergence ≠ none ∧ divergence = none then
          (gate, some (reduceRenderFidelity state))
        else
          let state' := { state with
            scopes := setScope key ⟨divergence.isNone, true, divergence⟩ state.scopes }
          (Function.update gate target.key (some state'), some (reduceRenderFidelity state'))

def fail (divergence : RenderDivergence) : RenderFidelityGate × RenderFidelityStatus :=
  let failed : ScopeResult := ⟨false, true, some divergence⟩
  let state' : FidelityState := match gate target.key with
    | none => ⟨1, [(.write, failed)]⟩
    | some state => { state with scopes := setScope .write failed state.scopes }
  (Function.update gate target.key (some state'), reduceRenderFidelity state')

def forget : RenderFidelityGate := Function.update gate target.key none

def status : RenderFidelityStatus :=
  match gate target.key with
  | none => renderFidelityReadyStatus 0 0 0
  | some state => reduceRenderFidelity state

def allowsWrites : Bool := decide ((gate.status target).state = .isTrue)

end RenderFidelityGate

/-! ## 1. When the gate is open -/

def ScopeResult.isClean (result : ScopeResult) : Bool :=
  result.finished && result.clean && result.divergence.isNone

theorem scanScopes_le (scopes : List (ScopeKey × ScopeResult)) (clean : Nat) :
    (scanScopes scopes clean).1 ≤ clean + scopes.length := by
  induction scopes generalizing clean with
  | nil => exact Nat.le_refl _
  | cons entry rest ih =>
    rw [scanScopes, List.length_cons]
    split
    · exact Nat.le_trans (ih clean) (by omega)
    · split
      · exact Nat.le_add_right _ _
      · split
        · exact Nat.le_trans (ih (clean + 1)) (by omega)
        · exact Nat.le_trans (ih clean) (by omega)

theorem scanScopes_all_clean (scopes : List (ScopeKey × ScopeResult)) (clean : Nat)
    (h : scanScopes scopes clean = (clean + scopes.length, none)) :
    ∀ entry ∈ scopes, entry.2.isClean = true := by
  -- an unfinished or unclean scope is not counted, so the count would fall short
  induction scopes generalizing clean with
  | nil => simp
  | cons entry rest ih =>
    have hle := scanScopes_le rest
    rw [scanScopes, List.length_cons] at h
    split at h
    · have hcount := hle clean
      rw [h] at hcount
      simp only at hcount
      omega
    · rename_i hfinal
      split at h
      · simp at h
      · rename_i hdiverge
        split at h
        · rename_i hclean
          have hrest := ih (clean + 1) (by rw [h]; congr 1; omega)
          intro e he
          rcases List.mem_cons.mp he with rfl | he
          · simp [ScopeResult.isClean, hclean, hdiverge] at hfinal ⊢
            exact hfinal
          · exact hrest e he
        · have hcount := hle clean
          rw [h] at hcount
          simp only at hcount
          omega

theorem reduceRenderFidelity_true (h : (reduceRenderFidelity state).state = .isTrue) :
    ∀ entry ∈ state.scopes, entry.2.isClean = true := by
  have hsort : (sortedScopes state.scopes).Perm state.scopes := List.perm_insertionSort _ _
  unfold reduceRenderFidelity at h
  cases hscan : scanScopes (sortedScopes state.scopes) 0 with
  | mk clean sample =>
    rw [hscan] at h
    cases sample with
    | some sample => simp at h
    | none =>
      simp only at h
      split at h
      · simp at h
      · rename_i hcount
        have hclean : clean = 0 + (sortedScopes state.scopes).length := by
          rw [hsort.length_eq]
          omega
        have hall := scanScopes_all_clean (sortedScopes state.scopes) 0 (by rw [hscan, hclean])
        exact fun entry hentry => hall entry (hsort.mem_iff.mpr hentry)

theorem allowsWrites_scopes {gate : RenderFidelityGate} {target : ResourceReference}
    {state : FidelityState} (hstate : gate target.key = some state)
    (h : gate.allowsWrites target = true) : ∀ entry ∈ state.scopes, entry.2.isClean = true := by
  have htrue : (gate.status target).state = .isTrue := of_decide_eq_true h
  rw [RenderFidelityGate.status, hstate] at htrue
  exact reduceRenderFidelity_true htrue

/-! ## 2. What the operations do to one target -/

theorem mem_setScope (h : entry ∈ setScope key result scopes) :
    entry = (key, result) ∨ entry ∈ scopes := by
  unfold setScope at h
  split at h
  · obtain ⟨old, hold, rfl⟩ := List.mem_map.mp h
    split
    · exact Or.inl rfl
    · exact Or.inr hold
  · rcases List.mem_append.mp h with h | h
    · exact Or.inr h
    · exact Or.inl (List.mem_singleton.mp h)

theorem pendingScopes_not_clean (keys : List TargetWatchKey) :
    ∀ entry ∈ pendingScopes keys, entry.2.isClean = false := by
  unfold pendingScopes
  -- on the keys, for any scopes that are not clean to begin with
  have hfold : ∀ scopes : List (ScopeKey × ScopeResult), (∀ entry ∈ scopes, entry.2.isClean = false) →
      ∀ entry ∈ keys.foldl (fun scopes key => setScope (.scope key) ⟨false, false, none⟩ scopes) scopes,
        entry.2.isClean = false := by
    induction keys with
    | nil => exact fun _ h => h
    | cons key keys ih =>
      intro scopes h
      refine ih _ (fun entry hentry => ?_)
      rcases mem_setScope hentry with rfl | hold
      · rfl
      · exact h entry hold
  exact hfold [] (by simp)

theorem reduceRenderFidelity_epoch (state : FidelityState) :
    (reduceRenderFidelity state).epoch = state.epoch := by
  unfold reduceRenderFidelity
  cases scanScopes (sortedScopes state.scopes) 0 with
  | mk clean sample =>
    cases sample with
    | some sample => rfl
    | none =>
      simp only
      split <;> rfl

/-- A recorded result belongs to the current epoch and changes at most the named scope. -/
theorem recordScope_spec {gate gate' : RenderFidelityGate} {target : ResourceReference} {epoch : Nat}
    {key : ScopeKey} {divergence : Option RenderDivergence} {status : RenderFidelityStatus}
    (h : gate.recordScope target epoch key divergence = (gate', some status)) :
    ∃ state, gate target.key = some state ∧ state.epoch = epoch ∧ status.epoch = epoch ∧
      (gate' = gate ∨ gate' = Function.update gate target.key (some { state with
        scopes := setScope key ⟨divergence.isNone, true, divergence⟩ state.scopes })) := by
  unfold RenderFidelityGate.recordScope at h
  split at h
  · simp at h
  · rename_i state hstates
    split at h
    · simp at h
    · rename_i hepoch
      have hepoch' : state.epoch = epoch := not_not.mp hepoch
      split at h
      · simp at h
      · split at h
        · obtain ⟨rfl, hstate⟩ := Prod.mk.inj h
          exact ⟨state, hstates, hepoch', by
            rw [← Option.some.inj hstate, reduceRenderFidelity_epoch, hepoch'], Or.inl rfl⟩
        · obtain ⟨rfl, hstate⟩ := Prod.mk.inj h
          exact ⟨state, hstates, hepoch', by
            rw [← Option.some.inj hstate, reduceRenderFidelity_epoch]
            exact hepoch', Or.inr rfl⟩

end GitopsReverser.Git
