import GitopsReverser.Git.GateSoundness
import GitopsReverser.Reasoning.Copies

/-!
# FidelityStatus — the recorded render fidelity status of each target

The gate has its own lock, and the record of its statuses is under the lock of the target watches.
A call that records a result in the gate publishes the status it got back in a second critical
section; a new epoch does both while it holds the lock of the target watches.
-/

namespace GitopsReverser.Watch

open Git Reasoning

/-! ## 1. Calls in two halves -/

/-- The gate, the record, the new epoch whose status is not recorded yet, and the calls that have
still to publish their status. -/
structure FidelityRecord where
  gate : RenderFidelityGate
  targetRenderFidelity : String → Option RenderFidelityStatus
  beginning : Option (String × RenderFidelityStatus)
  inFlight : List (String × RenderFidelityStatus)

def newFidelityRecord : FidelityRecord := ⟨fun _ => none, fun _ => none, none, []⟩

/-- The first half of a call acts on the gate, the second on the record. -/
inductive FidelityInput where
  | beginEpoch (target : ResourceReference) (keys : List TargetWatchKey)
  | beginRecorded
  | mark (target : ResourceReference) (epoch : Nat) (key : TargetWatchKey)
      (divergence : Option RenderDivergence)
  | fail (target : ResourceReference) (divergence : RenderDivergence)
  | publish (key : String) (status : RenderFidelityStatus)

namespace FidelityRecord

variable (s : FidelityRecord)

/-- `beginTargetRenderFidelityEpochLocked` up to the gate; its caller holds the lock. -/
def beginEpoch (target : ResourceReference) (keys : List TargetWatchKey) : FidelityRecord :=
  match s.beginning with
  | some _ => s
  | none =>
    let (gate, status) := s.gate.begin target keys
    { s with gate := gate, beginning := some (target.key, status) }

def beginRecorded : FidelityRecord :=
  match s.beginning with
  | none => s
  | some (key, status) =>
    { s with beginning := none
             targetRenderFidelity := Function.update s.targetRenderFidelity key (some status) }

/-- `MarkTargetRenderFidelityScopeClean` and `…Diverged` up to the gate. -/
def mark (target : ResourceReference) (epoch : Nat) (key : TargetWatchKey)
    (divergence : Option RenderDivergence) : FidelityRecord :=
  if epoch = 0 then s
  else match s.gate.recordScope target epoch (.scope key) divergence with
    | (_, none) => s
    | (gate, some status) =>
      { s with gate := gate, inFlight := (target.key, status) :: s.inFlight }

def fail (target : ResourceReference) (divergence : RenderDivergence) : FidelityRecord :=
  let (gate, status) := s.gate.fail target divergence
  { s with gate := gate, inFlight := (target.key, status) :: s.inFlight }

/-- `recordRenderFidelityStatus`, which waits while a new epoch holds the lock. -/
def publish (key : String) (status : RenderFidelityStatus) : FidelityRecord :=
  if s.beginning = none ∧ (key, status) ∈ s.inFlight then
    { s with targetRenderFidelity := Function.update s.targetRenderFidelity key (some status)
             inFlight := s.inFlight.erase (key, status) }
  else s

def step : FidelityInput → FidelityRecord
  | .beginEpoch target keys => s.beginEpoch target keys
  | .beginRecorded => s.beginRecorded
  | .mark target epoch key divergence => s.mark target epoch key divergence
  | .fail target divergence => s.fail target divergence
  | .publish key status => s.publish key status

def current (key : String) : Option RenderFidelityStatus := (s.gate key).map reduceRenderFidelity

/-- A status is published while it is the gate's, or while the gate's is in flight behind it. -/
def InTurn (s : FidelityRecord) : FidelityInput → Prop
  | .publish key status => s.beginning = none → (key, status) ∈ s.inFlight →
      ∀ now ∈ s.current key, now = status ∨ (key, now) ∈ s.inFlight.erase (key, status)
  | _ => True

instance (input : FidelityInput) : Decidable (s.InTurn input) :=
  match input with
  | .publish key status =>
    haveI : Decidable (∀ now ∈ s.current key,
        now = status ∨ (key, now) ∈ s.inFlight.erase (key, status)) :=
      match h : s.current key with
      | none => isTrue (fun _ hnow => nomatch hnow)
      | some now => decidable_of_iff
          (now = status ∨ (key, now) ∈ s.inFlight.erase (key, status)) (by simp)
    inferInstanceAs (Decidable (_ → _))
  | .beginEpoch _ _ | .beginRecorded | .mark _ _ _ _ | .fail _ _ => instDecidableTrue

/-! ## 2. No verdict of the gate is lost -/

/-- The gate's verdict is recorded or on its way, and a new epoch's status is only behind one that
is in flight. -/
structure Tracked (s : FidelityRecord) : Prop where
  covered : Covered s.current s.targetRenderFidelity (s.beginning.toList ++ s.inFlight)
  beginning : ∀ key status, s.beginning = some (key, status) → ∀ now ∈ s.current key,
    now = status ∨ (key, now) ∈ s.inFlight

theorem tracked_new : Tracked newFidelityRecord where
  covered := fun _ _ h => nomatch h
  beginning := fun _ _ h => nomatch h

variable {s}

theorem current_of_update {s' : FidelityRecord}
    (h : s'.gate = Function.update s.gate key (some state)) :
    s'.current = Function.update s.current key (some (reduceRenderFidelity state)) := by
  funext q
  unfold current
  rw [h]
  by_cases hq : q = key
  · subst hq
    simp
  · simp [Function.update_of_ne hq]

theorem Tracked.called (h : s.Tracked) {s' : FidelityRecord}
    (hgate : s'.gate = Function.update s.gate key (some state))
    (hrec : s'.targetRenderFidelity = s.targetRenderFidelity)
    (hbegin : s'.beginning = s.beginning)
    (hinF : s'.inFlight = (key, reduceRenderFidelity state) :: s.inFlight) :
    s'.Tracked := by
  have hcur := current_of_update hgate
  constructor
  · rw [hcur, hrec, hbegin, hinF]
    refine (h.covered.changed key (reduceRenderFidelity state)).mono (fun entry hentry => ?_)
    simp only [List.mem_append, List.mem_cons] at hentry ⊢
    tauto
  · intro q status hstatus now hnow
    rw [hcur] at hnow
    rw [hinF]
    by_cases hq : q = key
    · subst hq
      rw [Function.update_self] at hnow
      cases hnow
      exact .inr List.mem_cons_self
    · rw [Function.update_of_ne hq] at hnow
      rw [hbegin] at hstatus
      exact (h.beginning q status hstatus now hnow).imp id (List.mem_cons_of_mem _)

theorem Tracked.beginEpoch (h : s.Tracked) (target : ResourceReference)
    (keys : List TargetWatchKey) : Tracked (s.beginEpoch target keys) := by
  unfold FidelityRecord.beginEpoch
  cases hbegin : s.beginning with
  | some held => exact h
  | none =>
    have hcover := h.covered
    rw [hbegin] at hcover
    set s' : FidelityRecord :=
      { s with gate := (s.gate.begin target keys).1
               beginning := some (target.key, (s.gate.begin target keys).2) }
    have hcur : s'.current = Function.update s.current target.key (some (s.gate.begin target keys).2) :=
      current_of_update rfl
    constructor
    · rw [hcur]
      exact hcover.changed target.key _
    · rintro _ _ ⟨⟩ now hnow
      rw [hcur, Function.update_self] at hnow
      exact .inl (Option.some.inj hnow).symm

/-- While the new epoch held the lock nothing could be published, so a newer status is in flight. -/
theorem Tracked.beginRecorded (h : s.Tracked) : Tracked s.beginRecorded := by
  unfold FidelityRecord.beginRecorded
  cases hbegin : s.beginning with
  | none => exact h
  | some held =>
    obtain ⟨key, status⟩ := held
    have hcover := h.covered
    rw [hbegin] at hcover
    constructor
    · have harrived := hcover.arrived (k := key) (v := status) (fun now hnow => by
        simpa using h.beginning key status hbegin now hnow)
      rwa [Option.toList_some, List.singleton_append, List.erase_cons_head] at harrived
    · rintro _ _ ⟨⟩

theorem recordScope_update {gate gate' : RenderFidelityGate} {status : RenderFidelityStatus}
    (h : gate.recordScope target epoch key divergence = (gate', some status)) :
    ∃ state, gate' = Function.update gate target.key (some state) ∧
      status = reduceRenderFidelity state := by
  unfold RenderFidelityGate.recordScope at h
  cases hstate : gate target.key with
  | none =>
    rw [hstate] at h
    cases h
  | some state =>
    simp only [hstate] at h
    split at h
    · cases h
    · split at h
      · cases h
      · split at h
        -- a clean result after a divergence changes nothing
        · cases h
          exact ⟨state, by rw [← hstate, Function.update_eq_self], rfl⟩
        · cases h
          exact ⟨_, rfl, rfl⟩

theorem Tracked.mark (h : s.Tracked) (target : ResourceReference) (epoch : Nat)
    (key : TargetWatchKey) (divergence : Option RenderDivergence) :
    Tracked (s.mark target epoch key divergence) := by
  unfold FidelityRecord.mark
  split
  · exact h
  · cases hrec : s.gate.recordScope target epoch (.scope key) divergence with
    | mk gate status =>
      cases status with
      | none => exact h
      | some status =>
        obtain ⟨state, hgate, hstate⟩ := recordScope_update hrec
        rw [hstate]
        exact h.called hgate rfl rfl rfl

theorem Tracked.fail (h : s.Tracked) (target : ResourceReference) (divergence : RenderDivergence) :
    Tracked (s.fail target divergence) :=
  h.called rfl rfl rfl rfl

theorem Tracked.publish (h : s.Tracked)
    (hturn : s.InTurn (.publish key status)) : Tracked (s.publish key status) := by
  unfold FidelityRecord.publish
  split
  · rename_i henabled
    obtain ⟨hbegin, hmem⟩ := henabled
    have hcover := h.covered
    rw [hbegin] at hcover
    constructor
    · change Covered s.current _ (s.beginning.toList ++ _)
      rw [hbegin]
      exact hcover.arrived (hturn hbegin hmem)
    · intro q status' hstatus'
      exact absurd (hbegin.symm.trans hstatus') (by simp)
  · exact h

theorem Tracked.step (hturn : s.InTurn input) (h : s.Tracked) : Tracked (s.step input) := by
  cases input with
  | beginEpoch target keys => exact h.beginEpoch target keys
  | beginRecorded => exact h.beginRecorded
  | mark target epoch key divergence => exact h.mark target epoch key divergence
  | fail target divergence => exact h.fail target divergence
  | publish key status => exact h.publish hturn

/-! ## 3. The recorded status once the calls are over -/

def Quiet (s : FidelityRecord) (target : ResourceReference) : Prop :=
  ∀ status, (target.key, status) ∉ s.beginning.toList ++ s.inFlight

/-- In every interleaving in which each status is published in its turn, the status recorded for a
target with no call in flight is the verdict of the gate's latest epoch. -/
theorem recorded_status_is_the_gates (inputs : List FidelityInput)
    (hturn : AllSteps FidelityRecord.step InTurn newFidelityRecord inputs)
    (target : ResourceReference) :
    let s := inputs.foldl FidelityRecord.step newFidelityRecord
    s.Quiet target → s.gate target.key ≠ none →
      s.targetRenderFidelity target.key = some (s.gate.status target) := by
  intro s hquiet hbegun
  have h : s.Tracked := hturn.invariant (fun _ _ hinput h => h.step hinput) tracked_new
  obtain ⟨state, hstate⟩ := Option.ne_none_iff_exists'.mp hbegun
  have hcurrent : s.current target.key = some (s.gate.status target) := by
    simp [current, RenderFidelityGate.status, hstate]
  exact h.covered.settled hcurrent hquiet

end FidelityRecord

def fidelityTurns : List FidelityInput :=
  [.beginEpoch sampleTarget [sampleScope], .beginRecorded, .mark sampleTarget 1 sampleScope none,
    .publish sampleTarget.key (renderFidelityReadyStatus 1 1 1),
    .beginEpoch sampleTarget [sampleScope], .beginRecorded, .mark sampleTarget 2 sampleScope none,
    .publish sampleTarget.key (renderFidelityReadyStatus 2 1 1)]

theorem fidelityTurns_recorded :
    let s := fidelityTurns.foldl FidelityRecord.step newFidelityRecord
    s.targetRenderFidelity sampleTarget.key = some (s.gate.status sampleTarget) ∧
      s.gate.status sampleTarget = renderFidelityReadyStatus 2 1 1 := by
  have h := FidelityRecord.recorded_status_is_the_gates fidelityTurns (by decide) sampleTarget
  refine ⟨h ?_ (by decide), by decide⟩
  have hpending : (fidelityTurns.foldl FidelityRecord.step newFidelityRecord).beginning = none ∧
      (fidelityTurns.foldl FidelityRecord.step newFidelityRecord).inFlight = [] := by decide
  intro status hmem
  simp [hpending] at hmem

/-- A clean result of the first epoch is recorded in the gate, the second epoch begins, and only
then is the first epoch's status published. -/
def lateVerdict : List FidelityInput :=
  [.beginEpoch sampleTarget [sampleScope], .beginRecorded, .mark sampleTarget 1 sampleScope none,
    .beginEpoch sampleTarget [sampleScope], .beginRecorded,
    .publish sampleTarget.key (renderFidelityReadyStatus 1 1 1)]

/-- The old verdict replaces the new one and stays. -/
theorem late_verdict_replaces_the_new :
    let s := lateVerdict.foldl FidelityRecord.step newFidelityRecord
    s.beginning = none ∧ s.inFlight = [] ∧ (s.gate.status sampleTarget).epoch = 2 ∧
      (s.gate.status sampleTarget).state = .unknown ∧
      s.targetRenderFidelity sampleTarget.key = some (renderFidelityReadyStatus 1 1 1) := by
  decide

end GitopsReverser.Watch
