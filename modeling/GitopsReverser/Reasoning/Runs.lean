import Mathlib

/-!
# Runs — invariants of a machine driven by inputs
-/

namespace GitopsReverser.Reasoning

variable {σ ι : Type} (step : σ → ι → σ)

/-- Every input of the run meets the condition in the state it is taken in. -/
def AllSteps (ok : σ → ι → Prop) : σ → List ι → Prop
  | _, [] => True
  | s, i :: inputs => ok s i ∧ AllSteps ok (step s i) inputs

instance (ok : σ → ι → Prop) [∀ s i, Decidable (ok s i)] (s : σ) (inputs : List ι) :
    Decidable (AllSteps step ok s inputs) :=
  match inputs with
  | [] => instDecidableTrue
  | i :: rest =>
    haveI := instDecidableAllSteps ok (step s i) rest
    instDecidableAnd

variable {step}

variable {P : σ → Prop} {inputs : List ι} {ok : σ → ι → Prop} {s : σ}

/-- What every step that meets the condition preserves holds at the end of the run. -/
theorem AllSteps.invariant (hstep : ∀ s i, ok s i → P s → P (step s i))
    (hall : AllSteps step ok s inputs) (hs : P s) : P (inputs.foldl step s) := by
  induction inputs generalizing s with
  | nil => exact hs
  | cons i inputs ih => exact ih hall.2 (hstep s i hall.1 hs)

theorem AllSteps.mono {ok ok' : σ → ι → Prop} (hstep : ∀ s i, ok s i → P s → P (step s i))
    (himp : ∀ s i, ok s i → P s → ok' s i) (hall : AllSteps step ok s inputs) (hs : P s) :
    AllSteps step ok' s inputs := by
  induction inputs generalizing s with
  | nil => trivial
  | cons i inputs ih => exact ⟨himp s i hall.1 hs, ih hall.2 (hstep s i hall.1 hs)⟩

theorem AllSteps.of_forall (h : ∀ s i, ok s i) (s : σ) (inputs : List ι) :
    AllSteps step ok s inputs := by
  induction inputs generalizing s with
  | nil => trivial
  | cons i inputs ih => exact ⟨h s i, ih (step s i)⟩

/-- A machine that carries a record of the run meets the condition along with the machine itself. -/
theorem AllSteps.lift {τ : Type} {step' : τ → ι → τ} (machine : τ → σ)
    (hmachine : ∀ t i, machine (step' t i) = step (machine t) i) {t : τ}
    (hall : AllSteps step ok (machine t) inputs) :
    AllSteps step' (fun t i => ok (machine t) i) t inputs := by
  induction inputs generalizing t with
  | nil => trivial
  | cons i inputs ih =>
    refine ⟨hall.1, ih ?_⟩
    rw [hmachine]
    exact hall.2

theorem AllSteps.congr {ok ok' : σ → ι → Prop} (hstep : ∀ s i, ok s i → P s → P (step s i))
    (hiff : ∀ s i, P s → (ok s i ↔ ok' s i)) (hs : P s)
    (inputs : List ι) : AllSteps step ok s inputs ↔ AllSteps step ok' s inputs := by
  induction inputs generalizing s with
  | nil => exact Iff.rfl
  | cons i inputs ih =>
    constructor
    · rintro ⟨h, hall⟩
      exact ⟨(hiff s i hs).mp h, (ih (hstep s i h hs)).mp hall⟩
    · rintro ⟨h', hall⟩
      have h := (hiff s i hs).mpr h'
      exact ⟨h, (ih (hstep s i h hs)).mpr hall⟩

/-! ## Steps that may fail -/

variable {ε : Type} (act : σ → ι → Except ε σ)

/-- Every input meets the condition in the state it is taken in, as far as the run gets. -/
def Throughout (ok : σ → ι → Prop) : σ → List ι → Prop
  | _, [] => True
  | s, i :: inputs => ok s i ∧
      match act s i with
      | .error _ => True
      | .ok s' => Throughout ok s' inputs

instance (ok : σ → ι → Prop) [∀ s i, Decidable (ok s i)] (s : σ) (inputs : List ι) :
    Decidable (Throughout act ok s inputs) :=
  match inputs with
  | [] => instDecidableTrue
  | i :: rest =>
    haveI : Decidable (match act s i with
        | .error _ => True
        | .ok s' => Throughout act ok s' rest) :=
      match act s i with
      | .error _ => instDecidableTrue
      | .ok s' => instDecidableThroughout ok s' rest
    instDecidableAnd

variable {act}

theorem Throughout.next {s s' : σ} {i : ι} (hall : Throughout act ok s (i :: inputs))
    (h : act s i = .ok s') :
    Throughout act ok s' inputs := by
  have hrest := hall.2
  rw [h] at hrest
  exact hrest

theorem Throughout.cons {i : ι} (h : ok s i)
    (hrest : ∀ s', act s i = .ok s' → Throughout act ok s' inputs) :
    Throughout act ok s (i :: inputs) := by
  refine ⟨h, ?_⟩
  cases hs : act s i with
  | error e => trivial
  | ok s' => exact hrest s' hs

/-- What every step that meets the condition preserves holds at the end of a run that gets there. -/
theorem Throughout.invariant {s s' : σ}
    (hstep : ∀ s s', ∀ i ∈ inputs, ok s i → act s i = .ok s' → P s → P s')
    (hall : Throughout act ok s inputs) (hs : P s)
    (hrun : inputs.foldlM act s = .ok s') : P s' := by
  induction inputs generalizing s with
  | nil =>
    cases hrun
    exact hs
  | cons i inputs ih =>
    rw [List.foldlM_cons] at hrun
    cases hi : act s i with
    | error e =>
      rw [hi] at hrun
      cases hrun
    | ok s₁ =>
      rw [hi] at hrun
      exact ih (fun t t' j hj => hstep t t' j (List.mem_cons_of_mem i hj)) (hall.next hi)
        (hstep s s₁ i (by simp) hall.1 hi hs) hrun

theorem Throughout.mono {ok ok' : σ → ι → Prop}
    (hstep : ∀ s s', ∀ i ∈ inputs, ok s i → act s i = .ok s' → P s → P s')
    (himp : ∀ s, ∀ i ∈ inputs, ok s i → P s → ok' s i) (hall : Throughout act ok s inputs)
    (hs : P s) : Throughout act ok' s inputs := by
  induction inputs generalizing s with
  | nil => trivial
  | cons i inputs ih =>
    refine .cons (himp s i (by simp) hall.1 hs) (fun s₁ hi => ?_)
    exact ih (fun t t' j hj => hstep t t' j (List.mem_cons_of_mem i hj))
      (fun t j hj => himp t j (List.mem_cons_of_mem i hj)) (hall.next hi)
      (hstep s s₁ i (by simp) hall.1 hi hs)

end GitopsReverser.Reasoning
