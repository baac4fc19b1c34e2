import Mathlib

/-!
# Copies — a copy of a map that is brought up to date by later writes

A change of the map and the write that copies it are two steps, so several writes can be on their
way at once and arrive in any order.
-/

namespace GitopsReverser.Reasoning

variable {K V : Type}

/-- Every current value has been copied, or its copy is on its way. -/
def Covered (current copy : K → Option V) (onTheWay : List (K × V)) : Prop :=
  ∀ k v, current k = some v → copy k = some v ∨ (k, v) ∈ onTheWay

variable {current copy : K → Option V} {onTheWay : List (K × V)}

section

variable (h : Covered current copy onTheWay)

include h

theorem Covered.mono {onTheWay' : List (K × V)}
    (hsub : onTheWay ⊆ onTheWay') : Covered current copy onTheWay' :=
  fun k v hv => (h k v hv).imp id (fun hmem => hsub hmem)

theorem Covered.changed [DecidableEq K] (k : K) (v : V) :
    Covered (Function.update current k (some v)) copy ((k, v) :: onTheWay) := by
  intro q w hw
  by_cases hq : q = k
  · subst hq
    rw [Function.update_self] at hw
    cases hw
    exact .inr List.mem_cons_self
  · rw [Function.update_of_ne hq] at hw
    exact (h q w hw).imp id (List.mem_cons_of_mem _)

theorem Covered.arrived [DecidableEq K] [DecidableEq V] {k : K} {v : V}
    (hcur : ∀ w, current k = some w → w = v ∨ (k, w) ∈ onTheWay.erase (k, v)) :
    Covered current (Function.update copy k (some v)) (onTheWay.erase (k, v)) := by
  intro q w hw
  by_cases hq : q = k
  · subst hq
    rw [Function.update_self]
    exact (hcur w hw).imp (congrArg some ·.symm) id
  · rw [Function.update_of_ne hq]
    refine (h q w hw).imp id (fun hmem => ?_)
    exact (List.mem_erase_of_ne (fun heq => hq (Prod.mk.inj heq).1)).mpr hmem

theorem Covered.settled {k : K} {v : V}
    (hv : current k = some v) (hnone : ∀ w, (k, w) ∉ onTheWay) : copy k = some v :=
  (h k v hv).resolve_right (hnone v)

end

end GitopsReverser.Reasoning
