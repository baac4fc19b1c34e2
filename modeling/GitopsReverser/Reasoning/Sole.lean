import Mathlib

/-!
# Sole — one occurrence over several places
-/

namespace GitopsReverser.Reasoning

variable {α β : Type} {f g : α → Nat}

/-- Counted over all places there is one occurrence at most. -/
structure Sole (f : α → Nat) : Prop where
  once : ∀ x, f x ≤ 1
  place : ∀ x y, 0 < f x → 0 < f y → x = y

theorem Sole.mono (h : Sole f) (hle : ∀ x, g x ≤ f x) : Sole g where
  once := fun x => Nat.le_trans (hle x) (h.once x)
  place := fun x y hx hy => h.place x y (Nat.lt_of_lt_of_le hx (hle x)) (Nat.lt_of_lt_of_le hy (hle y))

theorem sole_at {x : α} (hone : f x ≤ 1) (helse : ∀ y, y ≠ x → f y = 0) : Sole f where
  once := by
    intro y
    by_cases hy : y = x
    · rw [hy]
      exact hone
    · rw [helse y hy]
      omega
  place := by
    have honly : ∀ y, 0 < f y → y = x := by
      intro y hpos
      by_contra hy
      rw [helse y hy] at hpos
      omega
    exact fun y z hy hz => (honly y hy).trans (honly z hz).symm

theorem Sole.sum_le_one (h : Sole f) {place : β → α} {xs : List β}
    (hdistinct : xs.Pairwise (fun x y => place x ≠ place y)) :
    (xs.map (fun x => f (place x))).sum ≤ 1 := by
  induction xs with
  | nil => simp
  | cons x xs ih =>
    obtain ⟨hhead, htail⟩ := List.pairwise_cons.mp hdistinct
    rw [List.map_cons, List.sum_cons]
    by_cases hx : f (place x) = 0
    · have := ih htail
      omega
    · -- where `x` has its occurrence no other place has one
      have hzero : (xs.map (fun y => f (place y))).sum = 0 := by
        refine List.sum_eq_zero (fun n hn => ?_)
        obtain ⟨y, hy, rfl⟩ := List.mem_map.mp hn
        by_contra hpos
        exact hhead y hy (h.place _ _ (by omega) (by omega))
      have := h.once (place x)
      omega

theorem eq_of_sum_le_one {xs : List β} {count : β → Nat} (h : (xs.map count).sum ≤ 1) {x y : β}
    (hx : x ∈ xs) (hy : y ∈ xs) (hposx : 0 < count x) (hposy : 0 < count y) : x = y := by
  induction xs with
  | nil => cases hx
  | cons z xs ih =>
    rw [List.map_cons, List.sum_cons] at h
    rcases List.mem_cons.mp hx with rfl | hx' <;> rcases List.mem_cons.mp hy with rfl | hy'
    · rfl
    · have : count y ≤ (xs.map count).sum :=
        List.single_le_sum (fun _ _ => Nat.zero_le _) _ (List.mem_map_of_mem hy')
      omega
    · have : count x ≤ (xs.map count).sum :=
        List.single_le_sum (fun _ _ => Nat.zero_le _) _ (List.mem_map_of_mem hx')
      omega
    · exact ih (by omega) hx' hy'

end GitopsReverser.Reasoning
