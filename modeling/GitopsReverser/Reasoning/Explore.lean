import Mathlib

/-!
# Explore — walks over a graph that remember where they have been

A walk marks what it meets. `Explores` says what a walk from some nodes does to the marks, whatever
they were before; a walk from no marks finds what is reachable (`Explores.mem_iff`). `Room` bounds
the depth: every level marks a new node.
-/

namespace GitopsReverser.Reasoning

open Relation (ReflTransGen)

variable {α : Type} {next : α → α → Prop} {a b x : α} {nodes s t u A B : Set α} {depth : ℕ}

/-! ## 1. Marks -/

/-- `t` has the marks of `s`, the nodes of `A`, and what these lead to as far as it is not hidden
    behind a mark of `s`. -/
structure Explores (next : α → α → Prop) (s A t : Set α) : Prop where
  keeps : s ⊆ t
  start : A ⊆ t
  sound : ∀ x ∈ t, x ∈ s ∨ ∃ a ∈ A, ReflTransGen next a x
  closed : ∀ x ∈ t, x ∉ s → ∀ y, next x y → y ∈ t

theorem Explores.of_subset (h : A ⊆ s) : Explores next s A s :=
  ⟨subset_rfl, h, fun _ hx => .inl hx, fun _ hx hns => absurd hx hns⟩

theorem Explores.trans (h₁ : Explores next s A t) (h₂ : Explores next t B u) :
    Explores next s (A ∪ B) u where
  keeps := h₁.keeps.trans h₂.keeps
  start := Set.union_subset (h₁.start.trans h₂.keeps) h₂.start
  sound := by
    intro x hx
    rcases h₂.sound x hx with ht | ⟨b, hb, hbx⟩
    · rcases h₁.sound x ht with hs | ⟨a, ha, hax⟩
      · exact .inl hs
      · exact .inr ⟨a, .inl ha, hax⟩
    · exact .inr ⟨b, .inr hb, hbx⟩
  closed := by
    intro x hx hns y hxy
    by_cases ht : x ∈ t
    · exact h₂.keeps (h₁.closed x ht hns y hxy)
    · exact h₂.closed x hx ht y hxy

/-- A node is marked first, then the walk goes on from its successors. -/
theorem Explores.expand (h : Explores next (insert a s) {b | next a b} t) : Explores next s {a} t where
  keeps := (Set.subset_insert a s).trans h.keeps
  start := Set.singleton_subset_iff.mpr (h.keeps (Set.mem_insert a s))
  sound := by
    intro x hx
    rcases h.sound x hx with hin | ⟨b, hab, hbx⟩
    · rcases Set.mem_insert_iff.mp hin with rfl | hs
      · exact .inr ⟨x, rfl, .refl⟩
      · exact .inl hs
    · exact .inr ⟨a, rfl, hbx.head hab⟩
  closed := by
    intro x hx hns y hxy
    by_cases hxa : x = a
    · exact h.start (hxa ▸ hxy)
    · exact h.closed x hx (fun hin => (Set.mem_insert_iff.mp hin).elim hxa hns) y hxy

theorem Explores.mem_iff (h : Explores next s A t) (hs : ∀ x ∈ s, ∀ y, next x y → y ∈ s) :
    x ∈ t ↔ x ∈ s ∨ ∃ a ∈ A, ReflTransGen next a x := by
  refine ⟨h.sound x, ?_⟩
  rintro (hx | ⟨a, ha, hax⟩)
  · exact h.keeps hx
  · induction hax with
    | refl => exact h.start ha
    | @tail y z _ hyz ih =>
      by_cases hys : y ∈ s
      · exact h.keeps (hs y hys z hyz)
      · exact h.closed y ih hys z hyz

/-! ## 2. Depth -/

/-- Fewer than `depth` of the nodes are still unmarked. -/
def Room (nodes s : Set α) (depth : ℕ) : Prop := (nodes \ s).ncard < depth

theorem Room.mono (hfinite : nodes.Finite) (h : Room nodes s depth) (hst : s ⊆ t) : Room nodes t depth :=
  (Set.ncard_le_ncard (Set.sdiff_subset_sdiff_right hst) hfinite.sdiff).trans_lt h

theorem Room.mark (hfinite : nodes.Finite) (h : Room nodes s (depth + 1)) (ha : a ∈ nodes)
    (hs : a ∉ s) : Room nodes (insert a s) depth := by
  have hlt : (nodes \ insert a s).ncard < (nodes \ s).ncard := by
    refine Set.ncard_lt_ncard ⟨Set.sdiff_subset_sdiff_right (Set.subset_insert a s), fun hsub => ?_⟩
      hfinite.sdiff
    exact (hsub ⟨ha, hs⟩).2 (Set.mem_insert a s)
  exact hlt.trans_le (Nat.lt_succ_iff.mp h)

theorem room_of_list {l : List α} (h : l.length < depth) : Room {x | x ∈ l} s depth := by
  classical
  have hle : ({x | x ∈ l} : Set α).ncard ≤ l.length := by
    rw [show ({x | x ∈ l} : Set α) = l.toFinset by ext x; simp, Set.ncard_coe_finset]
    exact List.toFinset_card_le l
  exact ((Set.ncard_le_ncard Set.sdiff_subset l.finite_toSet).trans hle).trans_lt h

theorem Explores.foldl {σ ι : Type} {f : σ → ι → σ} (marked : σ → Set α) (starts : ι → Set α)
    (xs : List ι) (hfinite : nodes.Finite) (h : ∀ st, ∀ x ∈ xs, Room nodes (marked st) depth →
      Explores next (marked st) (starts x) (marked (f st x)))
    (st : σ) (hroom : Room nodes (marked st) depth) :
    Explores next (marked st) {a | ∃ x ∈ xs, a ∈ starts x} (marked (xs.foldl f st)) := by
  induction xs generalizing st with
  | nil => exact .of_subset (by simp)
  | cons x xs ih =>
    have hx := h st x List.mem_cons_self hroom
    have hrest := hx.trans (ih (fun st y hy => h st y (List.mem_cons_of_mem x hy)) (f st x)
      (hroom.mono hfinite hx.keeps))
    have hall : {a | ∃ y ∈ x :: xs, a ∈ starts y} = starts x ∪ {a | ∃ y ∈ xs, a ∈ starts y} := by
      ext a
      simp
    rw [hall]
    exact hrest

/-- Two walks that agree as long as there is room. -/
theorem Room.foldl_eq {σ ι : Type} {f g : σ → ι → σ} {marked : σ → Set α} {xs : List ι}
    (hfinite : nodes.Finite) (h : ∀ st, ∀ x ∈ xs, Room nodes (marked st) depth →
      g st x = f st x ∧ marked st ⊆ marked (f st x))
    {st : σ} (hroom : Room nodes (marked st) depth) : xs.foldl g st = xs.foldl f st := by
  induction xs generalizing st with
  | nil => rfl
  | cons x xs ih =>
    obtain ⟨heq, hsub⟩ := h st x List.mem_cons_self hroom
    rw [List.foldl_cons, List.foldl_cons, heq]
    exact ih (fun st y hy => h st y (List.mem_cons_of_mem x hy)) (hroom.mono hfinite hsub)

/-! ## 3. Walks that cut cycles on their path -/

/-- What a node leads to, a successor leads to without it. -/
theorem reach_avoiding (h : ReflTransGen next a b) :
    a = b ∨ ∃ c, next a c ∧ c ≠ a ∧ ReflTransGen (fun x y => next x y ∧ y ≠ a) c b := by
  induction h with
  | refl => exact .inl rfl
  | @tail y z _ hyz ih =>
    by_cases hza : z = a
    · exact .inl hza.symm
    · rcases ih with rfl | ⟨c, hac, hca, hcy⟩
      · exact .inr ⟨z, hyz, hza, .refl⟩
      · exact .inr ⟨c, hac, hca, hcy.tail ⟨hyz, hza⟩⟩

end GitopsReverser.Reasoning
