import Mathlib

/-!
# Tree — trees of scalars, lists and maps

A map is written out as its entries in the order of the keys, so that two maps with the same entries
are the same tree.
-/

namespace GitopsReverser.Reasoning

inductive Tree (κ σ : Type) where
  | leaf (a : σ)
  | list (items : List (Tree κ σ))
  | map (entries : List (κ × Tree κ σ))

namespace Tree

variable {κ σ τ : Type}

/-! ## 1. Induction, size, equality -/

@[induction_eliminator]
theorem induction {motive : Tree κ σ → Prop} (leaf : ∀ a, motive (.leaf a))
    (list : ∀ items, (∀ t ∈ items, motive t) → motive (.list items))
    (map : ∀ entries, (∀ e ∈ entries, motive e.2) → motive (.map entries)) (t : Tree κ σ) :
    motive t :=
  match t with
  | .leaf a => leaf a
  | .list items => list items (fun t _ => induction leaf list map t)
  | .map entries => map entries (fun e _ => induction leaf list map e.2)
termination_by sizeOf t
decreasing_by
  · rename_i hmem
    have := List.sizeOf_lt_of_mem hmem
    simp only [Tree.list.sizeOf_spec]
    omega
  · rename_i hmem
    have := List.sizeOf_lt_of_mem hmem
    have hpair : sizeOf e = 1 + sizeOf e.1 + sizeOf e.2 := by cases e; rfl
    simp only [Tree.map.sizeOf_spec]
    omega

def size : Tree κ σ → Nat
  | .leaf _ => 1
  | .list items => sizes items + 1
  | .map entries => entrySizes entries + 1
where
  sizes : List (Tree κ σ) → Nat
    | [] => 0
    | t :: items => t.size + sizes items
  entrySizes : List (κ × Tree κ σ) → Nat
    | [] => 0
    | (_, t) :: entries => t.size + entrySizes entries

theorem size_pos (t : Tree κ σ) : 0 < t.size := by
  cases t <;> simp [size]

theorem size_lt_of_mem_map {k : κ} {t : Tree κ σ} {entries : List (κ × Tree κ σ)}
    (h : (k, t) ∈ entries) : t.size < (Tree.map entries).size := by
  induction entries with
  | nil => exact absurd h (by simp)
  | cons e entries ih =>
    obtain ⟨l, u⟩ := e
    simp only [size, size.entrySizes] at ih ⊢
    rcases List.mem_cons.mp h with heq | h
    · obtain ⟨-, rfl⟩ := Prod.mk.inj heq
      omega
    · have := ih h
      omega

def beq [DecidableEq κ] [DecidableEq σ] : Tree κ σ → Tree κ σ → Bool
  | .leaf a, .leaf b => decide (a = b)
  | .list items, .list items' => beqs items items'
  | .map entries, .map entries' => beqEntries entries entries'
  | _, _ => false
where
  beqs : List (Tree κ σ) → List (Tree κ σ) → Bool
    | [], [] => true
    | t :: items, t' :: items' => t.beq t' && beqs items items'
    | _, _ => false
  beqEntries : List (κ × Tree κ σ) → List (κ × Tree κ σ) → Bool
    | [], [] => true
    | (k, t) :: entries, (k', t') :: entries' =>
      decide (k = k') && t.beq t' && beqEntries entries entries'
    | _, _ => false

theorem beq_iff [DecidableEq κ] [DecidableEq σ] (t : Tree κ σ) :
    ∀ t' : Tree κ σ, t.beq t' = true ↔ t = t' := by
  induction t with
  | leaf a =>
    intro t'
    cases t' <;> simp [beq]
  | list items ih =>
    have hitem : ∀ items' : List (Tree κ σ), beq.beqs items items' = true ↔ items = items' := by
      induction items with
      | nil =>
        intro items'
        cases items' <;> simp [beq.beqs]
      | cons u items ihs =>
        intro items'
        have hall := List.forall_mem_cons.mp ih
        cases items' with
        | nil => simp [beq.beqs]
        | cons u' items' =>
          rw [beq.beqs, Bool.and_eq_true, hall.1 u', ihs hall.2 items', List.cons.injEq]
    intro t'
    cases t' with
    | list items' => rw [beq, hitem items', Tree.list.injEq]
    | _ => simp [beq]
  | map entries ih =>
    have hentry : ∀ entries' : List (κ × Tree κ σ),
        beq.beqEntries entries entries' = true ↔ entries = entries' := by
      induction entries with
      | nil =>
        intro entries'
        cases entries' <;> simp [beq.beqEntries]
      | cons e entries ihs =>
        intro entries'
        obtain ⟨k, u⟩ := e
        have hall := List.forall_mem_cons.mp ih
        cases entries' with
        | nil => simp [beq.beqEntries]
        | cons e' entries' =>
          obtain ⟨k', u'⟩ := e'
          rw [beq.beqEntries, Bool.and_eq_true, Bool.and_eq_true, decide_eq_true_eq,
            hall.1 u', ihs hall.2 entries', List.cons.injEq, Prod.mk.injEq]
    intro t'
    cases t' with
    | map entries' => rw [beq, hentry entries', Tree.map.injEq]
    | _ => simp [beq]

instance [DecidableEq κ] [DecidableEq σ] : DecidableEq (Tree κ σ) := fun t t' =>
  decidable_of_iff (t.beq t' = true) (t.beq_iff t')

/-! ## 2. Looking up -/

section Lookup

variable [BEq κ] [LawfulBEq κ]

variable {entries : List (κ × τ)}

theorem mem_of_lookup {k : κ} {v : τ} (h : entries.lookup k = some v) : (k, v) ∈ entries := by
  induction entries with
  | nil => exact absurd h (by simp)
  | cons e entries ih =>
    obtain ⟨l, w⟩ := e
    rw [List.lookup_cons] at h
    split at h
    · rename_i heq
      obtain rfl := eq_of_beq heq
      obtain rfl := Option.some.inj h
      exact List.mem_cons_self
    · exact List.mem_cons_of_mem _ (ih h)

theorem size_lookup_lt {k : κ} {t : Tree κ σ} {entries : List (κ × Tree κ σ)}
    (h : entries.lookup k = some t) : t.size < (Tree.map entries).size :=
  size_lt_of_mem_map (mem_of_lookup h)

end Lookup

/-! ## 3. Maps in the order of their keys -/

section Ordered

variable [LinearOrder κ]

def sortedKeys (keys : List κ) : List κ := keys.dedup.insertionSort (· ≤ ·)

def tabulate (keys : List κ) (f : κ → Option τ) : List (κ × τ) :=
  keys.filterMap (fun k => (f k).map (fun v => (k, v)))

end Ordered

/-! ## 4. Changing the leaves -/

def mapLeaves (f : σ → τ) : Tree κ σ → Tree κ τ
  | .leaf a => .leaf (f a)
  | .list items => .list (mapItems items)
  | .map entries => .map (mapEntries entries)
where
  mapItems : List (Tree κ σ) → List (Tree κ τ)
    | [] => []
    | t :: items => t.mapLeaves f :: mapItems items
  mapEntries : List (κ × Tree κ σ) → List (κ × Tree κ τ)
    | [] => []
    | (k, t) :: entries => (k, t.mapLeaves f) :: mapEntries entries

def traverse (f : σ → Option τ) : Tree κ σ → Option (Tree κ τ)
  | .leaf a => (f a).map .leaf
  | .list items => (traverseItems items).map .list
  | .map entries => (traverseEntries entries).map .map
where
  traverseItems : List (Tree κ σ) → Option (List (Tree κ τ))
    | [] => some []
    | t :: items => (t.traverse f).bind (fun u => (traverseItems items).map (u :: ·))
  traverseEntries : List (κ × Tree κ σ) → Option (List (κ × Tree κ τ))
    | [] => some []
    | (k, t) :: entries =>
      (t.traverse f).bind (fun u => (traverseEntries entries).map ((k, u) :: ·))

end Tree

end GitopsReverser.Reasoning
