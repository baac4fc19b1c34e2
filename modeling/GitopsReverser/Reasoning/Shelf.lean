import GitopsReverser.Reasoning.Sole

/-!
# Shelf — tagged elements that stand at places

At every place stands a list of elements, and an element may have a tag there. As long as no tag
stands twice, a shelf is a map from tags to elements, and replacing, adding and removing an element
are the updates of this map.
-/

namespace GitopsReverser.Reasoning

variable {κ α ι : Type} [DecidableEq ι] (tag : κ → α → Option ι)

def Holds (shelf : κ → List α) (i : ι) (a : α) : Prop := ∃ p, a ∈ shelf p ∧ tag p a = some i

def Single (shelf : κ → List α) : Prop :=
  ∀ i, Sole (fun p => (shelf p).countP (fun a => tag p a = some i))

variable {tag} {shelf shelf' : κ → List α} {p : κ} {i : ι} {a a' : α} {l l' : List α}

theorem countP_pos_of_mem (ha : a ∈ shelf p) (hi : tag p a = some i) :
    0 < (shelf p).countP (fun a => tag p a = some i) :=
  List.countP_pos_iff.mpr ⟨a, ha, by simpa using hi⟩

theorem Single.eq_of_split (h : Single tag shelf) (hsplit : shelf p = l ++ a :: l')
    (hi : tag p a = some i) {q : κ} {b : α} (hb : b ∈ shelf q) (hbi : tag q b = some i) :
    q = p ∧ b = a ∧ ∀ c ∈ l ++ l', tag p c ≠ some i := by
  have hmem : a ∈ shelf p := by simp [hsplit]
  obtain rfl := (h i).place q p (countP_pos_of_mem hb hbi) (countP_pos_of_mem hmem hi)
  have honce := (h i).once q
  simp only [hsplit, List.countP_append, List.countP_cons, hi, decide_true, if_true] at honce
  have hother : ∀ c ∈ l ++ l', tag q c ≠ some i := by
    intro c hc hci
    have hpos : 0 < (l ++ l').countP (fun a => tag q a = some i) :=
      List.countP_pos_iff.mpr ⟨c, hc, by simpa using hci⟩
    rw [List.countP_append] at hpos
    omega
  refine ⟨rfl, ?_, hother⟩
  rw [hsplit] at hb
  rcases List.mem_append.mp hb with hb | hb
  · exact absurd hbi (hother b (List.mem_append_left _ hb))
  · rcases List.mem_cons.mp hb with rfl | hb
    · rfl
    · exact absurd hbi (hother b (List.mem_append_right _ hb))

omit [DecidableEq ι] in
theorem holds_congr {x : α} (h : ∀ q, tag q x = some i → (x ∈ shelf' q ↔ x ∈ shelf q)) :
    Holds tag shelf' i x ↔ Holds tag shelf i x :=
  ⟨fun ⟨q, hx, hi⟩ => ⟨q, (h q hi).mp hx, hi⟩, fun ⟨q, hx, hi⟩ => ⟨q, (h q hi).mpr hx, hi⟩⟩

/-! ## Updates -/

variable [DecidableEq κ]

theorem Single.replaced (h : Single tag shelf) (hsplit : shelf p = l ++ a :: l')
    (hi : tag p a = some i) (hi' : tag p a' = some i)
    (hafter : ∀ q, shelf' q = if q = p then l ++ a' :: l' else shelf q) :
    Single tag shelf' ∧
      ∀ j x, Holds tag shelf' j x ↔ if j = i then x = a' else Holds tag shelf j x := by
  have hcount : ∀ j q, (shelf' q).countP (fun a => tag q a = some j) =
      (shelf q).countP (fun a => tag q a = some j) := by
    intro j q
    rw [hafter]
    split
    · rename_i hq
      subst hq
      simp only [hsplit, List.countP_append, List.countP_cons, hi, hi']
    · rfl
  refine ⟨fun j => ?_, fun j x => ?_⟩
  · simp only [hcount]
    exact h j
  · split
    · rename_i hj
      subst hj
      constructor
      · rintro ⟨q, hx, hxj⟩
        rw [hafter] at hx
        split at hx
        · rename_i hq
          subst hq
          have hother := (h.eq_of_split hsplit hi (by simp [hsplit]) hi).2.2
          rcases List.mem_append.mp hx with hx | hx
          · exact absurd hxj (hother x (List.mem_append_left _ hx))
          · rcases List.mem_cons.mp hx with rfl | hx
            · rfl
            · exact absurd hxj (hother x (List.mem_append_right _ hx))
        · rename_i hq
          exact absurd (h.eq_of_split hsplit hi hx hxj).1 hq
      · rintro rfl
        exact ⟨p, by simp [hafter], hi'⟩
    · rename_i hj
      -- an element with another tag stands where it stood
      refine holds_congr (fun q hxj => ?_)
      rw [hafter]
      split
      · rename_i hq
        subst hq
        have hxa : x ≠ a := fun hxa => hj (Option.some.inj (hxj.symm.trans (hxa ▸ hi)))
        have hxa' : x ≠ a' := fun hxa => hj (Option.some.inj (hxj.symm.trans (hxa ▸ hi')))
        simp [hsplit, hxa, hxa']
      · exact Iff.rfl

theorem Single.added (h : Single tag shelf) (hfree : ∀ x, ¬ Holds tag shelf i x)
    (hi : tag p a = some i) (hperm : l.Perm (shelf p ++ [a]))
    (hafter : ∀ q, shelf' q = if q = p then l else shelf q) :
    Single tag shelf' ∧ ∀ j x, Holds tag shelf' j x ↔ if j = i then x = a else Holds tag shelf j x := by
  have hcount : ∀ j q, (shelf' q).countP (fun a => tag q a = some j) =
      (shelf q).countP (fun a => tag q a = some j) + if q = p ∧ j = i then 1 else 0 := by
    intro j q
    rw [hafter]
    by_cases hq : q = p
    · subst hq
      rw [if_pos rfl, hperm.countP_eq, List.countP_append, List.countP_singleton]
      simp [hi, eq_comm]
    · simp [hq]
  have hnone : ∀ q, (shelf q).countP (fun a => tag q a = some i) = 0 := by
    intro q
    refine List.countP_eq_zero.mpr (fun x hx => ?_)
    simpa using fun hxi => hfree x ⟨q, hx, hxi⟩
  refine ⟨fun j => ?_, fun j x => ?_⟩
  · by_cases hj : j = i
    · subst hj
      refine sole_at (x := p) ?_ ?_
      · simp [hcount, hnone]
      · intro q hq
        simp [hcount, hnone, hq]
    · refine (h j).mono (fun q => ?_)
      simp [hcount, hj]
  · split
    · rename_i hj
      subst hj
      constructor
      · rintro ⟨q, hx, hxj⟩
        rw [hafter] at hx
        split at hx
        · rename_i hq
          subst hq
          rcases List.mem_append.mp (hperm.mem_iff.mp hx) with hx | hx
          · exact absurd ⟨q, hx, hxj⟩ (hfree x)
          · exact List.mem_singleton.mp hx
        · exact absurd ⟨q, hx, hxj⟩ (hfree x)
      · rintro rfl
        exact ⟨p, by simp [hafter, hperm.mem_iff], hi⟩
    · rename_i hj
      refine holds_congr (fun q hxj => ?_)
      rw [hafter]
      split
      · rename_i hq
        subst hq
        have hxa : x ≠ a := fun hxa => hj (Option.some.inj (hxj.symm.trans (hxa ▸ hi)))
        simp [hperm.mem_iff, hxa]
      · exact Iff.rfl

theorem Single.removed (h : Single tag shelf) (hsplit : shelf p = l ++ a :: l')
    (hi : tag p a = some i) (hafter : ∀ q, shelf' q = if q = p then l ++ l' else shelf q) :
    Single tag shelf' ∧ ∀ j x, Holds tag shelf' j x ↔ j ≠ i ∧ Holds tag shelf j x := by
  have hmem : ∀ q j x, tag q x = some j → (x ∈ shelf' q ↔ j ≠ i ∧ x ∈ shelf q) := by
    intro q j x hxj
    rw [hafter]
    by_cases hq : q = p
    · subst hq
      rw [if_pos rfl]
      have hother := (h.eq_of_split hsplit hi (by simp [hsplit]) hi).2.2
      by_cases hj : j = i
      · subst hj
        simp only [ne_eq, not_true_eq_false, false_and, iff_false]
        exact fun hx => hother x hx hxj
      · have hxa : x ≠ a := fun hxa => hj (Option.some.inj (hxj.symm.trans (hxa ▸ hi)))
        simp [hsplit, hxa, hj]
    · rw [if_neg hq]
      refine ⟨fun hx => ⟨?_, hx⟩, And.right⟩
      rintro rfl
      exact hq (h.eq_of_split hsplit hi hx hxj).1
  refine ⟨fun j => (h j).mono (fun q => ?_), fun j x => ?_⟩
  · rw [hafter]
    split
    · rename_i hq
      subst hq
      simp only [hsplit, List.countP_append, List.countP_cons]
      omega
    · exact Nat.le_refl _
  · constructor
    · rintro ⟨q, hx, hxj⟩
      obtain ⟨hj, hx⟩ := (hmem q j x hxj).mp hx
      exact ⟨hj, q, hx, hxj⟩
    · rintro ⟨hj, q, hx, hxj⟩
      exact ⟨q, (hmem q j x hxj).mpr ⟨hj, hx⟩, hxj⟩

end GitopsReverser.Reasoning
