import Mathlib

/-!
# Lists — replacing an element, mapping, putting lists together
-/

namespace GitopsReverser.Reasoning

/-! ## 1. Lists with the same image -/

variable {α β : Type} {l : List α} {R : α → β → Prop} {l' : List β} {f : α → Option β} {r : List β}

theorem exists_of_map_eq {f : α → β} {l l' : List α} (h : l'.map f = l.map f) {i : Nat} {a' : α}
    (ha : l'[i]? = some a') : ∃ a, l[i]? = some a ∧ f a = f a' := by
  have hmap := congrArg (fun l => l[i]?) h
  simp only [List.getElem?_map, ha, Option.map_some] at hmap
  exact Option.map_eq_some_iff.mp hmap.symm

theorem length_of_map_eq {f : α → β} {l l' : List α} (h : l'.map f = l.map f) :
    l'.length = l.length := by
  simpa using congrArg List.length h

theorem map_set_same {f : α → β} (ha : l[i]? = some a)
    (hf : f b = f a) : (l.set i b).map f = l.map f := by
  refine List.ext_getElem? (fun j => ?_)
  rw [List.getElem?_map, List.getElem?_map, List.getElem?_set]
  split_ifs with hj hlen
  · rw [← hj, ha, Option.map_some, Option.map_some, hf]
  · rw [← hj, List.getElem?_eq_none (Nat.le_of_not_lt hlen)]
  · rfl

theorem countP_set_same {p : α → Bool} (ha : l[i]? = some a)
    (hp : p b = p a) : (l.set i b).countP p = l.countP p := by
  have himage := congrArg (List.countP id) (map_set_same ha hp)
  simpa only [List.countP_map, Function.id_comp] using himage

theorem countP_le_one_iff : l.countP p ≤ 1 ↔ ∀ (i j : Nat) (a b : α), l[i]? = some a → l[j]? = some b →
      p a = true → p b = true → i = j := by
  induction l with
  | nil => simp
  | cons x l ih =>
    have hpos : ∀ {k : Nat} {c : α}, l[k]? = some c → p c = true → 0 < l.countP p :=
      fun hc hp => List.countP_pos_iff.mpr ⟨_, List.mem_of_getElem? hc, hp⟩
    rw [List.countP_cons]
    constructor
    · intro hone i j a b ha hb hpa hpb
      cases i with
      | zero =>
        cases j with
        | zero => rfl
        | succ j =>
          obtain rfl : x = a := Option.some.inj ha
          have := hpos (k := j) hb hpb
          rw [if_pos hpa] at hone
          omega
      | succ i =>
        cases j with
        | zero =>
          obtain rfl : x = b := Option.some.inj hb
          have := hpos (k := i) ha hpa
          rw [if_pos hpb] at hone
          omega
        | succ j =>
          have hrest : l.countP p ≤ 1 := by omega
          rw [ih.mp hrest i j a b ha hb hpa hpb]
    · intro hplace
      have hrest : l.countP p ≤ 1 := by
        refine ih.mpr (fun i j a b ha hb hpa hpb => ?_)
        exact Nat.succ.inj (hplace (i + 1) (j + 1) a b ha hb hpa hpb)
      split
      · rename_i hx
        -- `x` is the one, so none follows
        have hzero : l.countP p = 0 := by
          refine List.countP_eq_zero.mpr (fun a ha hpa => ?_)
          obtain ⟨j, hj⟩ := List.mem_iff_getElem?.mp ha
          exact Nat.succ_ne_zero j (hplace 0 (j + 1) x a rfl hj hx hpa).symm
        omega
      · omega

theorem eq_of_countP_le_one (h : l.countP p ≤ 1) (ha : a ∈ l) (hb : b ∈ l) (hpa : p a = true)
    (hpb : p b = true) : a = b := by
  obtain ⟨i, hi⟩ := List.mem_iff_getElem?.mp ha
  obtain ⟨j, hj⟩ := List.mem_iff_getElem?.mp hb
  obtain rfl := countP_le_one_iff.mp h i j a b hi hj hpa hpb
  exact Option.some.inj (hi.symm.trans hj)

/-! ## 2. Lists put together -/

section

variable (h : List.Forall₂ R l l')

include h

theorem forall_mem_zipWith {γ : Type} {f : α → β → γ} {P : γ → Prop}
    (hf : ∀ a ∈ l, ∀ b, R a b → P (f a b)) :
    ∀ c ∈ List.zipWith f l l', P c := by
  induction h with
  | nil => simp
  | cons hab _ ih =>
    intro c hc
    rcases List.mem_cons.mp hc with rfl | hc
    · exact hf _ List.mem_cons_self _ hab
    · exact ih (fun a ha => hf a (List.mem_cons_of_mem _ ha)) c hc

theorem forall₂_zipWith {γ : Type} {f : α → β → γ} :
    List.Forall₂ (fun a c => ∃ b, c = f a b ∧ R a b) l (List.zipWith f l l') := by
  induction h with
  | nil => exact .nil
  | cons hab _ ih => exact .cons ⟨_, rfl, hab⟩ ih

theorem forall₂_and_right {P : β → Prop}
    (hP : ∀ b ∈ l', P b) : List.Forall₂ (fun a b => R a b ∧ P b) l l' := by
  induction h with
  | nil => exact .nil
  | cons hab _ ih =>
    exact .cons ⟨hab, hP _ List.mem_cons_self⟩ (ih (fun b hb => hP b (List.mem_cons_of_mem _ hb)))

theorem exists_right_of_mem (ha : a ∈ l) : ∃ b ∈ l', R a b := by
  induction h with
  | nil => cases ha
  | cons hab _ ih =>
    rcases List.mem_cons.mp ha with rfl | ha
    · exact ⟨_, List.mem_cons_self, hab⟩
    · obtain ⟨b, hb, hR⟩ := ih ha
      exact ⟨b, List.mem_cons_of_mem _ hb, hR⟩

theorem exists_left_of_mem (hb : b ∈ l') : ∃ a ∈ l, R a b :=
  exists_right_of_mem h.flip hb

end

theorem one_lt_count_flatMap_dedup [DecidableEq β] [BEq β] [LawfulBEq β] {f : α → List β}
    (hnodup : l.Nodup) : 1 < (l.flatMap (fun x => (f x).dedup)).count a ↔
      ∃ x ∈ l, ∃ y ∈ l, x ≠ y ∧ a ∈ f x ∧ a ∈ f y := by
  have hpos : ∀ {rest : List α}, 0 < (rest.flatMap (fun x => (f x).dedup)).count a ↔
      ∃ y ∈ rest, a ∈ f y := by simp [List.count_pos_iff]
  induction l with
  | nil => simp
  | cons z rest ih =>
    obtain ⟨hz, hrest⟩ := List.nodup_cons.mp hnodup
    have hne : ∀ y ∈ rest, z ≠ y := fun y hy heq => hz (heq ▸ hy)
    rw [List.flatMap_cons, List.count_append]
    by_cases haz : a ∈ f z
    · rw [List.count_eq_one_of_mem (List.nodup_dedup _) (List.mem_dedup.mpr haz),
        Nat.lt_add_right_iff_pos, hpos]
      constructor
      · rintro ⟨y, hy, hay⟩
        exact ⟨z, by simp, y, by simp [hy], hne y hy, haz, hay⟩
      · rintro ⟨x, hx, y, hy, hxy, hax, hay⟩
        rcases List.mem_cons.mp hx with rfl | hx
        · exact ⟨y, (List.mem_cons.mp hy).resolve_left (Ne.symm hxy), hay⟩
        · exact ⟨x, hx, hax⟩
    · rw [List.count_eq_zero_of_not_mem (mt List.mem_dedup.mp haz), Nat.zero_add]
      refine (ih hrest).trans ?_
      have hmem : ∀ {x}, a ∈ f x → (x ∈ z :: rest ↔ x ∈ rest) := by
        intro x hax
        rw [List.mem_cons, or_iff_right (fun heq : x = z => haz (heq ▸ hax))]
      constructor
      · rintro ⟨x, hx, y, hy, h⟩
        exact ⟨x, by simp [hx], y, by simp [hy], h⟩
      · rintro ⟨x, hx, y, hy, hxy, hax, hay⟩
        exact ⟨x, (hmem hax).mp hx, y, (hmem hay).mp hy, hxy, hax, hay⟩

theorem foldl_keepFirst [BEq β] [LawfulBEq β] (f : α → β) (l kept : List α)
    (hnodup : (kept.map f).Nodup) :
    ((l.foldl (fun kept a => if f a ∈ kept.map f then kept else kept ++ [a]) kept).map f).Nodup ∧
      ∀ k, k ∈ (l.foldl (fun kept a => if f a ∈ kept.map f then kept else kept ++ [a]) kept).map f ↔
        k ∈ kept.map f ∨ k ∈ l.map f := by
  induction l generalizing kept with
  | nil => simp [hnodup]
  | cons a l ih =>
    rw [List.foldl_cons, List.map_cons]
    split_ifs with hin
    · obtain ⟨hnodup', hmem⟩ := ih kept hnodup
      refine ⟨hnodup', fun k => (hmem k).trans ?_⟩
      rw [List.mem_cons]
      constructor
      · exact fun h => h.imp_right .inr
      · rintro (h | rfl | h)
        · exact .inl h
        · exact .inl hin
        · exact .inr h
    · have hkept : ((kept ++ [a]).map f).Nodup := by
        rw [List.map_append]
        refine List.nodup_append.mpr ⟨hnodup, List.nodup_singleton _, fun x hx y hy heq => hin ?_⟩
        rwa [← List.mem_singleton.mp hy, ← heq]
      obtain ⟨hnodup', hmem⟩ := ih (kept ++ [a]) hkept
      exact ⟨hnodup', fun k => (hmem k).trans (by simp [or_assoc])⟩

/-! ## 3. All or nothing -/

def collect (f : α → Option β) : List α → Option (List β)
  | [] => some []
  | a :: l => (f a).bind (fun b => (collect f l).map (b :: ·))

theorem find?_eq_some_iff_of_pairwise {α : Type*} {R : α → α → Prop} {p : α → Bool} {l : List α}
    (h : l.Pairwise R) (hasymm : ∀ a b, R a b → ¬ R b a) {a : α} :
    l.find? p = some a ↔ a ∈ l ∧ p a = true ∧ ∀ b ∈ l, p b = true → b = a ∨ R a b := by
  induction l with
  | nil => simp
  | cons x l ih =>
    obtain ⟨hx, hl⟩ := List.pairwise_cons.mp h
    cases hp : p x with
    | true =>
      rw [List.find?_cons_of_pos hp, Option.some.injEq]
      constructor
      · rintro rfl
        exact ⟨List.mem_cons_self, hp, fun b hb _ =>
          (List.mem_cons.mp hb).imp id (fun hb => hx b hb)⟩
      · rintro ⟨ha, -, hfirst⟩
        rcases hfirst x List.mem_cons_self hp with heq | hax
        · exact heq
        · rcases List.mem_cons.mp ha with rfl | ha
          · rfl
          · exact absurd hax (hasymm _ _ (hx a ha))
    | false =>
      rw [List.find?_cons_of_neg (by simp [hp]), ih hl]
      have hne : ∀ b, p b = true → b ≠ x := fun b hb heq => by simp [heq, hp] at hb
      constructor
      · rintro ⟨ha, hpa, hfirst⟩
        refine ⟨List.mem_cons_of_mem x ha, hpa, fun b hb hpb => hfirst b ?_ hpb⟩
        exact (List.mem_cons.mp hb).resolve_left (hne b hpb)
      · rintro ⟨ha, hpa, hfirst⟩
        exact ⟨(List.mem_cons.mp ha).resolve_left (hne a hpa), hpa,
          fun b hb => hfirst b (List.mem_cons_of_mem x hb)⟩

end GitopsReverser.Reasoning
