import Mathlib

/-!
# Coalesce — the last element per key, in first-seen order

An element changes what stands under its key. Where the last element of every key has the last
word, folding these alone leaves what folding all of them leaves.
-/

namespace GitopsReverser.Reasoning

variable {α κ : Type} [DecidableEq κ] (key : α → κ)

def coalesceInto (a : α) : List α → List α
  | [] => [a]
  | b :: rest => if key b = key a then a :: rest else b :: coalesceInto a rest

def coalesce (as : List α) : List α := as.foldl (fun kept a => coalesceInto key a kept) []

theorem coalesce_append_singleton (as : List α) (a : α) :
    coalesce key (as ++ [a]) = coalesceInto key a (coalesce key as) := by
  simp [coalesce]

variable {key}

variable {kept : List α}

theorem mem_coalesceInto {a b : α} (h : b ∈ coalesceInto key a kept) : b = a ∨ b ∈ kept := by
  induction kept with
  | nil => exact .inl (List.mem_singleton.mp h)
  | cons c rest ih =>
    rw [coalesceInto] at h
    split at h
    · exact (List.mem_cons.mp h).imp_right (List.mem_cons_of_mem c)
    · rcases List.mem_cons.mp h with rfl | h
      · exact .inr List.mem_cons_self
      · exact (ih h).imp_right (List.mem_cons_of_mem c)

theorem nodup_coalesceInto {a : α} (h : (kept.map key).Nodup) :
    ((coalesceInto key a kept).map key).Nodup := by
  induction kept with
  | nil => simp [coalesceInto]
  | cons b rest ih =>
    obtain ⟨hb, hrest⟩ := List.nodup_cons.mp h
    rw [coalesceInto]
    split
    · rename_i heq
      rw [List.map_cons, ← heq]
      exact h
    · rename_i hne
      refine List.nodup_cons.mpr ⟨fun hmem => ?_, ih hrest⟩
      obtain ⟨c, hc, hkey⟩ := List.mem_map.mp hmem
      rcases mem_coalesceInto hc with rfl | hc
      · exact hne hkey.symm
      · exact hb (List.mem_map.mpr ⟨c, hc, hkey⟩)

variable (key)

theorem coalesce_spec (as : List α) :
    ((coalesce key as).map key).Nodup ∧ ∀ a ∈ coalesce key as, a ∈ as := by
  suffices h : ∀ kept : List α, (kept.map key).Nodup →
      ((as.foldl (fun kept a => coalesceInto key a kept) kept).map key).Nodup ∧
        ∀ a ∈ as.foldl (fun kept a => coalesceInto key a kept) kept, a ∈ kept ∨ a ∈ as by
    obtain ⟨hnodup, hmem⟩ := h [] List.nodup_nil
    exact ⟨hnodup, fun a ha => (hmem a ha).resolve_left List.not_mem_nil⟩
  induction as with
  | nil => exact fun kept h => ⟨h, fun a ha => .inl ha⟩
  | cons b as ih =>
    intro kept h
    obtain ⟨hnodup, hmem⟩ := ih _ (nodup_coalesceInto (a := b) h)
    refine ⟨hnodup, fun a ha => ?_⟩
    rcases hmem a ha with ha | ha
    · rcases mem_coalesceInto ha with rfl | ha
      · exact .inr List.mem_cons_self
      · exact .inl ha
    · exact .inr (List.mem_cons_of_mem b ha)

theorem coalesce_congr {κ' : Type} [DecidableEq κ'] {key' : α → κ'} {as : List α}
    (h : ∀ a ∈ as, ∀ b ∈ as, key a = key b ↔ key' a = key' b) :
    coalesce key as = coalesce key' as := by
  have hinto : ∀ (a : α) (kept : List α), (∀ b ∈ kept, key b = key a ↔ key' b = key' a) →
      coalesceInto key a kept = coalesceInto key' a kept := by
    intro a kept hkept
    induction kept with
    | nil => rfl
    | cons b rest ih =>
      rw [coalesceInto, coalesceInto, ih (fun c hc => hkept c (List.mem_cons_of_mem b hc))]
      simp only [hkept b List.mem_cons_self]
  induction as using List.reverseRecOn with
  | nil => rfl
  | append_singleton as a ih =>
    have hmem : ∀ b ∈ coalesce key as, b ∈ as := (coalesce_spec key as).2
    rw [coalesce_append_singleton, coalesce_append_singleton,
      ← ih (fun b hb c hc => h b (List.mem_append_left _ hb) c (List.mem_append_left _ hc))]
    exact hinto a _ (fun b hb => h b (List.mem_append_left _ (hmem b hb)) a (by simp))

/-! ## Folding -/

theorem filter_coalesceInto {a : α} (hnodup : (kept.map key).Nodup) (k : κ) :
    (coalesceInto key a kept).filter (fun b => key b = k) =
      if key a = k then [a] else kept.filter (fun b => key b = k) := by
  induction kept with
  | nil => by_cases hk : key a = k <;> simp [coalesceInto, hk]
  | cons b rest ih =>
    obtain ⟨hb, hrest⟩ := List.nodup_cons.mp hnodup
    rw [coalesceInto]
    by_cases hba : key b = key a
    · rw [if_pos hba]
      by_cases hk : key a = k
      · -- no other element of this key is left
        have hnil : rest.filter (fun c => key c = k) = [] := by
          refine List.filter_eq_nil_iff.mpr (fun c hc hck => hb ?_)
          exact List.mem_map.mpr ⟨c, hc, (of_decide_eq_true hck).trans (hk.symm.trans hba.symm)⟩
        simp [hk, hnil]
      · simp [hk, hba]
    · rw [if_neg hba, List.filter_cons, ih hrest, List.filter_cons]
      by_cases hbk : key b = k
      · have hak : key a ≠ k := fun hak => hba (hbk.trans hak.symm)
        simp [hbk, hak]
      · simp [hbk]

theorem filter_coalesce (as : List α) (k : κ) : (coalesce key as).filter (fun a => key a = k) =
      (as.filter (fun a => key a = k)).getLast?.toList := by
  induction as using List.reverseRecOn with
  | nil => rfl
  | append_singleton as a ih =>
    rw [coalesce_append_singleton, filter_coalesceInto key (coalesce_spec key as).1, ih,
      List.filter_append]
    by_cases hk : key a = k <;> simp [hk]

theorem filter_of_mem_coalesce {as : List α} {a : α} (h : a ∈ coalesce key as) :
    ∃ earlier, as.filter (fun b => key b = key a) = earlier ++ [a] := by
  have hmem : a ∈ (coalesce key as).filter (fun b => key b = key a) := List.mem_filter.mpr ⟨h, by simp⟩
  rw [filter_coalesce, Option.mem_toList] at hmem
  exact List.getLast?_eq_some_iff.mp hmem

section Folding

variable {δ : Type} (act : α → δ → δ)

/-- An element changes what stands under its key. -/
def applyAt (m : κ → δ) (a : α) : κ → δ := Function.update m (key a) (act a (m (key a)))

theorem foldl_applyAt (as : List α) (m : κ → δ) (k : κ) : as.foldl (applyAt key act) m k =
      (as.filter (fun a => key a = k)).foldl (fun x a => act a x) (m k) := by
  induction as generalizing m with
  | nil => rfl
  | cons a as ih =>
    rw [List.foldl_cons, ih, List.filter_cons]
    by_cases hk : key a = k
    · subst hk
      simp [applyAt]
    · have hother : applyAt key act m a k = m k := Function.update_of_ne (fun h => hk h.symm) _ _
      simp [hk, hother]

/-- Where the last element of a key has the last word, folding it alone is folding them all. -/
theorem foldl_coalesce {as : List α} (hlast : ∀ a ∈ coalesce key as, ∀ x,
      (as.filter (fun b => key b = key a)).foldl (fun x b => act b x) x = act a x)
    (m : κ → δ) : (coalesce key as).foldl (applyAt key act) m = as.foldl (applyAt key act) m := by
  funext k
  rw [foldl_applyAt, foldl_applyAt, filter_coalesce]
  cases hfound : (as.filter (fun a => key a = k)).getLast? with
  | none =>
    rw [List.getLast?_eq_none_iff.mp hfound]
    rfl
  | some a =>
    have hkept : a ∈ (coalesce key as).filter (fun a => key a = k) := by
      rw [filter_coalesce, hfound]
      simp
    obtain ⟨hmem, hk⟩ := List.mem_filter.mp hkept
    obtain rfl : key a = k := of_decide_eq_true hk
    exact (hlast a hmem (m (key a))).symm

end Folding

end GitopsReverser.Reasoning
