import Mathlib

/-!
# Accumulate — maps that a loop fills

A loop that looks a key up, changes the value and stores it back. What it leaves under a key
depends on the elements with that key only.
-/

namespace GitopsReverser.Reasoning

abbrev Dict (K V : Type) := AList (fun _ : K => V)

variable {K V W ι : Type} [DecidableEq K]

def accumulate (key : ι → K) (upd : Option V → ι → V) (xs : List ι) (m : Dict K V) : Dict K V :=
  xs.foldl (fun m x => m.insert (key x) (upd (m.lookup (key x)) x)) m

theorem lookup_accumulate (key : ι → K) (upd : Option V → ι → V) (xs : List ι) (m : Dict K V)
    (k : K) : (accumulate key upd xs m).lookup k =
      (xs.filter (fun x => key x = k)).foldl (fun v x => some (upd v x)) (m.lookup k) := by
  induction xs generalizing m with
  | nil => rfl
  | cons x xs ih =>
    refine (ih _).trans ?_
    by_cases hk : key x = k
    · subst hk
      simp [AList.lookup_insert]
    · rw [List.filter_cons_of_neg (by simpa using hk), AList.lookup_insert_ne (Ne.symm hk)]

/-- A loop that overwrites keeps the last element of each key. -/
theorem lookup_overwrite (key : ι → K) (f : ι → V) (xs : List ι) (m : Dict K V) (k : K) :
    (accumulate key (fun _ x => f x) xs m).lookup k =
      (((xs.filter (fun x => key x = k)).getLast?).map f).or (m.lookup k) := by
  rw [lookup_accumulate]
  generalize xs.filter (fun x => key x = k) = same
  induction same using List.reverseRecOn with
  | nil => rfl
  | append_singleton same x _ => simp

theorem lookup_overwrite_of_unique {f : ι → V} {k : K}
    (hmem : ∃ x ∈ xs, key x = k) (hval : ∀ x ∈ xs, key x = k → f x = v) :
    (accumulate key (fun _ x => f x) xs ∅).lookup k = some v := by
  rw [lookup_overwrite]
  cases hlast : (xs.filter (fun x => key x = k)).getLast? with
  | none =>
    obtain ⟨x, hx, hk⟩ := hmem
    have hnil : xs.filter (fun x => key x = k) = [] := List.getLast?_eq_none_iff.mp hlast
    exact absurd hk (by simpa using List.filter_eq_nil_iff.mp hnil x hx)
  | some x =>
    have hx := List.mem_filter.mp (List.mem_of_getLast? hlast)
    simp [hval x hx.1 (by simpa using hx.2)]

theorem exists_of_lookup_overwrite {f : ι → V} {k : K}
    (h : (accumulate key (fun _ x => f x) xs ∅).lookup k = some v) :
    ∃ x ∈ xs, key x = k ∧ f x = v := by
  rw [lookup_overwrite, AList.lookup_empty, Option.or_none] at h
  obtain ⟨x, hlast, hv⟩ := Option.map_eq_some_iff.mp h
  obtain ⟨hx, hk⟩ := List.mem_filter.mp (List.mem_of_getLast? hlast)
  exact ⟨x, hx, by simpa using hk, hv⟩

def mapValues (f : V → W) (m : Dict K V) : Dict K W where
  entries := m.entries.map (fun e => ⟨e.1, f e.2⟩)
  nodupKeys := by
    have hkeys : (m.entries.map (fun e => (⟨e.1, f e.2⟩ : (_ : K) × W))).keys = m.entries.keys := by
      simp [List.keys, Function.comp_def]
    rw [List.NodupKeys, hkeys]
    exact m.nodupKeys

theorem lookup_mapValues (f : V → W) (m : Dict K V) (k : K) :
    (mapValues f m).lookup k = (m.lookup k).map f := by
  obtain ⟨entries, hnodup⟩ := m
  simp only [mapValues, AList.lookup]
  clear hnodup
  induction entries with
  | nil => rfl
  | cons e entries ih =>
    obtain ⟨k', v⟩ := e
    by_cases hk : k' = k
    · subst hk
      simp
    · simp [List.dlookup_cons_ne, Ne.symm hk, ih]

theorem lookup_insert_ite {m : Dict K V} :
    (m.insert k v).lookup q = if q = k then some v else m.lookup q := by
  by_cases hq : q = k
  · subst hq
    simp
  · rw [AList.lookup_insert_ne hq, if_neg hq]

theorem mem_entries_iff {m : Dict K V} : ⟨k, v⟩ ∈ m.entries ↔ m.lookup k = some v :=
  (AList.mem_lookup_iff (β := fun _ : K => V)).symm

theorem sum_values_eq (m : Dict K Nat) {s : Finset K} (hkeys : ∀ k ∈ m, k ∈ s) :
    (m.entries.map Sigma.snd).sum = ∑ k ∈ s, (m.lookup k).getD 0 := by
  have hval : m.entries.map Sigma.snd = m.keys.map (fun k => (m.lookup k).getD 0) := by
    rw [AList.keys, List.keys, List.map_map]
    refine List.map_congr_left (fun e he => ?_)
    rw [Function.comp_apply, mem_entries_iff.mp he]
    rfl
  rw [hval, ← List.sum_toFinset _ m.keys_nodup]
  refine Finset.sum_subset (fun k hk => hkeys k ?_) (fun k _ hk => ?_)
  · exact AList.mem_keys.mpr (List.mem_toFinset.mp hk)
  · have hnone : m.lookup k = none :=
      AList.lookup_eq_none.mpr (fun hm => hk (List.mem_toFinset.mpr (AList.mem_keys.mp hm)))
    rw [hnone]
    rfl

def keepKeys (p : K → Bool) (m : Dict K V) : Dict K V where
  entries := m.entries.filter (fun e => p e.1)
  nodupKeys := m.nodupKeys.sublist List.filter_sublist

theorem lookup_keepKeys_iff (p : K → Bool) (m : Dict K V) (k : K) (v : V) :
    (keepKeys p m).lookup k = some v ↔ m.lookup k = some v ∧ p k = true := by
  rw [← mem_entries_iff, ← mem_entries_iff]
  exact List.mem_filter

def keepEntries (p : K → V → Bool) (m : Dict K V) : Dict K V where
  entries := m.entries.filter (fun e => p e.1 e.2)
  nodupKeys := m.nodupKeys.sublist List.filter_sublist

theorem lookup_keepEntries_iff (p : K → V → Bool) (m : Dict K V) (k : K) (v : V) :
    (keepEntries p m).lookup k = some v ↔ m.lookup k = some v ∧ p k v = true := by
  rw [← mem_entries_iff, ← mem_entries_iff]
  exact List.mem_filter

theorem lookup_erase_ite {m : Dict K V} :
    (m.erase k).lookup q = if q = k then none else m.lookup q := by
  by_cases hq : q = k
  · subst hq
    simp
  · rw [AList.lookup_erase_ne hq, if_neg hq]

/-- The comparison of two maps by their sizes and by the entries of the first, where a missing
    key reads as `zero`. -/
def sameEntries [DecidableEq V] (zero : V) (a b : Dict K V) : Bool :=
  decide (a.entries.length = b.entries.length) &&
    a.entries.all (fun e => decide ((b.lookup e.1).getD zero = e.2))

theorem lookup_eq_of_sameEntries [DecidableEq V] {zero : V}
    (hzero : ∀ k v, a.lookup k = some v → v ≠ zero) (h : sameEntries zero a b = true) (k : K) :
    a.lookup k = b.lookup k := by
  simp only [sameEntries, Bool.and_eq_true, decide_eq_true_eq, List.all_eq_true] at h
  obtain ⟨hlen, hall⟩ := h
  have hsub : a.entries ⊆ b.entries := by
    rintro ⟨k', v⟩ he
    have hv : v ≠ zero := hzero k' v (mem_entries_iff.mp he)
    have hb := hall _ he
    rw [mem_entries_iff]
    cases hlook : b.lookup k' with
    | none => exact absurd (by simpa [hlook] using hb) (Ne.symm hv)
    | some v' => exact congrArg some (by simpa [hlook] using hb)
  have hperm : a.entries.Perm b.entries :=
    (List.subperm_of_subset a.nodupKeys.nodup hsub).perm_of_length_le (Nat.le_of_eq hlen.symm)
  exact AList.perm_lookup hperm

end GitopsReverser.Reasoning
