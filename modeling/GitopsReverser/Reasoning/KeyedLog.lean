import Mathlib

/-!
# KeyedLog — logs of upserts and removals

An entry gives a key a value or removes it. `upserts` collects every value a key was ever given;
`latest` is what the log leaves for it.
-/

namespace GitopsReverser.Reasoning

variable {K V : Type} [DecidableEq K]

abbrev KeyedLog (K V : Type) := List (K × Option V)

def Mentions (k : K) (log : KeyedLog K V) : Prop := ∃ entry ∈ log, entry.1 = k

instance (k : K) (log : KeyedLog K V) : Decidable (Mentions k log) :=
  inferInstanceAs (Decidable (∃ entry ∈ log, entry.1 = k))

def latest (k : K) : KeyedLog K V → Option V
  | [] => none
  | entry :: log =>
    if Mentions k log then latest k log else if entry.1 = k then entry.2 else none

def upserts (k : K) (log : KeyedLog K V) : List V :=
  log.filterMap (fun entry => if entry.1 = k then entry.2 else none)

/-- A key that has been given a value is not mentioned again. -/
def WrittenOnce (log : KeyedLog K V) : Prop :=
  log.Pairwise (fun a b => a.2.isSome → b.1 ≠ a.1)

theorem upserts_cons (k : K) (entry : K × Option V) (log : KeyedLog K V) :
    upserts k (entry :: log) = (if entry.1 = k then entry.2.toList else []) ++ upserts k log := by
  rw [upserts, List.filterMap_cons]
  by_cases h : entry.1 = k
  · cases hv : entry.2 <;> simp [h, upserts]
  · simp [h, upserts]

variable {log : KeyedLog K V}

theorem latest_of_not_mentions {k : K} (h : ¬ Mentions k log) : latest k log = none := by
  cases log with
  | nil => rfl
  | cons entry log =>
    have hrest : ¬ Mentions k log := fun ⟨e, he, hk⟩ => h ⟨e, List.mem_cons_of_mem _ he, hk⟩
    have hentry : entry.1 ≠ k := fun hk => h ⟨entry, List.mem_cons_self, hk⟩
    rw [latest, if_neg hrest, if_neg hentry]

theorem upserts_of_not_mentions {k : K} (h : ¬ Mentions k log) : upserts k log = [] := by
  rw [upserts, List.filterMap_eq_nil_iff]
  intro entry hentry
  rw [if_neg (fun hk => h ⟨entry, hentry, hk⟩)]

theorem mem_upserts_of_latest {k : K} {v : V} (h : latest k log = some v) : v ∈ upserts k log := by
  induction log with
  | nil => simp [latest] at h
  | cons entry log ih =>
    rw [latest] at h
    rw [upserts_cons, List.mem_append]
    by_cases hrest : Mentions k log
    · rw [if_pos hrest] at h
      exact Or.inr (ih h)
    · rw [if_neg hrest] at h
      by_cases hk : entry.1 = k
      · rw [if_pos hk] at h
        exact Or.inl (by simp [hk, h])
      · rw [if_neg hk] at h
        simp at h

theorem WrittenOnce.upserts_eq (h : WrittenOnce log) (k : K) :
    upserts k log = (latest k log).toList := by
  induction log with
  | nil => rfl
  | cons entry log ih =>
    obtain ⟨hfirst, hrest⟩ := List.pairwise_cons.mp h
    rw [upserts_cons, latest]
    by_cases hm : Mentions k log
    · rw [if_pos hm, ih hrest]
      obtain ⟨b, hb, hbk⟩ := hm
      -- the key comes back, so this entry cannot have given it a value
      by_cases hk : entry.1 = k
      · have hnone : entry.2 = none := by
          by_contra hsome
          exact hfirst b hb (Option.isSome_iff_ne_none.mpr hsome) (hbk.trans hk.symm)
        simp [hnone]
      · simp [hk]
    · rw [if_neg hm, upserts_of_not_mentions hm]
      by_cases hk : entry.1 = k <;> simp [hk]

/-- Collecting upserts gives the final contents exactly when nothing is written twice. -/
theorem upserts_eq_latest_iff (log : KeyedLog K V) :
    (∀ k, upserts k log = (latest k log).toList) ↔ WrittenOnce log := by
  refine ⟨fun h => ?_, fun h k => h.upserts_eq k⟩
  induction log with
  | nil => exact List.Pairwise.nil
  | cons entry log ih =>
    have hfirst : ∀ b ∈ log, entry.2.isSome → b.1 ≠ entry.1 := by
      intro b hb hsome hkey
      obtain ⟨v, hv⟩ := Option.isSome_iff_exists.mp hsome
      have hk := h entry.1
      rw [upserts_cons, if_pos rfl, latest, if_pos ⟨b, hb, hkey⟩, hv] at hk
      -- the final value would be `v` alone, yet it is among the later upserts
      cases hlast : latest entry.1 log with
      | none => simp [hlast] at hk
      | some v' =>
        have hmem := mem_upserts_of_latest hlast
        rw [hlast] at hk
        simp only [Option.toList_some, List.singleton_append, List.cons.injEq] at hk
        rw [hk.2] at hmem
        simp at hmem
    refine List.pairwise_cons.mpr ⟨hfirst, ih (fun k => ?_)⟩
    have hk := h k
    rw [upserts_cons, latest] at hk
    by_cases hm : Mentions k log
    · rw [if_pos hm] at hk
      by_cases hkey : entry.1 = k
      · obtain ⟨b, hb, hbk⟩ := hm
        have hnone : entry.2 = none := by
          by_contra hsome
          exact hfirst b hb (Option.isSome_iff_ne_none.mpr hsome) (hbk.trans hkey.symm)
        simpa [hnone] using hk
      · simpa [hkey] using hk
    · rw [upserts_of_not_mentions hm, latest_of_not_mentions hm]
      rfl

end GitopsReverser.Reasoning
