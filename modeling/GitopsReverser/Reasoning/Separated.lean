import Mathlib

/-!
# Separated — texts joined by a character none of them contains
-/

namespace GitopsReverser.Reasoning

def separated (sep : Char) (parts : List String) : String :=
  String.ofList ([sep].intercalate (parts.map String.toList))

def Part (sep : Char) (p : String) : Prop := p ≠ "" ∧ sep ∉ p.toList

variable {sep : Char}

theorem splitOn_separated {parts : List String} (hpart : ∀ p ∈ parts, Part sep p)
    (hne : parts ≠ []) : (separated sep parts).toList.splitOn sep = parts.map String.toList := by
  rw [separated, String.toList_ofList]
  refine List.splitOn_intercalate sep ?_ (by simpa using hne)
  intro l hl
  obtain ⟨p, hp, rfl⟩ := List.mem_map.mp hl
  exact (hpart p hp).2

theorem separated_ne_empty {parts : List String} (hpart : ∀ p ∈ parts, Part sep p)
    (hne : parts ≠ []) : separated sep parts ≠ "" := by
  intro hempty
  have hsplit := splitOn_separated hpart hne
  rw [hempty] at hsplit
  obtain ⟨p, rest, rfl⟩ := List.exists_cons_of_ne_nil hne
  have hp : [] = p.toList := by
    have := congrArg List.head? hsplit
    simpa using this
  exact (hpart p List.mem_cons_self).1 (String.toList_injective (by simpa using hp.symm))

theorem separated_injective {a b : List String} (ha : ∀ p ∈ a, Part sep p)
    (hb : ∀ p ∈ b, Part sep p) (h : separated sep a = separated sep b) : a = b := by
  by_cases hna : a = []
  · subst hna
    by_contra hnb
    exact separated_ne_empty hb (Ne.symm hnb) h.symm
  · by_cases hnb : b = []
    · subst hnb
      exact absurd h (separated_ne_empty ha hna)
    · have hmap : a.map String.toList = b.map String.toList := by
        rw [← splitOn_separated ha hna, ← splitOn_separated hb hnb, h]
      exact List.map_injective_iff.mpr (fun _ _ => String.toList_injective) hmap

theorem pair_injective {a b a' b' : String} (ha : sep ∉ a.toList) (hb : sep ∉ b.toList)
    (h : a ++ String.ofList [sep] ++ b = a' ++ String.ofList [sep] ++ b') : a = a' ∧ b = b' := by
  have hlist : a.toList ++ sep :: b.toList = a'.toList ++ sep :: b'.toList := by
    have := congrArg String.toList h
    simpa [String.toList_append] using this
  obtain ⟨hfirst, -, hsecond⟩ := (List.append_cons_inj_of_notMem ha hb).mp hlist
  exact ⟨String.toList_injective hfirst, String.toList_injective hsecond⟩

theorem toList_toString (n : Nat) : (toString n).toList = Nat.toDigits 10 n := by
  rw [Nat.toString_eq_repr, Nat.toList_repr]

theorem toString_injective {a b : Nat} (h : toString a = toString b) : a = b := by
  have hdigit : Nat.toDigits 10 a = Nat.toDigits 10 b := by
    rw [← toList_toString, ← toList_toString, h]
  rw [← @Nat.ofDigitChars_ten_toDigits a, ← @Nat.ofDigitChars_ten_toDigits b, hdigit]

theorem notMem_toString {c : Char} (hc : c.isDigit = false) (n : Nat) : c ∉ (toString n).toList := by
  intro hmem
  rw [toList_toString] at hmem
  have hdigit := Nat.isDigit_of_mem_toDigits (by decide) (by decide) hmem
  rw [hc] at hdigit
  simp at hdigit

end GitopsReverser.Reasoning
