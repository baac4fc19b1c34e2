import Mathlib

/-!
# Lines — a text cut after each end of line

A text is a list over any alphabet, `eol` tells which characters end a line. Every line keeps its
end; the last one may have none.
-/

namespace GitopsReverser.Reasoning

variable {α : Type} {eol : α → Bool}

def linesBy (eol : α → Bool) : List α → List (List α)
  | [] => []
  | c :: s =>
    if eol c then [c] :: linesBy eol s
    else match linesBy eol s with
      | [] => [[c]]
      | line :: lines => (c :: line) :: lines

/-- Nothing is left open at the end: the text is empty or its last character ends a line. -/
def Closed (eol : α → Bool) (s : List α) : Prop := ∀ c ∈ s.getLast?, eol c = true deriving Decidable

/-! ## 1. Cutting and joining -/

theorem linesBy_cons_of_eol {c : α} (hc : eol c = true) (s : List α) :
    linesBy eol (c :: s) = [c] :: linesBy eol s := by
  rw [linesBy, if_pos hc]

theorem linesBy_cons_of_not_eol {c : α} (hc : ¬ eol c = true) {s line : List α}
    {lines : List (List α)} (hs : linesBy eol s = line :: lines) :
    linesBy eol (c :: s) = (c :: line) :: lines := by
  rw [linesBy, if_neg hc, hs]

@[simp] theorem flatten_linesBy (s : List α) : (linesBy eol s).flatten = s := by
  induction s with
  | nil => rfl
  | cons c s ih =>
    rw [linesBy]
    split
    · rw [List.flatten_cons, ih, List.singleton_append]
    · split
      · rename_i hnil
        rw [hnil] at ih
        rw [← ih]
        rfl
      · rename_i line lines hcons
        rw [hcons, List.flatten_cons] at ih
        rw [List.flatten_cons, List.cons_append, ih]

theorem linesBy_eq_nil {s : List α} : linesBy eol s = [] ↔ s = [] := by
  constructor
  · intro h
    have hjoin : (linesBy eol s).flatten = s := flatten_linesBy s
    rw [← hjoin, h]
    rfl
  · rintro rfl
    rfl

/-! ## 2. Texts that are closed -/

@[simp] theorem closed_nil : Closed eol ([] : List α) := by simp [Closed]

theorem closed_append {s t : List α} (hs : Closed eol s) (ht : Closed eol t) : Closed eol (s ++ t) := by
  intro c hc
  rw [List.getLast?_append] at hc
  cases hlast : t.getLast? with
  | none =>
    rw [hlast, Option.none_or] at hc
    exact hs c hc
  | some d =>
    rw [hlast, Option.some_or] at hc
    exact ht c (by rw [hlast]; exact hc)

theorem linesBy_append {s t : List α} (hs : Closed eol s) :
    linesBy eol (s ++ t) = linesBy eol s ++ linesBy eol t := by
  induction s with
  | nil => rfl
  | cons c s ih =>
    by_cases hnil : s = []
    · subst hnil
      have hc : eol c = true := hs c rfl
      rw [List.singleton_append, linesBy_cons_of_eol hc, linesBy_cons_of_eol hc]
      rfl
    · have hrest : Closed eol s := by
        intro d hd
        apply hs d
        rw [List.getLast?_cons, hd]
        rfl
      by_cases hc : eol c = true
      · rw [List.cons_append, linesBy_cons_of_eol hc, linesBy_cons_of_eol hc, ih hrest]
        rfl
      · obtain ⟨line, lines, hline⟩ := List.exists_cons_of_ne_nil
          (fun h => hnil (linesBy_eq_nil.mp h) : linesBy eol s ≠ [])
        have happend : linesBy eol (s ++ t) = line :: (lines ++ linesBy eol t) := by
          rw [ih hrest, hline, List.cons_append]
        rw [List.cons_append, linesBy_cons_of_not_eol hc happend,
          linesBy_cons_of_not_eol hc hline, List.cons_append]

/-! ## 3. Single lines -/

/-- One line: not empty, and no character before its last ends it. -/
def IsLine (eol : α → Bool) (line : List α) : Prop := linesBy eol line = [line]

theorem IsLine.ne_nil {line : List α} (h : IsLine eol line) : line ≠ [] := by
  rintro rfl
  exact absurd h (by simp [IsLine, linesBy])

theorem isLine_singleton (c : α) : IsLine eol [c] := by
  unfold IsLine
  by_cases hc : eol c = true <;> simp [linesBy, hc]

theorem isLine_cons {c : α} (hc : ¬ eol c = true) {line : List α} (h : IsLine eol line) :
    IsLine eol (c :: line) :=
  linesBy_cons_of_not_eol hc h

theorem linesBy_lines (s : List α) : (∀ line ∈ linesBy eol s, IsLine eol line) ∧
      ∀ line ∈ (linesBy eol s).dropLast, Closed eol line := by
  induction s with
  | nil => simp [linesBy]
  | cons c s ih =>
    by_cases hc : eol c = true
    · rw [linesBy_cons_of_eol hc]
      refine ⟨List.forall_mem_cons.mpr ⟨isLine_singleton c, ih.1⟩, fun line hline => ?_⟩
      cases hs : linesBy eol s with
      | nil =>
        rw [hs] at hline
        exact absurd hline (by simp)
      | cons next lines =>
        rw [hs, List.dropLast_cons_cons, List.mem_cons] at hline
        rcases hline with rfl | hline
        · intro d hd
          obtain rfl : c = d := by simpa using hd
          exact hc
        · exact ih.2 line (hs ▸ hline)
    · cases hs : linesBy eol s with
      | nil =>
        have hone : linesBy eol (c :: s) = [[c]] := by rw [linesBy, if_neg hc, hs]
        rw [hone]
        exact ⟨by simpa using isLine_singleton c, by simp⟩
      | cons line lines =>
        rw [hs] at ih
        rw [linesBy_cons_of_not_eol hc hs]
        have hline := List.forall_mem_cons.mp ih.1
        refine ⟨List.forall_mem_cons.mpr ⟨isLine_cons hc hline.1, hline.2⟩, fun l hl => ?_⟩
        cases lines with
        | nil => exact absurd hl (by simp)
        | cons next lines =>
          rw [List.dropLast_cons_cons, List.mem_cons] at hl
          rcases hl with rfl | hl
          · -- the character in front does not reach the end of the line
            have hclose := ih.2 line (by rw [List.dropLast_cons_cons]; exact List.mem_cons_self)
            intro d hd
            apply hclose d
            rw [List.getLast?_cons_of_ne_nil hline.1.ne_nil] at hd
            exact hd
          · exact ih.2 l (by
              rw [List.dropLast_cons_cons]
              exact List.mem_cons_of_mem _ hl)

theorem isLine_of_mem {s line : List α} (h : line ∈ linesBy eol s) : IsLine eol line :=
  (linesBy_lines s).1 line h

theorem linesBy_flatten {texts : List (List α)} (hclose : ∀ s ∈ texts.dropLast, Closed eol s) :
    linesBy eol texts.flatten = (texts.map (linesBy eol)).flatten := by
  induction texts with
  | nil => rfl
  | cons s texts ih =>
    cases texts with
    | nil => simp
    | cons next texts =>
      rw [List.dropLast_cons_cons] at hclose
      have hfirst := List.forall_mem_cons.mp hclose
      rw [List.flatten_cons, linesBy_append hfirst.1, ih hfirst.2]
      rfl

theorem closed_dropLast_cons {s : List α} {texts : List (List α)} :
    (∀ t ∈ (s :: texts).dropLast, Closed eol t) ↔
      (texts ≠ [] → Closed eol s) ∧ ∀ t ∈ texts.dropLast, Closed eol t := by
  cases texts with
  | nil => simp
  | cons next texts =>
    rw [List.dropLast_cons_cons, List.forall_mem_cons]
    simp

end GitopsReverser.Reasoning
