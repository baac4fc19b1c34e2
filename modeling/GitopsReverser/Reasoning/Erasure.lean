import Mathlib

/-!
# Erasure — removing the first match of each of several predicates

A list is swept by one `eraseP` after another. When the predicates exclude each other, this removes
everything of a kind, and nothing else, exactly when the kind is what the predicates describe and
each of them matches once at most.
-/

namespace GitopsReverser.Reasoning

variable {α : Type} {p q : α → Bool}

theorem countP_eraseP_self (xs : List α) : (xs.eraseP p).countP p = xs.countP p - 1 := by
  induction xs with
  | nil => rfl
  | cons x xs ih =>
    rw [List.eraseP_cons]
    cases hx : p x with
    | true => simp [hx]
    | false => simp [hx, ih]

theorem countP_eraseP_of_excludes (h : ∀ x, q x = true → p x = false) (xs : List α) :
    (xs.eraseP q).countP p = xs.countP p := by
  induction xs with
  | nil => rfl
  | cons x xs ih =>
    rw [List.eraseP_cons]
    cases hx : q x with
    | true => simp [h x hx]
    | false => simp [List.countP_cons, ih]

variable {xs : List α} {ps : List (α → Bool)}

theorem eraseP_eq_filter (h : xs.countP p ≤ 1) : xs.eraseP p = xs.filter (fun x => !p x) := by
  induction xs with
  | nil => rfl
  | cons x xs ih =>
    rw [List.eraseP_cons]
    cases hx : p x with
    | true =>
      have hnone : ∀ y ∈ xs, (!p y) = true := by
        simpa [hx, List.countP_eq_zero] using h
      simp [hx, List.filter_eq_self.mpr hnone]
    | false => simp [hx, ih (by simpa [hx] using h)]

/-! ## Several predicates -/

def eraseEach (ps : List (α → Bool)) (xs : List α) : List α :=
  ps.foldl (fun xs p => xs.eraseP p) xs

def Exclusive (ps : List (α → Bool)) : Prop :=
  ps.Pairwise (fun p q => ∀ x, p x = true → q x = false)

theorem mem_of_mem_eraseEach {x : α} (h : x ∈ eraseEach ps xs) : x ∈ xs := by
  induction ps generalizing xs with
  | nil => exact h
  | cons p ps ih => exact List.eraseP_sublist.mem (ih h)

theorem mem_eraseEach_or {x : α} (h : x ∈ xs) : x ∈ eraseEach ps xs ∨ ∃ p ∈ ps, p x = true := by
  induction ps generalizing xs with
  | nil => exact .inl h
  | cons p ps ih =>
    cases hp : p x with
    | true => exact .inr ⟨p, by simp, hp⟩
    | false =>
      have hleft : x ∈ xs.eraseP p := (List.mem_eraseP_of_neg (by simp [hp])).mpr h
      rcases ih hleft with hkept | ⟨q, hq, hqx⟩
      · exact .inl hkept
      · exact .inr ⟨q, List.mem_cons_of_mem p hq, hqx⟩

theorem countP_eraseEach_of_excluded (h : ∀ q ∈ ps, ∀ x, q x = true → p x = false) (xs : List α) :
    (eraseEach ps xs).countP p = xs.countP p := by
  induction ps generalizing xs with
  | nil => rfl
  | cons q ps ih =>
    exact (ih (fun r hr => h r (List.mem_cons_of_mem q hr)) _).trans
      (countP_eraseP_of_excludes (h q (by simp)) xs)

theorem countP_eraseEach (hex : Exclusive ps) (hp : p ∈ ps) (xs : List α) :
    (eraseEach ps xs).countP p = xs.countP p - 1 := by
  induction ps generalizing xs with
  | nil => cases hp
  | cons q ps ih =>
    obtain ⟨hhead, htail⟩ := List.pairwise_cons.mp hex
    rcases List.mem_cons.mp hp with rfl | hp
    · refine Eq.trans ?_ (countP_eraseP_self xs)
      refine countP_eraseEach_of_excluded (fun r hr x hrx => ?_) (xs.eraseP p)
      cases hpx : p x with
      | false => rfl
      | true => exact absurd hrx (by simp [hhead r hr x hpx])
    · exact (ih htail hp _).trans (by rw [countP_eraseP_of_excludes (hhead p hp)])

theorem eraseEach_eq_filter (h : ∀ p ∈ ps, xs.countP p ≤ 1) :
    eraseEach ps xs = xs.filter (fun x => ps.all (fun p => !p x)) := by
  induction ps generalizing xs with
  | nil => simp [eraseEach]
  | cons p ps ih =>
    have hfirst := eraseP_eq_filter (h p (by simp))
    have hrest : ∀ q ∈ ps, (xs.eraseP p).countP q ≤ 1 := fun q hq =>
      Nat.le_trans List.eraseP_sublist.countP_le (h q (List.mem_cons_of_mem p hq))
    refine (ih hrest).trans ?_
    rw [hfirst, List.filter_filter]
    refine List.filter_congr (fun x _ => ?_)
    simp [Bool.and_comm]

/-- The sweep takes away what is doomed and keeps everything else exactly when the predicates
    describe the doomed elements and none of them matches twice. -/
theorem eraseEach_faithful_iff (hex : Exclusive ps) {doomed : α → Bool}
    (hkind : ∀ p ∈ ps, ∀ x y, p x = true → p y = true → doomed x = doomed y) (xs : List α) :
    ((∀ x ∈ eraseEach ps xs, doomed x = false) ∧
      (eraseEach ps xs).filter (fun x => !doomed x) = xs.filter (fun x => !doomed x)) ↔
      (∀ x ∈ xs, doomed x = true ↔ ∃ p ∈ ps, p x = true) ∧ ∀ p ∈ ps, xs.countP p ≤ 1 := by
  constructor
  · rintro ⟨hgone, hkept⟩
    -- were a match not doomed, its whole kind would be kept, and yet the sweep takes one
    have hdoomed : ∀ p ∈ ps, ∀ x ∈ xs, p x = true → doomed x = true := by
      intro p hp x hx hpx
      by_contra hsafe
      have hcount : ∀ ys : List α, (ys.filter (fun y => !doomed y)).countP p = ys.countP p := by
        intro ys
        rw [List.countP_filter]
        refine List.countP_congr (fun y _ => ?_)
        simp only [Bool.and_eq_true, Bool.not_eq_true', and_iff_left_iff_imp]
        intro hpy
        rw [hkind p hp y x hpy hpx]
        simpa using hsafe
      have hsame := congrArg (List.countP p) hkept
      rw [hcount, hcount, countP_eraseEach hex hp] at hsame
      have hpos : 0 < xs.countP p := List.countP_pos_iff.mpr ⟨x, hx, hpx⟩
      omega
    refine ⟨fun x hx => ⟨fun hd => ?_, fun ⟨p, hp, hpx⟩ => hdoomed p hp x hx hpx⟩, fun p hp => ?_⟩
    · rcases (mem_eraseEach_or hx : x ∈ eraseEach ps xs ∨ _) with hleft | hmatch
      · rw [hgone x hleft] at hd
        cases hd
      · exact hmatch
    · by_contra hmany
      have hpos : 0 < (eraseEach ps xs).countP p := by
        rw [countP_eraseEach hex hp]
        omega
      obtain ⟨y, hy, hpy⟩ := List.countP_pos_iff.mp hpos
      have hd := hdoomed p hp y (mem_of_mem_eraseEach hy) hpy
      rw [hgone y hy] at hd
      cases hd
  · rintro ⟨hdescribe, honce⟩
    have hfilter : eraseEach ps xs = xs.filter (fun x => !doomed x) := by
      rw [eraseEach_eq_filter honce]
      refine List.filter_congr (fun x hx => ?_)
      cases hd : doomed x with
      | true =>
        obtain ⟨p, hp, hpx⟩ := (hdescribe x hx).mp hd
        simpa using ⟨p, hp, hpx⟩
      | false =>
        simp only [Bool.not_false, List.all_eq_true, Bool.not_eq_true']
        intro p hp
        by_contra hpx
        have hd' := (hdescribe x hx).mpr ⟨p, hp, by simpa using hpx⟩
        rw [hd] at hd'
        cases hd'
    rw [hfilter]
    exact ⟨fun x hx => by simpa using (List.mem_filter.mp hx).2, by simp⟩

end GitopsReverser.Reasoning
