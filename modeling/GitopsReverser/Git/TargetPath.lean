import GitopsReverser.Reasoning.SlashPath

/-!
# TargetPath — the writer's view of `spec.path`

`sanitizePath` is the base folder the writer uses, `isValidTargetPath` the predicate admission
shares with it. A path the writer considers unsafe is mapped to the empty base, which is also
how the repository root is written.
-/

namespace GitopsReverser.Git

open Reasoning

abbrev Path := List Char

/-- `unicode.IsSpace`: the White_Space property. -/
def isSpace (c : Char) : Bool :=
  (9 ≤ c.toNat && c.toNat ≤ 13) || c.toNat == 0x20 || c.toNat == 0x85 || c.toNat == 0xA0 ||
  c.toNat == 0x1680 || (0x2000 ≤ c.toNat && c.toNat ≤ 0x200A) || c.toNat == 0x2028 ||
  c.toNat == 0x2029 || c.toNat == 0x202F || c.toNat == 0x205F || c.toNat == 0x3000

def trimSpace (p : Path) : Path := trimBy isSpace p

def trimSlashes (p : Path) : Path := trimBy (· == '/') p

/-- The base folder of a target, empty when the input is unsafe or denotes the repository root. -/
def sanitizePath (base : Path) : Path :=
  let trimmed := trimSpace base
  if trimmed = [] then []
  else if trimmed.head? = some '/' ∨ '\\' ∈ trimmed then []
  else if dotDot <:+: trimmed then []
  else
    let cleaned := trimSlashes (pathClean trimmed)
    if cleaned = [] ∨ cleaned = dot then [] else cleaned

def isValidTargetPath (p : Path) : Bool :=
  let trimmed := trimSpace p
  if trimmed = [] ∨ trimmed = dot then true
  else decide (sanitizePath trimmed ≠ [])

/-- The files a writer with this `spec.path` scans, writes and sweeps. -/
def writerSubtree (p : Path) : Set (List Segment) := subtree (segments (sanitizePath p))

variable (p : Path)

theorem trimSpace_idempotent : trimSpace (trimSpace p) = trimSpace p :=
  trimBy_idempotent isSpace p

theorem sanitizePath_trimSpace : sanitizePath (trimSpace p) = sanitizePath p := by
  simp only [sanitizePath, trimSpace_idempotent]

theorem segments_ne_dot : ∀ s ∈ segments p, s ≠ dot := by
  intro s hs
  simp only [segments, List.mem_filter, decide_eq_true_eq] at hs
  exact hs.2.2

theorem segments_joinSlash_segments : segments (joinSlash (segments p)) = segments p := by
  by_cases hnil : segments p = []
  · rw [hnil]
    rfl
  · have hsplit : splitSlash (joinSlash (segments p)) = segments p :=
      splitSlash_joinSlash _ hnil (fun s hs => (segments_proper p s hs).2)
    rw [segments, hsplit, List.filter_eq_self]
    intro s hs
    simpa using And.intro (segments_proper p s hs).1 (segments_ne_dot p s hs)

theorem sanitizePath_of_safe (hrelative : (trimSpace p).head? ≠ some '/')
    (hback : '\\' ∉ trimSpace p) (hdots : ¬ dotDot <:+: trimSpace p) :
    sanitizePath p = joinSlash (segments (trimSpace p)) := by
  by_cases hempty : trimSpace p = []
  · rw [sanitizePath, if_pos hempty, hempty]
    rfl
  · have hguard : ¬ ((trimSpace p).head? = some '/' ∨ '\\' ∈ trimSpace p) := by tauto
    simp only [sanitizePath, if_neg hempty, if_neg hguard, if_neg hdots, pathClean_relative _ hrelative hdots]
    by_cases hnil : segments (trimSpace p) = []
    · have hdot : trimSlashes dot = dot := by decide
      simp [hnil, hdot, joinSlash]
    · rw [if_neg hnil, trimSlashes, trimBy_slash_joinSlash _ (segments_proper _)]
      have hproper := segments_proper (trimSpace p)
      have hne : joinSlash (segments (trimSpace p)) ≠ [] := fun h =>
        hnil (joinSlash_injective hproper (by simp) h)
      have hnot : joinSlash (segments (trimSpace p)) ≠ dot := by
        intro h
        have hone : segments (trimSpace p) = [dot] :=
          joinSlash_injective hproper (by simp [dot, ProperSegment]) h
        exact segments_ne_dot (trimSpace p) dot (by simp [hone]) rfl
      simp [hne, hnot]

/-- A valid path is the repository root or passes every guard of the writer. -/
theorem isValidTargetPath_safe (h : isValidTargetPath p = true) :
    (trimSpace p).head? ≠ some '/' ∧ '\\' ∉ trimSpace p ∧ ¬ dotDot <:+: trimSpace p := by
  by_cases hroot : trimSpace p = [] ∨ trimSpace p = dot
  · rcases hroot with hroot | hroot <;> rw [hroot] <;> decide
  · simp only [isValidTargetPath, if_neg hroot, decide_eq_true_eq, sanitizePath_trimSpace] at h
    simp only [sanitizePath] at h
    push Not at hroot
    rw [if_neg hroot.1] at h
    split at h
    · exact absurd rfl h
    · rename_i hguard
      split at h
      · exact absurd rfl h
      · rename_i hdots
        push Not at hguard
        exact ⟨hguard.1, hguard.2, hdots⟩

theorem sanitizePath_of_valid (h : isValidTargetPath p = true) :
    sanitizePath p = joinSlash (segments (trimSpace p)) := by
  obtain ⟨hrelative, hback, hdots⟩ := isValidTargetPath_safe p h
  exact sanitizePath_of_safe p hrelative hback hdots

-- The other half of the mirror: an invalid path has the same base as the repository root.
theorem sanitizePath_of_invalid (h : isValidTargetPath p = false) : sanitizePath p = [] := by
  simp only [isValidTargetPath, sanitizePath_trimSpace] at h
  split at h
  · simp at h
  · simpa using h

theorem writerSubtree_of_valid (h : isValidTargetPath p = true) :
    writerSubtree p = subtree (segments (trimSpace p)) := by
  rw [writerSubtree, sanitizePath_of_valid p h, segments_joinSlash_segments]

theorem writerSubtree_of_invalid (h : isValidTargetPath p = false) : writerSubtree p = Set.univ := by
  rw [writerSubtree, sanitizePath_of_invalid p h]
  ext file
  simp [subtree, segments, splitSlash]

theorem writerSubtree_nonempty : (writerSubtree p).Nonempty :=
  ⟨segments (sanitizePath p), List.prefix_refl _⟩

end GitopsReverser.Git
