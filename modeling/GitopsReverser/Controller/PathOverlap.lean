import GitopsReverser.Git.TargetPath

/-!
# PathOverlap — one owner per materialized folder

Admission compares `spec.path` values in a slash-rooted normal form
(`normalizeGitTargetPath`); the writer uses `sanitizePath`. On valid paths the two agree
segment by segment, so the overlap test is exactly "the two subtrees meet". On invalid paths
they do not: admission lets the target through and the writer falls back to the root.
-/

namespace GitopsReverser.Controller

open Reasoning Git

/-! ## 1. Normal form and overlap -/

def normalizeGitTargetPath (p : Path) : Path := pathClean ('/' :: trimSpace p)

def gitTargetPathIsAncestor (ancestor descendant : Path) : Bool :=
  if ancestor = descendant then false
  else if ancestor = ['/'] then true
  else (ancestor ++ ['/']).isPrefixOf descendant

def gitTargetPathsOverlap (a b : Path) : Bool :=
  let na := normalizeGitTargetPath a
  let nb := normalizeGitTargetPath b
  if na = nb then true
  else gitTargetPathIsAncestor na nb || gitTargetPathIsAncestor nb na

theorem normalizeGitTargetPath_of_valid (p : Path) (h : isValidTargetPath p = true) :
    normalizeGitTargetPath p = '/' :: joinSlash (segments (trimSpace p)) :=
  pathClean_rooted _ (isValidTargetPath_safe p h).2.2

theorem rooted_joinSlash_inj (ss rs : List Segment) (hs : ∀ s ∈ ss, ProperSegment s)
    (hr : ∀ r ∈ rs, ProperSegment r) : '/' :: joinSlash ss = '/' :: joinSlash rs ↔ ss = rs := by
  constructor
  · intro h
    exact joinSlash_injective hs hr (List.cons.inj h).2
  · rintro rfl
    rfl

/-- On rooted normal forms, string ancestry is proper containment of the segment lists. -/
theorem gitTargetPathIsAncestor_iff (ss rs : List Segment) (hs : ∀ s ∈ ss, ProperSegment s)
    (hr : ∀ r ∈ rs, ProperSegment r) :
    gitTargetPathIsAncestor ('/' :: joinSlash ss) ('/' :: joinSlash rs) = true ↔
      ss <+: rs ∧ ss ≠ rs := by
  unfold gitTargetPathIsAncestor
  by_cases heq : ss = rs
  · simp [heq]
  · rw [if_neg (fun h => heq ((rooted_joinSlash_inj ss rs hs hr).mp h))]
    by_cases hroot : ss = []
    · subst hroot
      simp [joinSlash, heq]
    · have hne : '/' :: joinSlash ss ≠ ['/'] := fun h =>
        hroot ((rooted_joinSlash_inj ss [] hs (by simp)).mp h)
      rw [if_neg hne, List.isPrefixOf_iff_prefix, List.cons_append, List.prefix_cons_inj]
      exact joinSlash_slash_isPrefix_iff ss rs hroot hs hr

theorem gitTargetPathsOverlap_iff (a b : Path) (ha : isValidTargetPath a = true)
    (hb : isValidTargetPath b = true) :
    gitTargetPathsOverlap a b = true ↔ ¬ Disjoint (writerSubtree a) (writerSubtree b) := by
  have hpa := segments_proper (trimSpace a)
  have hpb := segments_proper (trimSpace b)
  rw [writerSubtree_of_valid a ha, writerSubtree_of_valid b hb, disjoint_subtree_iff, not_not]
  unfold gitTargetPathsOverlap
  simp only [normalizeGitTargetPath_of_valid a ha, normalizeGitTargetPath_of_valid b hb]
  by_cases heq : segments (trimSpace a) = segments (trimSpace b)
  · simp [heq]
  · rw [if_neg (fun h => heq ((rooted_joinSlash_inj _ _ hpa hpb).mp h)), Bool.or_eq_true,
      gitTargetPathIsAncestor_iff _ _ hpa hpb, gitTargetPathIsAncestor_iff _ _ hpb hpa]
    tauto

/-! ## 2. The loser of a conflict -/

structure GitTarget where
  ns : String
  name : String
  creationTimestamp : Int
  providerRefName : String
  branch : String
  path : Path
  deriving DecidableEq

def gitTargetIdentityKey (t : GitTarget) : String := t.ns ++ "/" ++ t.name

def gitTargetLosesConflict (target existing : GitTarget) : Bool :=
  if target.creationTimestamp > existing.creationTimestamp then true
  else if target.creationTimestamp = existing.creationTimestamp then
    decide (gitTargetIdentityKey target > gitTargetIdentityKey existing)
  else false

theorem gitTargetIdentityKey_inj {a b : GitTarget} (hns : a.ns = b.ns)
    (h : gitTargetIdentityKey a = gitTargetIdentityKey b) : a.name = b.name := by
  unfold gitTargetIdentityKey at h
  rw [hns] at h
  exact (String.append_right_inj _).mp h

/-- Of two distinct targets of one namespace, one loses: ties of the timestamp are decided by the
    identity key, which separates them. -/
theorem gitTargetLosesConflict_total (a b : GitTarget) (hns : a.ns = b.ns) (hname : a.name ≠ b.name) :
    gitTargetLosesConflict a b = true ∨ gitTargetLosesConflict b a = true := by
  unfold gitTargetLosesConflict
  rcases lt_trichotomy a.creationTimestamp b.creationTimestamp with hlt | heq | hgt
  · right
    simp [hlt]
  · have hkey : gitTargetIdentityKey a ≠ gitTargetIdentityKey b :=
      fun h => hname (gitTargetIdentityKey_inj hns h)
    rcases lt_or_gt_of_ne hkey with hk | hk
    · right
      simp [heq, hk]
    · left
      simp [heq, hk]
  · left
    simp [hgt]

/-! ## 3. `checkForConflicts` -/

def requeueSteadyInterval : Nat := 5 * 60

def gitTargetReasonTargetConflict : String := "TargetConflict"

/-- The non-error results of `checkForConflicts`: conflict flag, message, reason, requeue delay in
    seconds. -/
structure ConflictVerdict where
  conflict : Bool
  message : String
  reason : String
  requeueAfter : Nat
  deriving DecidableEq

def noConflict : ConflictVerdict := ⟨false, "", "", 0⟩

section Check

variable (formatRFC3339 : Int → String)

def conflictMessage (target existing : GitTarget) (providerNS : String) : String :=
  if normalizeGitTargetPath target.path = normalizeGitTargetPath existing.path then
    "Conflict detected. Another GitTarget '" ++ existing.ns ++ "/" ++ existing.name ++
    "' (created at " ++ formatRFC3339 existing.creationTimestamp ++
    ") is already using GitProvider '" ++ providerNS ++ "/" ++ target.providerRefName ++
    "', branch '" ++ target.branch ++ "', path '" ++ String.ofList target.path ++
    "'. This GitTarget was created later and will not be processed."
  else
    "Conflict detected. This GitTarget's path '" ++ String.ofList target.path ++
    "' overlaps the path '" ++ String.ofList existing.path ++ "' of GitTarget '" ++
    existing.ns ++ "/" ++ existing.name ++ "' (created at " ++
    formatRFC3339 existing.creationTimestamp ++ ") on GitProvider '" ++ providerNS ++ "/" ++
    target.providerRefName ++ "', branch '" ++ target.branch ++
    "' — one path nests inside the other (sibling paths are allowed). " ++
    "This GitTarget was created later and will not be processed."

def conflictLoop (target : GitTarget) (providerNS : String) : List GitTarget → ConflictVerdict
  | [] => noConflict
  | existing :: rest =>
    if existing.ns = target.ns ∧ existing.name = target.name then
      conflictLoop target providerNS rest
    else if existing.ns ≠ providerNS ∨ existing.providerRefName ≠ target.providerRefName then
      conflictLoop target providerNS rest
    else if existing.branch ≠ target.branch ∨ isValidTargetPath existing.path = false ∨
        gitTargetPathsOverlap target.path existing.path = false then
      conflictLoop target providerNS rest
    else if gitTargetLosesConflict target existing then
      ⟨true, conflictMessage formatRFC3339 target existing providerNS,
        gitTargetReasonTargetConflict, requeueSteadyInterval⟩
    else conflictLoop target providerNS rest

/-- `listed` is the API server's answer to listing all GitTargets. -/
def checkForConflicts (listed : Except String (List GitTarget)) (target : GitTarget)
    (providerNS : String) : Except String ConflictVerdict :=
  if isValidTargetPath target.path = false then .ok noConflict
  else match listed with
    | .error err => .error ("list GitTargets for conflict validation: " ++ err)
    | .ok allTargets => .ok (conflictLoop formatRFC3339 target providerNS allTargets)

def Defeats (existing target : GitTarget) (providerNS : String) : Prop :=
  ¬ (existing.ns = target.ns ∧ existing.name = target.name) ∧
  existing.ns = providerNS ∧ existing.providerRefName = target.providerRefName ∧
  existing.branch = target.branch ∧ isValidTargetPath existing.path = true ∧
  gitTargetPathsOverlap target.path existing.path = true ∧
  gitTargetLosesConflict target existing = true

theorem conflictLoop_conflict_iff (target : GitTarget) (providerNS : String)
    (targets : List GitTarget) :
    (conflictLoop formatRFC3339 target providerNS targets).conflict = true ↔
      ∃ existing ∈ targets, Defeats existing target providerNS := by
  induction targets with
  | nil => simp [conflictLoop, noConflict]
  | cons existing rest ih =>
    rw [conflictLoop]
    simp only [List.mem_cons, exists_eq_or_imp, ← ih]
    -- each `continue` of the loop refutes one conjunct of `Defeats`
    unfold Defeats
    split
    · rename_i hself
      simp [hself]
    · split
      · rename_i hproper
        grind
      · split
        · rename_i hapart
          grind
        · split <;> grind

theorem checkForConflicts_clear (target : GitTarget) (targets : List GitTarget)
    (providerNS : String) (verdict : ConflictVerdict)
    (h : checkForConflicts formatRFC3339 (.ok targets) target providerNS = .ok verdict)
    (hclean : verdict.conflict = false) (hval : isValidTargetPath target.path = true) :
    ∀ existing ∈ targets, ¬ Defeats existing target providerNS := by
  intro existing hmem hdefault
  simp only [checkForConflicts, hval, Bool.true_eq_false, if_false, Except.ok.injEq] at h
  have hconflict := (conflictLoop_conflict_iff formatRFC3339 target providerNS targets).mpr
    ⟨existing, hmem, hdefault⟩
  rw [h, hclean] at hconflict
  exact Bool.noConfusion hconflict

/-- Two distinct valid targets of one provider and branch cannot both be clear and overlap: the
    rule for the loser is total, so one of the two checks reports the other. -/
theorem clear_valid_targets_disjoint (targets : List GitTarget) (a b : GitTarget)
    (hamem : a ∈ targets) (hbmem : b ∈ targets) (hns : a.ns = b.ns) (hname : a.name ≠ b.name)
    (hprovider : a.providerRefName = b.providerRefName) (hbranch : a.branch = b.branch)
    (ha : ∀ existing ∈ targets, ¬ Defeats existing a a.ns)
    (hb : ∀ existing ∈ targets, ¬ Defeats existing b b.ns)
    (hva : isValidTargetPath a.path = true) (hvb : isValidTargetPath b.path = true) :
    Disjoint (writerSubtree a.path) (writerSubtree b.path) := by
  by_contra hmeet
  have hoverlap : gitTargetPathsOverlap a.path b.path = true :=
    (gitTargetPathsOverlap_iff a.path b.path hva hvb).mpr hmeet
  have hoverlap' : gitTargetPathsOverlap b.path a.path = true :=
    (gitTargetPathsOverlap_iff b.path a.path hvb hva).mpr (fun h => hmeet h.symm)
  rcases gitTargetLosesConflict_total a b hns hname with hlose | hlose
  · exact ha b hbmem ⟨fun h => hname h.2.symm, hns.symm, hprovider.symm, hbranch.symm, hvb, hoverlap, hlose⟩
  · exact hb a hamem ⟨fun h => hname h.2, hns, hprovider, hbranch, hva, hoverlap', hlose⟩

/-- Folder ownership. Two distinct targets of one provider and branch that both pass
    `checkForConflicts` own disjoint subtrees exactly when both paths are valid for the writer. -/
theorem checkForConflicts_disjoint_iff (targets : List GitTarget) (a b : GitTarget)
    (va vb : ConflictVerdict) (hamem : a ∈ targets) (hbmem : b ∈ targets) (hns : a.ns = b.ns)
    (hname : a.name ≠ b.name) (hprovider : a.providerRefName = b.providerRefName)
    (hbranch : a.branch = b.branch)
    (ha : checkForConflicts formatRFC3339 (.ok targets) a a.ns = .ok va)
    (hb : checkForConflicts formatRFC3339 (.ok targets) b b.ns = .ok vb)
    (haclear : va.conflict = false) (hbclear : vb.conflict = false) :
    Disjoint (writerSubtree a.path) (writerSubtree b.path) ↔
      isValidTargetPath a.path = true ∧ isValidTargetPath b.path = true := by
  constructor
  · intro hdisjoint
    constructor
    · by_contra hva
      rw [writerSubtree_of_invalid a.path (by simpa using hva), Set.univ_disjoint] at hdisjoint
      exact (writerSubtree_nonempty b.path).ne_empty hdisjoint
    · by_contra hvb
      rw [writerSubtree_of_invalid b.path (by simpa using hvb), Set.disjoint_univ] at hdisjoint
      exact (writerSubtree_nonempty a.path).ne_empty hdisjoint
  · rintro ⟨hva, hvb⟩
    exact clear_valid_targets_disjoint targets a b hamem hbmem hns hname hprovider hbranch
      (checkForConflicts_clear formatRFC3339 a targets a.ns va ha haclear hva)
      (checkForConflicts_clear formatRFC3339 b targets b.ns vb hb hbclear hvb) hva hvb

end Check

def absoluteTarget : GitTarget :=
  ⟨"default", "a", 10, "provider", "main", ['/', 'a']⟩

def siblingTarget : GitTarget :=
  ⟨"default", "b", 20, "provider", "main", ['b']⟩

-- Both checks report no conflict, but the writer's base for `/a` is the repository root.
theorem absoluteTarget_owns_sibling :
    checkForConflicts (fun _ => "") (.ok [absoluteTarget, siblingTarget]) absoluteTarget
      absoluteTarget.ns = .ok noConflict ∧
    checkForConflicts (fun _ => "") (.ok [absoluteTarget, siblingTarget]) siblingTarget
      siblingTarget.ns = .ok noConflict ∧
    sanitizePath absoluteTarget.path = [] ∧
    ¬ Disjoint (writerSubtree absoluteTarget.path) (writerSubtree siblingTarget.path) := by
  refine ⟨by decide, by decide, by decide, ?_⟩
  rw [writerSubtree_of_invalid absoluteTarget.path (by decide), Set.univ_disjoint]
  exact (writerSubtree_nonempty _).ne_empty

theorem sibling_folders_disjoint : Disjoint (writerSubtree ['a']) (writerSubtree ['b']) :=
  (checkForConflicts_disjoint_iff (fun _ => "")
    [⟨"default", "a", 10, "provider", "main", ['a']⟩, siblingTarget]
    ⟨"default", "a", 10, "provider", "main", ['a']⟩ siblingTarget noConflict noConflict
    (by simp) (by simp) rfl (by decide) rfl rfl (by decide) (by decide) rfl rfl).mpr
    (by decide)

end GitopsReverser.Controller
