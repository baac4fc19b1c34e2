import GitopsReverser.Authz.SourceNamespace

/-!
# WildcardAgreement — the namespaces of `*` and the namespaces one may name

A wildcard enumerates the Namespaces the snapshot has; a named item is evaluated with the labels
the snapshot has for it, and with none where it has nothing. The two part where the selector
matches the empty label set.
-/

namespace GitopsReverser.Authz

open Reasoning

variable {api : ApiMachinery}

/-! ## 1. What a wildcard expands to -/

theorem mem_sortedUnique : n ∈ sortedUnique names ↔ n ∈ names := by
  rw [sortedUnique, List.mem_insertionSort, List.mem_dedup]

theorem admittedNames_eq {sel : Labels → Bool}
    (h : ∀ labels, policy.selectorAdmits api labels = .ok (sel labels))
    (entries : List ((_ : String) × Labels)) :
    admittedNames api policy entries = .ok ((entries.filter (fun e => sel e.2)).map (·.1)) := by
  induction entries with
  | nil => rfl
  | cons entry entries ih =>
    rw [admittedNames, h, ih]
    by_cases hselect : sel entry.2 = true
    · simp [Except.map, hselect]
    · simp [Except.map, hselect]

theorem selectorAdmits_cases (api : ApiMachinery) (policy : NamespaceMatcher) :
    (∃ sel : Labels → Bool, ∀ labels, policy.selectorAdmits api labels = .ok (sel labels)) ∨
    (policy.selector.isSome = true ∧ ∃ e, ∀ labels, policy.selectorAdmits api labels = .error e) := by
  unfold NamespaceMatcher.selectorAdmits
  cases policy.selector with
  | none => exact .inl ⟨fun _ => false, fun _ => rfl⟩
  | some selector =>
    simp only
    cases api.labelSelectorAsSelector selector with
    | ok sel => exact .inl ⟨sel, fun _ => rfl⟩
    | error e => exact .inr ⟨rfl, e, fun _ => rfl⟩

theorem mem_admittedNames {m : Dict String Labels}
    (h : admittedNames api policy m.entries = .ok names) :
    n ∈ names ↔ ∃ labels, m.lookup n = some labels ∧ policy.selectorAdmits api labels = .ok true := by
  rcases selectorAdmits_cases api policy with ⟨sel, hselect⟩ | ⟨-, e, he⟩
  · rw [admittedNames_eq hselect] at h
    cases h
    simp only [List.mem_map, List.mem_filter, hselect, Except.ok.injEq, ← mem_entries_iff]
    constructor
    · rintro ⟨⟨name, labels⟩, ⟨hmem, hadmitted⟩, rfl⟩
      exact ⟨labels, hmem, hadmitted⟩
    · rintro ⟨labels, hmem, hadmitted⟩
      exact ⟨⟨n, labels⟩, ⟨hmem, hadmitted⟩, rfl⟩
  · cases hentry : m.entries with
    | nil =>
      rw [hentry] at h
      cases h
      simp [← mem_entries_iff, hentry]
    | cons entry entries =>
      rw [hentry, admittedNames, he] at h
      cases h

/-! ## 2. One gate over a synced snapshot -/

section Synced

variable {g : ItemGate} {policy : NamespaceMatcher} {snapshots : Snapshots}
  {snapshot : NamespaceSnapshot}

/-- The target declares the policy, and the snapshot of its source cluster is synced. -/
structure Synced (api : ApiMachinery) (g : ItemGate) (policy : NamespaceMatcher)
    (snapshots : Snapshots) (snapshot : NamespaceSnapshot) : Prop where
  declared : g.target.allowedSourceNamespaces = some policy
  wired : g.resolver = some (sourceScope api snapshots)
  observed : snapshots.lookup g.target.sourceCluster = some snapshot
  synced : snapshot.synced = true

theorem Synced.unusable (h : Synced api g policy snapshots snapshot) :
    unusableSnapshot api g.target.sourceCluster (some snapshot) = none := by
  rw [unusableSnapshot, if_neg (by simp [snapshot.usable h.synced]), if_pos h.synced]

def NamespaceSnapshot.labelsOf (snapshot : NamespaceSnapshot) (ns : String) : Labels :=
  (snapshot.labels.lookup ns).getD ∅

theorem Synced.resolveWith_admitted_iff (h : Synced api g policy snapshots snapshot) (n : String) :
    (resolveWith g.resolver g.target n).verdict = .admitted ↔
      n ∈ policy.names ∨ policy.selectorAdmits api (snapshot.labelsOf n) = .ok true := by
  unfold resolveWith
  rw [h.declared, h.wired]
  by_cases hname : n ∈ policy.names
  · rw [if_pos (by simpa [matchesName] using hname)]
    simp [hname]
  · have hmiss : matchesName (some policy) n = false := by simpa [matchesName] using hname
    rw [if_neg (by simp [hmiss])]
    cases hselect : policy.selector with
    | none => simp [hname, hselect, NamespaceMatcher.selectorAdmits]
    | some selector =>
      simp only [Option.bind_some, hselect, sourceScope, resolveSourceNamespace, h.observed,
        h.unusable, Option.map_some, h.declared, matchesNamespace, hmiss, hname, false_or,
        Bool.false_eq_true, if_false]
      rw [← NamespaceSnapshot.labelsOf]
      cases policy.selectorAdmits api (snapshot.labelsOf n) with
      | error e => simp
      | ok admits => cases admits <;> simp

theorem evaluateCandidate_verdict (g : ItemGate) (index : Nat) (item : ResourceRule) :
    (g.evaluateCandidate api index item).verdict =
      (resolveWith g.resolver g.target (item.effectiveSourceNamespace g.rule.ns)).verdict := by
  unfold ItemGate.evaluateCandidate
  simp only
  split <;> simp_all

theorem expandedTo_eq (g : ItemGate) (index : Nat) (item : ResourceRule) (names : List String) :
    (g.expandedTo api index item names).verdict = .admitted ∧
      (g.expandedTo api index item names).namespaces = sortedUnique names := by
  unfold ItemGate.expandedTo
  simp only
  split_ifs <;> exact ⟨rfl, rfl⟩

def expansion (api : ApiMachinery) (policy : NamespaceMatcher) (snapshot : NamespaceSnapshot)
    (n : String) : Prop :=
  n ∈ policy.names ∨
    ∃ labels, snapshot.labels.lookup n = some labels ∧ policy.selectorAdmits api labels = .ok true

variable {item : ResourceRule}

theorem Synced.mem_expandWildcard (h : Synced api g policy snapshots snapshot) {index : Nat}
    (hadmitted : (g.expandWildcard api index item policy).verdict = .admitted) (n : String) :
    n ∈ (g.expandWildcard api index item policy).namespaces ↔ expansion api policy snapshot n := by
  unfold ItemGate.expandWildcard at hadmitted ⊢
  simp only [h.wired, enumerateWith, sourceScope, enumerateSourceNamespaces, h.observed, h.unusable,
    h.declared] at hadmitted ⊢
  by_cases hselect : policy.hasSelector = true
  · rw [if_pos hselect] at hadmitted ⊢
    cases hname : admittedNames api policy snapshot.labels.entries with
    | error e =>
      rw [hname] at hadmitted
      cases hadmitted
    | ok names =>
      simp only [(expandedTo_eq g index item _).2, mem_sortedUnique, List.mem_append,
        List.mem_insertionSort, mem_admittedNames hname]
      rfl
  · rw [if_neg hselect, (expandedTo_eq g index item _).2, mem_sortedUnique]
    have hnone : policy.selector = none := by
      simpa [NamespaceMatcher.hasSelector] using hselect
    simp [expansion, NamespaceMatcher.selectorAdmits, hnone]

theorem Synced.expandWildcard_admitted (h : Synced api g policy snapshots snapshot)
    {sel : Labels → Bool} (hselect : ∀ labels, policy.selectorAdmits api labels = .ok (sel labels))
    (index : Nat) (item : ResourceRule) :
    (g.expandWildcard api index item policy).verdict = .admitted := by
  unfold ItemGate.expandWildcard
  simp only [h.wired, enumerateWith, sourceScope, enumerateSourceNamespaces, h.observed, h.unusable,
    h.declared, admittedNames_eq hselect]
  split_ifs <;> exact (expandedTo_eq g index item _).1

/-! ## 3. The two answers -/

def ItemGate.admits (api : ApiMachinery) (g : ItemGate) (index : Nat) (item : ResourceRule) : Prop :=
  ∃ d, g.decide api index item = .ok d ∧ d.verdict = .admitted

/-- Whenever a wildcard item expands, it expands to `n` exactly if an item naming `n` is
    admitted. -/
def ItemGate.AgreesOn (api : ApiMachinery) (g : ItemGate) (n : String) : Prop :=
  ∀ wildcard named : ResourceRule, wildcard.sourceNamespace = sourceNamespaceWildcard →
    named.sourceNamespace = n → ∀ i j d, g.decide api i wildcard = .ok d → d.verdict = .admitted →
      (n ∈ d.namespaces ↔ g.admits api j named)

theorem decide_wildcard (hwildcard : item.sourceNamespace = sourceNamespaceWildcard)
    (h : g.decide api index item = .ok d)
    (hadmitted : d.verdict = .admitted) :
    g.evaluateDelegation api = .ok none ∧ d = g.decideByPolicy api index item := by
  have hoverride : item.overridesSourceNamespace g.rule.ns = true := by
    simp [ResourceRule.overridesSourceNamespace, ResourceRule.isSourceNamespaceWildcard, hwildcard]
  simp only [ItemGate.decide, hoverride, Bool.not_true, Bool.false_eq_true, if_false] at h
  split at h
  · cases h
  · cases h
    cases hadmitted
  · rename_i hdel
    cases h
    exact ⟨hdel, rfl⟩

section

variable (h : Synced api g policy snapshots snapshot)

include h

/-- Past the provider's side, a declared policy decides, override or not. -/
theorem Synced.decide_eq
    (hdel : g.evaluateDelegation api = .ok none) (index : Nat) (item : ResourceRule) :
    g.decide api index item = .ok (g.decideByPolicy api index item) := by
  unfold ItemGate.decide
  simp only [hdel, h.declared, Option.isNone_some, Bool.false_eq_true, if_false, ite_self]

theorem Synced.decideByPolicy_wildcard (hval : policy.validateNames api = none)
    (hwildcard : item.sourceNamespace = sourceNamespaceWildcard) (index : Nat) :
    g.decideByPolicy api index item = g.expandWildcard api index item policy := by
  simp [ItemGate.decideByPolicy, h.declared, hval, ResourceRule.isSourceNamespaceWildcard, hwildcard]

theorem Synced.decideByPolicy_named (hval : policy.validateNames api = none) (hname : n ≠ "")
    (hstar : n ≠ sourceNamespaceWildcard) (hitem : item.sourceNamespace = n) (index : Nat) :
    (g.decideByPolicy api index item).verdict = .admitted ↔
      n ∈ policy.names ∨ policy.selectorAdmits api (snapshot.labelsOf n) = .ok true := by
  have hcan : item.effectiveSourceNamespace g.rule.ns = n := by
    rw [ResourceRule.effectiveSourceNamespace, if_pos (hitem ▸ hname), hitem]
  have hdeclare : g.decideByPolicy api index item = g.evaluateCandidate api index item := by
    simp [ItemGate.decideByPolicy, h.declared, hval, ResourceRule.isSourceNamespaceWildcard, hitem,
      hstar]
  rw [hdeclare, evaluateCandidate_verdict, hcan, h.resolveWith_admitted_iff]

end

/-- The selector matches a namespace that does not exist and that no name admits, with nothing
    in the way of either item. -/
structure ItemGate.MatchesMissing (api : ApiMachinery) (g : ItemGate) (policy : NamespaceMatcher)
    (snapshot : NamespaceSnapshot) (n : String) : Prop where
  delegated : g.evaluateDelegation api = .ok none
  valid : policy.validateNames api = none
  unlisted : n ∉ policy.names
  missing : snapshot.labels.lookup n = none
  selected : policy.selectorAdmits api ∅ = .ok true

def askingFor (n : String) : ResourceRule := ⟨[], [], [], [], n⟩

/-- A wildcard and the items that name a namespace agree on it exactly if it is no namespace that
    is missing from the cluster and matched by the selector for want of labels. -/
theorem wildcard_agrees_iff (h : Synced api g policy snapshots snapshot) (n : String)
    (hname : n ≠ "") (hstar : n ≠ sourceNamespaceWildcard) :
    g.AgreesOn api n ↔ ¬ g.MatchesMissing api policy snapshot n := by
  constructor
  · intro hagrees hmissing
    obtain ⟨sel, hselect⟩ : ∃ sel : Labels → Bool, ∀ l, policy.selectorAdmits api l = .ok (sel l) := by
      rcases selectorAdmits_cases api policy with hselect | ⟨-, e, he⟩
      · exact hselect
      · have hselected := hmissing.selected
        rw [he] at hselected
        cases hselected
    -- the name is admitted by its missing labels, but no listing has it to expand to
    have hwildcard := h.expandWildcard_admitted hselect 0 (askingFor sourceNamespaceWildcard)
    have hexpands : g.decideByPolicy api 0 (askingFor sourceNamespaceWildcard) = _ :=
      h.decideByPolicy_wildcard hmissing.valid rfl 0
    have hiff := hagrees (askingFor sourceNamespaceWildcard) (askingFor n) rfl rfl 0 0 _
      (h.decide_eq hmissing.delegated 0 _) (hexpands ▸ hwildcard)
    have hadmits : g.admits api 0 (askingFor n) := by
      refine ⟨_, h.decide_eq hmissing.delegated 0 _, ?_⟩
      refine (h.decideByPolicy_named hmissing.valid hname hstar rfl 0).mpr (.inr ?_)
      rw [NamespaceSnapshot.labelsOf, hmissing.missing]
      exact hmissing.selected
    have hmem := hiff.mpr hadmits
    rw [hexpands, h.mem_expandWildcard hwildcard] at hmem
    rcases hmem with hlisted | ⟨labels, hlookup, -⟩
    · exact hmissing.unlisted hlisted
    · rw [hmissing.missing] at hlookup
      cases hlookup
  · intro hclear wildcard named hwildcard hnamed i j d hd hadmitted
    obtain ⟨hdelegated, rfl⟩ := decide_wildcard hwildcard hd hadmitted
    -- an invalid policy admits no wildcard
    have hvalid : policy.validateNames api = none := by
      cases hvalidate : policy.validateNames api with
      | none => rfl
      | some e =>
        simp [ItemGate.decideByPolicy, h.declared, hvalidate] at hadmitted
    rw [h.decideByPolicy_wildcard hvalid hwildcard] at hadmitted ⊢
    rw [h.mem_expandWildcard hadmitted]
    have hadmits : g.admits api j named ↔
        n ∈ policy.names ∨ policy.selectorAdmits api (snapshot.labelsOf n) = .ok true := by
      rw [← h.decideByPolicy_named hvalid hname hstar hnamed j]
      simp [ItemGate.admits, h.decide_eq hdelegated]
    rw [hadmits, expansion, NamespaceSnapshot.labelsOf]
    cases hlookup : snapshot.labels.lookup n with
    | some labels => simp
    | none =>
      simp only [reduceCtorEq, false_and, exists_false, or_false, Option.getD_none]
      refine ⟨.inl, fun hor => ?_⟩
      by_contra hunlisted
      exact hclear ⟨hdelegated, hvalid, hunlisted, hlookup, hor.resolve_left hunlisted⟩

end Synced

/-! A target that admits every namespace, and a cluster with one. -/

def LabelSelectorRequirement.holds (r : LabelSelectorRequirement) (labels : Labels) : Bool :=
  match r.operator with
  | "In" => (labels.lookup r.key).any r.values.contains
  | "NotIn" => !(labels.lookup r.key).any r.values.contains
  | "Exists" => (labels.lookup r.key).isSome
  | _ => (labels.lookup r.key).isNone

def documentedApi : ApiMachinery where
  labelSelectorAsSelector selector :=
    if selector.matchExpressions.all (fun r =>
        if ["In", "NotIn"].contains r.operator then r.values ≠ []
        else ["Exists", "DoesNotExist"].contains r.operator && r.values.isEmpty) then
      .ok (fun labels => selector.matchLabels.all (fun p => labels.lookup p.1 = some p.2) &&
        selector.matchExpressions.all (·.holds labels))
    else .error "not a valid label selector operator"
  isDNS1123Label n :=
    if n ≠ "" ∧ n.toList.all (fun c => c.isLower || c.isDigit || c = '-') then []
    else ["a lowercase RFC 1123 label must consist of lower case alphanumeric characters or '-'"]
  quote s := "\"" ++ s ++ "\""

def everyNamespace : NamespaceMatcher := ⟨[], some ⟨[], []⟩⟩

def openTarget : GitTarget := ⟨"mirror", "team", none, some everyNamespace, "main", "live"⟩

def delegatingReader : Reader where
  clusterProvider _ := .ok (some ⟨some ⟨["team"], none⟩, true⟩)
  namespaceLabels _ := .ok none

def oneNamespace : NamespaceSnapshot := listSourceNamespaces none (.listed (AList.singleton "prod" ∅))

def openGate : ItemGate :=
  ⟨delegatingReader, ⟨"rule", "team", []⟩, openTarget,
    some (sourceScope documentedApi (AList.singleton "default" oneNamespace))⟩

theorem missing_namespace_is_admitted_by_selector : ¬ openGate.AgreesOn documentedApi "ghost" := by
  intro h
  have hiff := h (askingFor sourceNamespaceWildcard) (askingFor "ghost") rfl rfl 0 0 _ rfl (by decide)
  have hmem := hiff.mpr ⟨_, rfl, by decide⟩
  revert hmem
  decide

theorem existing_namespace_agrees : openGate.AgreesOn documentedApi "prod" := by
  have hsynced : Synced documentedApi openGate everyNamespace
      (AList.singleton "default" oneNamespace) oneNamespace := ⟨rfl, rfl, rfl, rfl⟩
  refine (wildcard_agrees_iff hsynced "prod" (by decide) (by decide)).mpr ?_
  intro h
  exact absurd h.missing (by decide)

end GitopsReverser.Authz
