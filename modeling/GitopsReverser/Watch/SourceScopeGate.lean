import GitopsReverser.Watch.WatchRuleCompile

/-!
# SourceScopeGate — what a rule that stays compiled may watch

Every verdict of the gate is told apart by the call's inputs: who reads the policy, whether it
can be evaluated, and what it says. A compiled rule that stays is what this call granted, or was
compiled from the same items and target, unless the call changed them and could not be decided.
-/

namespace GitopsReverser.Watch

open Reasoning Authz

variable {api : ApiMachinery}

/-! ## 1. The provider's side -/

theorem evaluateDelegation_eq_none_iff (c : CompileCall) :
    (c.gate api).evaluateDelegation api = .ok none ↔ c.Delegated api := by
  unfold ItemGate.evaluateDelegation CompileCall.Delegated CompileCall.gate
  simp only
  cases c.reader.clusterProvider c.target.sourceCluster with
  | error e => simp
  | ok found =>
    cases found with
    | none => simp
    | some provider =>
      simp only [Except.ok.injEq, Option.some.injEq, exists_eq_left']
      cases gitTargetAdmitted api c.reader c.target with
      | error e => simp
      | ok decision => cases decision <;> simp

/-! ## 2. One item's verdict -/

namespace CompileCall

/-- The policy is asked about the item: it is declared, and the provider's side permits. -/
def Asked (api : ApiMachinery) (c : CompileCall) (item : ResourceRule) (policy : NamespaceMatcher) :
    Prop :=
  c.target.allowedSourceNamespaces = some policy ∧
    (item.overridesSourceNamespace c.rule.ns = true → c.Delegated api)

def NeedsSelector (c : CompileCall) (item : ResourceRule) (policy : NamespaceMatcher) : Prop :=
  policy.selector.isSome = true ∧ (item.isSourceNamespaceWildcard = true ∨
    item.effectiveSourceNamespace c.rule.ns ∉ policy.names)

/-- The Namespaces of the source cluster have not been listed, and may yet be. -/
def Unlisted (c : CompileCall) : Prop :=
  ∀ snapshot, c.snapshot = some snapshot → snapshot.forbidden = false ∧ snapshot.synced = false

def Pending (api : ApiMachinery) (c : CompileCall) (item : ResourceRule) : Prop :=
  ∃ policy, c.Asked api item policy ∧ policy.validateNames api = none ∧
    c.NeedsSelector item policy ∧ c.Unlisted

/-- The selector does not convert; a wildcard notices at the first namespace. -/
def Malformed (api : ApiMachinery) (policy : NamespaceMatcher) (item : ResourceRule)
    (snapshot : NamespaceSnapshot) : Prop :=
  (∃ e, ∀ labels, policy.selectorAdmits api labels = .error e) ∧
    (item.isSourceNamespaceWildcard = true → snapshot.labels.entries ≠ [])

/-- Only an operator can make the policy answer for the item. -/
def Unanswerable (api : ApiMachinery) (c : CompileCall) (item : ResourceRule) : Prop :=
  ∃ policy, c.Asked api item policy ∧ (policy.validateNames api ≠ none ∨
    c.NeedsSelector item policy ∧ ∃ snapshot, c.snapshot = some snapshot ∧
      (snapshot.forbidden = true ∨ snapshot.synced = true ∧ Malformed api policy item snapshot))

/-- The item is refused: by the provider, for want of a policy, or by the policy. -/
def Refused (api : ApiMachinery) (c : CompileCall) (item : ResourceRule) : Prop :=
  item.overridesSourceNamespace c.rule.ns = true ∧
    (¬ c.Delegated api ∨ c.target.allowedSourceNamespaces = none) ∨
  ∃ policy, c.Asked api item policy ∧ policy.validateNames api = none ∧
    item.isSourceNamespaceWildcard = false ∧
    item.effectiveSourceNamespace c.rule.ns ∉ policy.names ∧
    (policy.selector = none ∨ ∃ snapshot, c.snapshot = some snapshot ∧ snapshot.synced = true ∧
      policy.selectorAdmits api (snapshot.labelsOf (item.effectiveSourceNamespace c.rule.ns)) =
        .ok false)

end CompileCall

/-! ## 3. What the service answers -/

/-- The verdict of the service: nothing listed yet, listing forbidden, or what the list says. -/
def observedVerdict (snapshot : Option NamespaceSnapshot)
    (listed : NamespaceSnapshot → SourceScopeVerdict) : SourceScopeVerdict :=
  match snapshot with
  | none => .unknown
  | some snapshot =>
    if snapshot.forbidden then .unavailable
    else if snapshot.synced then listed snapshot
    else .unknown

def candidateVerdict (api : ApiMachinery) (policy : NamespaceMatcher) (n : String)
    (snapshot : NamespaceSnapshot) : SourceScopeVerdict :=
  match policy.selectorAdmits api (snapshot.labelsOf n) with
  | .error _ => .unavailable
  | .ok true => .admitted
  | .ok false => .denied

def listVerdict (api : ApiMachinery) (policy : NamespaceMatcher) (snapshot : NamespaceSnapshot) :
    SourceScopeVerdict :=
  match admittedNames api policy snapshot.labels.entries with
  | .error _ => .unavailable
  | .ok _ => .admitted

theorem unusableSnapshot_eq (api : ApiMachinery) (cluster : String) (snapshot : Option NamespaceSnapshot)
    (listed : NamespaceSnapshot → SourceScopeVerdict) :
    (∃ result, unusableSnapshot api cluster snapshot = some result ∧
      observedVerdict snapshot listed = result.verdict) ∨
    ∃ s, snapshot = some s ∧ unusableSnapshot api cluster snapshot = none ∧
      observedVerdict snapshot listed = listed s := by
  unfold unusableSnapshot observedVerdict
  cases snapshot with
  | none => exact .inl ⟨_, rfl, rfl⟩
  | some s =>
    by_cases hforbid : s.forbidden = true
    · simp only [if_pos hforbid]
      exact .inl ⟨_, rfl, rfl⟩
    · by_cases hsync : s.synced = true
      · exact .inr ⟨s, rfl, (if_neg hforbid).trans (if_pos hsync), (if_neg hforbid).trans (if_pos hsync)⟩
      · simp only [if_neg hforbid, if_neg hsync]
        cases s.err <;> exact .inl ⟨_, rfl, rfl⟩

variable {c : CompileCall} {policy : NamespaceMatcher}
  {listed : NamespaceSnapshot → SourceScopeVerdict} {v : SourceScopeVerdict} {item : ResourceRule}
  {g : ItemGate} {index : Nat} {d : SourceNamespaceDecision} {items : List SourceNamespaceDecision}

theorem resolveWith_verdict (hpolicy : c.target.allowedSourceNamespaces = some policy)
    (hselect : policy.selector.isSome = true) (hname : n ∉ policy.names) :
    (resolveWith (c.gate api).resolver c.target n).verdict =
      observedVerdict c.snapshot (candidateVerdict api policy n) := by
  have hmiss : matchesName (some policy) n = false := by simpa [matchesName] using hname
  obtain ⟨selector, hselect⟩ := Option.isSome_iff_exists.mp hselect
  unfold resolveWith CompileCall.gate
  simp only [hpolicy, hmiss, Bool.false_eq_true, if_false, Option.bind_some, hselect]
  cases hsnapshot : c.snapshots with
  | none => simp [CompileCall.snapshot, hsnapshot, observedVerdict]
  | some snapshots =>
    have hsnap : c.snapshot = snapshots.lookup c.target.sourceCluster := by
      rw [CompileCall.snapshot, hsnapshot, Option.bind_some]
    simp only [Option.map_some, sourceScope, resolveSourceNamespace, hsnap, hpolicy,
      matchesNamespace, hmiss, Bool.false_eq_true, if_false]
    rcases unusableSnapshot_eq api c.target.sourceCluster
      (snapshots.lookup c.target.sourceCluster) (candidateVerdict api policy n) with
      ⟨result, hunusable, hverdict⟩ | ⟨s, hs, husable, hverdict⟩
    · rw [hunusable, hverdict]
    · rw [husable, hverdict, hs, candidateVerdict, NamespaceSnapshot.labelsOf]
      simp only [Option.map_some, Option.bind_some]
      cases policy.selectorAdmits api ((s.labels.lookup n).getD ∅) with
      | error e => rfl
      | ok admits => cases admits <;> rfl

theorem enumerateWith_verdict (hpolicy : c.target.allowedSourceNamespaces = some policy) :
    (enumerateWith (c.gate api).resolver c.target).2.verdict =
      observedVerdict c.snapshot (listVerdict api policy) := by
  unfold enumerateWith CompileCall.gate
  cases hsnapshot : c.snapshots with
  | none => simp [CompileCall.snapshot, hsnapshot, observedVerdict]
  | some snapshots =>
    have hsnap : c.snapshot = snapshots.lookup c.target.sourceCluster := by
      rw [CompileCall.snapshot, hsnapshot, Option.bind_some]
    simp only [Option.map_some, sourceScope, enumerateSourceNamespaces, hsnap, hpolicy]
    rcases unusableSnapshot_eq api c.target.sourceCluster
      (snapshots.lookup c.target.sourceCluster) (listVerdict api policy) with
      ⟨result, hunusable, hverdict⟩ | ⟨s, hs, husable, hverdict⟩
    · rw [hunusable, hverdict]
    · rw [husable, hverdict, hs, listVerdict]
      simp only
      cases admittedNames api policy s.labels.entries <;> rfl

/-! ## 4. Every verdict, by the inputs -/

/-- What the inputs say about an item with this verdict. -/
def Standing (api : ApiMachinery) (c : CompileCall) (item : ResourceRule)
    (d : SourceNamespaceDecision) : Prop :=
  match d.verdict with
  | .admitted => c.Granted api item d.namespaces
  | .denied => c.Refused api item
  | .unavailable => c.Unanswerable api item
  | .unknown => c.Pending api item

theorem observedVerdict_eq_unknown (hlist : ∀ s, listed s ≠ .unknown)
    (h : observedVerdict c.snapshot listed = .unknown) :
    c.Unlisted := by
  intro snapshot hsnapshot
  rw [hsnapshot, observedVerdict] at h
  split_ifs at h with hforbid hsync
  · exact absurd h (hlist snapshot)
  · exact ⟨by simpa using hforbid, by simpa using hsync⟩

theorem observedVerdict_eq (hv : v ≠ .unknown) (h : observedVerdict c.snapshot listed = v) :
    ∃ s, c.snapshot = some s ∧
      (s.forbidden = true ∧ v = .unavailable ∨ s.synced = true ∧ listed s = v) := by
  unfold observedVerdict at h
  cases hsnapshot : c.snapshot with
  | none =>
    rw [hsnapshot] at h
    exact absurd h.symm hv
  | some s =>
    rw [hsnapshot] at h
    simp only at h
    split_ifs at h with hforbid hsync
    · exact ⟨s, rfl, .inl ⟨hforbid, h.symm⟩⟩
    · exact ⟨s, rfl, .inr ⟨hsync, h⟩⟩
    · exact absurd h.symm hv

theorem candidateVerdict_ne_unknown (policy : NamespaceMatcher) (n : String) (s : NamespaceSnapshot) :
    candidateVerdict api policy n s ≠ .unknown := by
  unfold candidateVerdict
  split <;> simp

theorem listVerdict_ne_unknown (policy : NamespaceMatcher) (s : NamespaceSnapshot) :
    listVerdict api policy s ≠ .unknown := by
  unfold listVerdict
  split <;> simp

theorem granted_of_named (hask : c.Asked api item policy)
    (hnamespace : item.isSourceNamespaceWildcard = false)
    (hadmitted : c.Admits api policy (item.effectiveSourceNamespace c.rule.ns)) :
    c.Granted api item [item.effectiveSourceNamespace c.rule.ns] := by
  refine ⟨hask.2, ?_, ?_, ?_⟩
  · intro hnone
    rw [hask.1] at hnone
    cases hnone
  · intro policy' hpolicy' _
    rw [hask.1] at hpolicy'
    cases hpolicy'
    exact ⟨rfl, hadmitted⟩
  · intro _ _ hwildcard
    rw [hnamespace] at hwildcard
    cases hwildcard

theorem granted_of_wildcard (hask : c.Asked api item policy)
    (hwildcard : item.isSourceNamespaceWildcard = true)
    (hmem : ∀ n, n ∈ namespaces ↔ c.AdmitsExisting api policy n) :
    c.Granted api item namespaces := by
  refine ⟨hask.2, ?_, ?_, ?_⟩
  · intro hnone
    rw [hask.1] at hnone
    cases hnone
  · intro _ _ hname
    rw [hwildcard] at hname
    cases hname
  · intro policy' hpolicy' _
    rw [hask.1] at hpolicy'
    cases hpolicy'
    exact hmem

theorem resolveWith_cases (api : ApiMachinery)
    (hpolicy : c.target.allowedSourceNamespaces = some policy) (n : String) :
    (n ∈ policy.names ∧ (resolveWith (c.gate api).resolver c.target n).verdict = .admitted) ∨
    (n ∉ policy.names ∧ policy.selector = none ∧
      (resolveWith (c.gate api).resolver c.target n).verdict = .denied) ∨
    (n ∉ policy.names ∧ policy.selector.isSome = true ∧
      (resolveWith (c.gate api).resolver c.target n).verdict =
        observedVerdict c.snapshot (candidateVerdict api policy n)) := by
  by_cases hname : n ∈ policy.names
  · exact .inl ⟨hname, by simp [resolveWith, hpolicy, matchesName, hname]⟩
  · cases hselect : policy.selector with
    | none =>
      refine .inr (.inl ⟨hname, rfl, ?_⟩)
      simp [resolveWith, hpolicy, matchesName, hname, hselect]
    | some selector =>
      refine .inr (.inr ⟨hname, rfl, resolveWith_verdict hpolicy (by simp [hselect]) hname⟩)

theorem evaluateCandidate_namespaces (h : (g.evaluateCandidate api index item).verdict = .admitted) :
    (g.evaluateCandidate api index item).namespaces = [item.effectiveSourceNamespace g.rule.ns] := by
  unfold ItemGate.evaluateCandidate at h ⊢
  simp only at h ⊢
  split at h
  · rfl
  all_goals cases h

/-- A candidate is listed, or not listed with no selector, or the selector's to answer. -/
theorem candidate_standing (hask : c.Asked api item policy)
    (hval : policy.validateNames api = none) (hnamed : item.isSourceNamespaceWildcard = false)
    (index : Nat) :
    Standing api c item ((c.gate api).evaluateCandidate api index item) := by
  have hverdict : ((c.gate api).evaluateCandidate api index item).verdict =
      (resolveWith (c.gate api).resolver c.target (item.effectiveSourceNamespace c.rule.ns)).verdict :=
    evaluateCandidate_verdict _ _ _
  have hnamespace : ((c.gate api).evaluateCandidate api index item).verdict = .admitted →
      ((c.gate api).evaluateCandidate api index item).namespaces =
        [item.effectiveSourceNamespace c.rule.ns] := evaluateCandidate_namespaces
  unfold Standing
  generalize (c.gate api).evaluateCandidate api index item = d at hverdict hnamespace ⊢
  rcases resolveWith_cases api hask.1 (item.effectiveSourceNamespace c.rule.ns) with
    ⟨hname, hv⟩ | ⟨hname, hselects, hv⟩ | ⟨hname, hselects, hv⟩
  · rw [hv] at hverdict
    rw [hverdict, hnamespace hverdict]
    exact granted_of_named hask hnamed (.inl hname)
  · rw [hv] at hverdict
    rw [hverdict]
    exact .inr ⟨policy, hask, hval, hnamed, hname, .inl hselects⟩
  · have hneed : c.NeedsSelector item policy := ⟨hselects, .inr hname⟩
    rw [hv] at hverdict
    -- the selector answers, or the state of the listing does in its place
    cases hd : d.verdict with
    | unknown =>
      rw [hd] at hverdict
      exact ⟨policy, hask, hval, hneed,
        observedVerdict_eq_unknown (candidateVerdict_ne_unknown policy _) hverdict.symm⟩
    | unavailable =>
      rw [hd] at hverdict
      obtain ⟨s, hs, hor⟩ := observedVerdict_eq (by simp) hverdict.symm
      refine ⟨policy, hask, .inr ⟨hneed, s, hs, ?_⟩⟩
      rcases hor with ⟨hforbid, -⟩ | ⟨hsync, hlist⟩
      · exact .inl hforbid
      · refine .inr ⟨hsync, ?_, fun hw => by rw [hnamed] at hw; cases hw⟩
        -- a selector that converts answers yes or no
        rcases selectorAdmits_cases api policy with ⟨sel, hselect⟩ | ⟨-, he⟩
        · rw [candidateVerdict, hselect] at hlist
          cases hb : sel (s.labelsOf (item.effectiveSourceNamespace c.rule.ns)) <;>
            rw [hb] at hlist <;> cases hlist
        · exact he
    | admitted =>
      rw [hd] at hverdict
      obtain ⟨s, hs, ⟨-, habsent⟩ | ⟨hsync, hlist⟩⟩ := observedVerdict_eq (by simp) hverdict.symm
      · cases habsent
      · rw [hnamespace hd]
        refine granted_of_named hask hnamed (.inr ⟨hselects, s, hs, hsync, ?_⟩)
        unfold candidateVerdict at hlist
        split at hlist
        · cases hlist
        · assumption
        · cases hlist
    | denied =>
      rw [hd] at hverdict
      obtain ⟨s, hs, ⟨-, habsent⟩ | ⟨hsync, hlist⟩⟩ := observedVerdict_eq (by simp) hverdict.symm
      · cases habsent
      · refine .inr ⟨policy, hask, hval, hnamed, hname, .inr ⟨s, hs, hsync, ?_⟩⟩
        unfold candidateVerdict at hlist
        split at hlist
        · cases hlist
        · cases hlist
        · assumption

theorem expandWildcard_verdict (hselect : policy.hasSelector = true) (index : Nat) (item : ResourceRule) :
    (g.expandWildcard api index item policy).verdict =
      match (enumerateWith g.resolver g.target).2.verdict with
      | .admitted => .admitted
      | .unavailable => .unavailable
      | .denied | .unknown => .unknown := by
  unfold ItemGate.expandWildcard
  simp only [hselect, if_true]
  cases (enumerateWith g.resolver g.target).2.verdict with
  | admitted => exact (expandedTo_eq g index item _).1
  | unavailable | denied | unknown => rfl

theorem synced_of_snapshot
    (hpolicy : c.target.allowedSourceNamespaces = some policy) (hs : c.snapshot = some s)
    (hsync : s.synced = true) : ∃ snapshots, Synced api (c.gate api) policy snapshots s := by
  obtain ⟨snapshots, hsnapshot, hlook⟩ := Option.bind_eq_some_iff.mp hs
  exact ⟨snapshots, hpolicy, by rw [CompileCall.gate, hsnapshot]; rfl, hlook, hsync⟩

theorem wildcard_standing (hask : c.Asked api item policy)
    (hval : policy.validateNames api = none) (hwildcard : item.isSourceNamespaceWildcard = true)
    (index : Nat) :
    Standing api c item ((c.gate api).expandWildcard api index item policy) := by
  cases hselects : policy.selector with
  | none =>
    have hd : (c.gate api).expandWildcard api index item policy =
        (c.gate api).expandedTo api index item policy.names := by
      simp [ItemGate.expandWildcard, NamespaceMatcher.hasSelector, hselects]
    obtain ⟨hverdict, hname⟩ := expandedTo_eq (c.gate api) index item policy.names
    unfold Standing
    rw [hd, hverdict, hname]
    refine granted_of_wildcard hask hwildcard (fun n => ?_)
    rw [mem_sortedUnique, CompileCall.AdmitsExisting, hselects]
    simp
  | some selector =>
    have hsome : policy.selector.isSome = true := by rw [hselects]; rfl
    have hneed : c.NeedsSelector item policy := ⟨hsome, .inl hwildcard⟩
    have hverdict : ((c.gate api).expandWildcard api index item policy).verdict = _ :=
      expandWildcard_verdict hsome index item
    have hobserve : (enumerateWith (c.gate api).resolver (c.gate api).target).2.verdict = _ :=
      enumerateWith_verdict hask.1
    rw [hobserve] at hverdict
    unfold Standing
    cases hv : observedVerdict c.snapshot (listVerdict api policy) with
    | unknown =>
      rw [hv] at hverdict
      rw [hverdict]
      exact ⟨policy, hask, hval, hneed, observedVerdict_eq_unknown (listVerdict_ne_unknown policy) hv⟩
    | unavailable =>
      rw [hv] at hverdict
      rw [hverdict]
      obtain ⟨s, hs, hor⟩ := observedVerdict_eq (by simp) hv
      refine ⟨policy, hask, .inr ⟨hneed, s, hs, ?_⟩⟩
      rcases hor with ⟨hforbid, -⟩ | ⟨hsynced, hlist⟩
      · exact .inl hforbid
      · refine .inr ⟨hsynced, ?_⟩
        -- a selector that converts lists what it admits
        rcases selectorAdmits_cases api policy with ⟨sel, hselect⟩ | ⟨-, he⟩
        · rw [listVerdict, admittedNames_eq hselect] at hlist
          cases hlist
        · refine ⟨he, fun _ hnil => ?_⟩
          rw [listVerdict, hnil] at hlist
          cases hlist
    | denied =>
      -- an expansion has no verdict `denied`
      obtain ⟨s, -, ⟨-, habsent⟩ | ⟨-, hlist⟩⟩ := observedVerdict_eq (by simp) hv
      · cases habsent
      · unfold listVerdict at hlist
        split at hlist <;> cases hlist
    | admitted =>
      rw [hv] at hverdict
      rw [hverdict]
      obtain ⟨s, hs, ⟨-, habsent⟩ | ⟨hsynced, -⟩⟩ := observedVerdict_eq (by simp) hv
      · cases habsent
      · obtain ⟨snapshots, hsync⟩ := synced_of_snapshot hask.1 hs hsynced
        refine granted_of_wildcard hask hwildcard (fun n => ?_)
        rw [hsync.mem_expandWildcard hverdict, expansion, CompileCall.AdmitsExisting]
        simp [hsome, hs, hsynced]

/-! ## 5. The rule's verdict -/

theorem decideByPolicy_invalid (hpolicy : g.target.allowedSourceNamespaces = some policy)
    (hinv : policy.validateNames api = some e) (index : Nat) (item : ResourceRule) :
    (g.decideByPolicy api index item).verdict = .unavailable := by
  simp only [ItemGate.decideByPolicy, hpolicy, hinv]

theorem decideByPolicy_eq (hpolicy : g.target.allowedSourceNamespaces = some policy)
    (hval : policy.validateNames api = none) (index : Nat) (item : ResourceRule) :
    g.decideByPolicy api index item =
      if item.isSourceNamespaceWildcard then g.expandWildcard api index item policy
      else g.evaluateCandidate api index item := by
  simp only [ItemGate.decideByPolicy, hpolicy, hval]

theorem policy_standing (hask : c.Asked api item policy) (index : Nat) :
    Standing api c item ((c.gate api).decideByPolicy api index item) := by
  have hpolicy : (c.gate api).target.allowedSourceNamespaces = some policy := hask.1
  cases hval : policy.validateNames api with
  | some e =>
    unfold Standing
    rw [decideByPolicy_invalid hpolicy hval]
    exact ⟨policy, hask, .inl (by simp [hval])⟩
  | none =>
    rw [decideByPolicy_eq hpolicy hval]
    cases hwildcard : item.isSourceNamespaceWildcard with
    | true => exact wildcard_standing hask hval hwildcard index
    | false => exact candidate_standing hask hval hwildcard index

theorem decide_of_asked (hask : c.Asked api item policy) (index : Nat) :
    (c.gate api).decide api index item = .ok ((c.gate api).decideByPolicy api index item) := by
  have hpolicy : (c.gate api).target.allowedSourceNamespaces = some policy := hask.1
  have hns : (c.gate api).rule.ns = c.rule.ns := rfl
  unfold ItemGate.decide
  rw [hns, hpolicy]
  cases hoverride : item.overridesSourceNamespace c.rule.ns with
  | false => rfl
  | true =>
    rw [(evaluateDelegation_eq_none_iff c).mpr (hask.2 hoverride)]
    rfl

theorem decide_override (h : (c.gate api).decide api index item = .ok d)
    (hoverride : item.overridesSourceNamespace c.rule.ns = true) :
    (¬ c.Delegated api ∧ d.verdict = .denied) ∨
      (c.Delegated api ∧ d = (c.gate api).decideByPolicy api index item) := by
  have hns : (c.gate api).rule.ns = c.rule.ns := rfl
  rw [ItemGate.decide, hns, hoverride] at h
  simp only [Bool.not_true, Bool.false_eq_true, if_false] at h
  rw [← evaluateDelegation_eq_none_iff]
  split at h
  · cases h
  · rename_i refusal href
    cases h
    exact .inl ⟨by simp [href], rfl⟩
  · rename_i hdel
    cases h
    exact .inr ⟨hdel, rfl⟩

theorem decide_undeclared (hnone : c.target.allowedSourceNamespaces = none) (index : Nat) :
    ((c.gate api).decideByPolicy api index item).verdict = .denied := by
  have hpolicy : (c.gate api).target.allowedSourceNamespaces = none := hnone
  unfold ItemGate.decideByPolicy
  rw [hpolicy]

theorem decide_standing (h : (c.gate api).decide api index item = .ok d) : Standing api c item d := by
  cases hpolicy : c.target.allowedSourceNamespaces with
  | some policy =>
    -- the provider is asked first, and about an override only
    by_cases hask : item.overridesSourceNamespace c.rule.ns = true → c.Delegated api
    · rw [decide_of_asked ⟨hpolicy, hask⟩] at h
      cases h
      exact policy_standing ⟨hpolicy, hask⟩ index
    · obtain ⟨hoverride, href⟩ := Classical.not_imp.mp hask
      rcases decide_override h hoverride with ⟨-, hverdict⟩ | ⟨hdel, -⟩
      · unfold Standing
        rw [hverdict]
        exact .inl ⟨hoverride, .inl href⟩
      · exact absurd hdel href
  | none =>
    cases hoverride : item.overridesSourceNamespace c.rule.ns with
    | true =>
      have hverdict : d.verdict = .denied := by
        rcases decide_override h hoverride with ⟨-, hverdict⟩ | ⟨-, rfl⟩
        · exact hverdict
        · exact decide_undeclared hpolicy index
      unfold Standing
      rw [hverdict]
      exact .inl ⟨hoverride, .inr hpolicy⟩
    | false =>
      -- the rule's own namespace needs no policy
      have hns : (c.gate api).rule.ns = c.rule.ns := rfl
      have htarget : (c.gate api).target.allowedSourceNamespaces = none := hpolicy
      have hown : item.effectiveSourceNamespace c.rule.ns = c.rule.ns := by
        simp only [ResourceRule.overridesSourceNamespace, Bool.or_eq_false_iff,
          decide_eq_false_iff_not, ne_eq, not_not] at hoverride
        exact hoverride.2
      rw [ItemGate.decide, hns, hoverride, htarget] at h
      cases h
      refine ⟨fun h => ?_, fun _ => ⟨congrArg (fun n => [n]) hown, hoverride⟩, fun _ h => ?_,
        fun _ h => ?_⟩
      · rw [hoverride] at h
        cases h
      · rw [hpolicy] at h
        cases h
      · rw [hpolicy] at h
        cases h

theorem decide_of_refused (h : (c.gate api).decide api index item = .ok d)
    (href : c.Refused api item) : d.verdict = .denied := by
  rcases href with ⟨hoverride, hor⟩ | ⟨policy, hask, hval, hnamed, hname, hor⟩
  · -- by the provider, or for want of a policy
    rcases decide_override h hoverride with ⟨-, hverdict⟩ | ⟨hdel, rfl⟩
    · exact hverdict
    · exact decide_undeclared (hor.resolve_left (not_not.mpr hdel)) index
  · -- by the policy, and then by what it says about the one candidate
    have hpolicy : (c.gate api).target.allowedSourceNamespaces = some policy := hask.1
    have hd : d = (c.gate api).evaluateCandidate api index item := by
      rw [decide_of_asked hask] at h
      cases h
      rw [decideByPolicy_eq hpolicy hval, hnamed]
      rfl
    have hverdict : d.verdict =
        (resolveWith (c.gate api).resolver c.target (item.effectiveSourceNamespace c.rule.ns)).verdict := by
      rw [hd]
      exact evaluateCandidate_verdict _ _ _
    rcases resolveWith_cases api hask.1 (item.effectiveSourceNamespace c.rule.ns) with
      ⟨hmem, -⟩ | ⟨-, -, hv⟩ | ⟨-, hselect, hv⟩
    · exact absurd hmem hname
    · rw [hverdict, hv]
    · rcases hor with hnone | ⟨s, hs, hsync, hfails⟩
      · rw [hnone] at hselect
        cases hselect
      · rw [hverdict, hv, hs, observedVerdict, if_neg (by simp [s.usable hsync]), if_pos hsync,
          candidateVerdict, hfails]

theorem admittedNames_error (he : ∀ labels, policy.selectorAdmits api labels = .error e)
    (hne : entries ≠ []) :
    admittedNames api policy entries = .error e := by
  cases entries with
  | nil => exact absurd rfl hne
  | cons entry entries => rw [admittedNames, he]

theorem decide_of_unanswerable (h : (c.gate api).decide api index item = .ok d)
    (hunavailable : c.Unanswerable api item) : d.verdict = .unavailable := by
  obtain ⟨policy, hask, hor⟩ := hunavailable
  have hpolicy : (c.gate api).target.allowedSourceNamespaces = some policy := hask.1
  rw [decide_of_asked hask] at h
  cases h
  cases hval : policy.validateNames api with
  | some e => exact decideByPolicy_invalid hpolicy hval index item
  | none =>
    rw [decideByPolicy_eq hpolicy hval]
    obtain ⟨⟨hselect, hread⟩, s, hs, hor⟩ := hor.resolve_left (not_not.mpr hval)
    -- listing is forbidden, or the list is there and the selector does not convert
    have hobserve : ∀ {listed : NamespaceSnapshot → SourceScopeVerdict},
        (s.synced = true → s.forbidden = true ∨ listed s = .unavailable) →
        (s.forbidden = true ∨ s.synced = true) →
        observedVerdict c.snapshot listed = .unavailable := by
      intro listed hlisted hseen
      rw [hs, observedVerdict]
      split_ifs with hforbid hsync
      · rfl
      · exact (hlisted hsync).resolve_left hforbid
      · exact absurd (hseen.resolve_left hforbid) hsync
    have hseen : s.forbidden = true ∨ s.synced = true := hor.imp_right (·.1)
    cases hwildcard : item.isSourceNamespaceWildcard with
    | true =>
      have hlist : (enumerateWith (c.gate api).resolver (c.gate api).target).2.verdict = _ :=
        enumerateWith_verdict hask.1
      have hverdict : ((c.gate api).expandWildcard api index item policy).verdict = _ :=
        expandWildcard_verdict hselect index item
      rw [hobserve (fun _ => ?_) hseen] at hlist
      · rw [hlist] at hverdict
        exact hverdict
      · refine hor.imp_right (fun hm => ?_)
        obtain ⟨-, ⟨e, he⟩, hne⟩ := hm
        rw [listVerdict, admittedNames_error he (hne hwildcard)]
    | false =>
      have hname := hread.resolve_left (by simp [hwildcard])
      have hcan : (resolveWith (c.gate api).resolver c.target
          (item.effectiveSourceNamespace c.rule.ns)).verdict = _ :=
        resolveWith_verdict hask.1 hselect hname
      have hverdict : ((c.gate api).evaluateCandidate api index item).verdict = _ :=
        evaluateCandidate_verdict _ _ _
      rw [hobserve (fun _ => ?_) hseen] at hcan
      · exact hverdict.trans hcan
      · refine hor.imp_right (fun hm => ?_)
        obtain ⟨-, ⟨e, he⟩, -⟩ := hm
        rw [candidateVerdict, he]

theorem decideAll_forall {items : List ResourceRule}
    (h : (c.gate api).decideAll api index items = .ok ds) :
    List.Forall₂ (fun item d => ∃ i, (c.gate api).decide api i item = .ok d) items ds := by
  induction items generalizing index ds with
  | nil =>
    cases h
    exact .nil
  | cons item items ih =>
    rw [ItemGate.decideAll] at h
    cases hd : (c.gate api).decide api index item with
    | error e =>
      rw [hd] at h
      cases h
    | ok d =>
      rw [hd] at h
      cases hrest : (c.gate api).decideAll api (index + 1) items with
      | error e =>
        rw [hrest] at h
        cases h
      | ok rest =>
        rw [hrest] at h
        cases h
        exact .cons ⟨index, hd⟩ (ih hrest)

theorem firstWithVerdict_some (h : firstWithVerdict items v = some d) : d ∈ items ∧ d.verdict = v :=
  ⟨List.mem_of_find?_eq_some h, by simpa using List.find?_some h⟩

theorem firstWithVerdict_none (h : firstWithVerdict items v = none) : ∀ d ∈ items, d.verdict ≠ v := by
  intro d hd
  simpa using List.find?_eq_none.mp h d hd

theorem aggregate_cases (items : List SourceNamespaceDecision) :
    (aggregateSourceScope items).items = items ∧
    match (aggregateSourceScope items).verdict with
    | .denied => True
    | .unavailable => (∃ d ∈ items, d.verdict = .unavailable) ∧ ∀ d ∈ items, d.verdict ≠ .denied
    | .unknown => (∃ d ∈ items, d.verdict = .unknown) ∧
        ∀ d ∈ items, d.verdict ≠ .denied ∧ d.verdict ≠ .unavailable
    | .admitted => ∀ d ∈ items, d.verdict = .admitted := by
  unfold aggregateSourceScope
  split_ifs with hnil
  · simp [hnil]
  · -- the first item of the worst verdict decides, so the verdicts are asked for in their order
    cases hdenied : firstWithVerdict items .denied with
    | some d =>
      obtain ⟨-, hv⟩ := firstWithVerdict_some hdenied
      simp [List.findSome?, hdenied, hv]
    | none =>
      have hnone := firstWithVerdict_none hdenied
      cases hunavailable : firstWithVerdict items .unavailable with
      | some d =>
        obtain ⟨hmem, hv⟩ := firstWithVerdict_some hunavailable
        simp only [List.findSome?, hdenied, hunavailable, hv, true_and]
        exact ⟨⟨d, hmem, hv⟩, hnone⟩
      | none =>
        have hnone' := firstWithVerdict_none hunavailable
        cases hunknown : firstWithVerdict items .unknown with
        | some d =>
          obtain ⟨hmem, hv⟩ := firstWithVerdict_some hunknown
          simp only [List.findSome?, hdenied, hunavailable, hunknown, hv, true_and]
          exact ⟨⟨d, hmem, hv⟩, fun d hd => ⟨hnone d hd, hnone' d hd⟩⟩
        | none =>
          have hnone'' := firstWithVerdict_none hunknown
          simp only [List.findSome?, hdenied, hunavailable, hunknown, true_and]
          intro d hd
          cases hv : d.verdict with
          | admitted => rfl
          | denied => exact absurd hv (hnone d hd)
          | unavailable => exact absurd hv (hnone' d hd)
          | unknown => exact absurd hv (hnone'' d hd)

/-! ## 6. What stays compiled -/

def BuiltRule.From (built : BuiltRule) (c : CompileCall) : Prop :=
  built.items = c.rule.rules ∧ built.compiled.gitTarget = c.targetRef

/-- After a call without an error, a compiled rule that is there was granted by this call, item
    for item, or stays from the same items and target under an unknown verdict. -/
def GateHolds (api : ApiMachinery) (st : CompileState) (c : CompileCall) : Prop :=
  ∀ resolved, (compileWatchRule api st c).2 = .ok resolved →
    ∀ built, (compileWatchRule api st c).1.rules.lookup c.key = some built → built.From c ∧
      (resolved.verdict = .admitted ∧
        List.Forall₂ (fun item rr => ∃ namespaces, rr = compiledItem item namespaces ∧
          c.Granted api item namespaces) c.rule.rules built.compiled.resourceRules ∨
       resolved.verdict = .unknown)

/-- A call that changes the items or the target of a compiled rule, and that cannot be decided:
    nothing is refused, and the policy waits for the source cluster, or only an operator can make
    it answer while a grant of the same hash is retained. -/
structure KeepsOldScope (api : ApiMachinery) (st : CompileState) (c : CompileCall) : Prop where
  changed : ∃ built, st.rules.lookup c.key = some built ∧ ¬ built.From c
  unrefused : ∀ item ∈ c.rule.rules, ¬ c.Refused api item
  undecided : (∃ item ∈ c.rule.rules, c.Pending api item) ∧
      (∀ item ∈ c.rule.rules, ¬ c.Unanswerable api item) ∨
    (∃ item ∈ c.rule.rules, c.Unanswerable api item) ∧ st.retainsScope c = true

theorem compiled_resourceRules (hlen : c.rule.rules.length = namespaces.length) :
    (c.compiled namespaces).resourceRules = List.zipWith compiledItem c.rule.rules namespaces := by
  refine List.ext_getElem? (fun i => ?_)
  rw [CompileCall.compiled, List.getElem?_map, List.getElem?_zipIdx, List.getElem?_zipWith]
  cases hitem : c.rule.rules[i]? with
  | none => rfl
  | some item =>
    have hi : i < namespaces.length := hlen ▸ (List.getElem?_eq_some_iff.mp hitem).1
    simp [List.getElem?_eq_getElem hi]

/-- The verdict of a call, with what the inputs say about its items. -/
theorem resolved_cases {resolved : ResolvedSourceScope} (h : c.resolved api = .ok resolved) :
    match resolved.verdict with
    | .admitted => List.Forall₂ (fun item d => c.Granted api item d.namespaces) c.rule.rules
        resolved.items
    | .denied => True
    | .unavailable => (∀ item ∈ c.rule.rules, ¬ c.Refused api item) ∧
        ∃ item ∈ c.rule.rules, c.Unanswerable api item
    | .unknown => (∀ item ∈ c.rule.rules, ¬ c.Refused api item) ∧
        (∃ item ∈ c.rule.rules, c.Pending api item) ∧
        ∀ item ∈ c.rule.rules, ¬ c.Unanswerable api item := by
  obtain ⟨ds, hds, rfl⟩ : ∃ ds, (c.gate api).decideAll api 0 c.rule.rules = .ok ds ∧
      aggregateSourceScope ds = resolved := by
    rw [CompileCall.resolved, resolveWatchRuleSourceScope, ← CompileCall.gate] at h
    cases hds : (c.gate api).decideAll api 0 c.rule.rules with
    | error e =>
      rw [hds] at h
      cases h
    | ok ds =>
      rw [hds] at h
      exact ⟨ds, rfl, Except.ok.inj h⟩
  have hall := decideAll_forall hds
  obtain ⟨hite, hverdict⟩ := aggregate_cases ds
  have hstands : List.Forall₂ (Standing api c) c.rule.rules ds := hall.imp (fun item d hd => by
      obtain ⟨i, hd⟩ := hd
      exact decide_standing hd)
  -- a refused item would have made the rule's verdict `denied`
  have hunrefused : (∀ d ∈ ds, d.verdict ≠ .denied) → ∀ item ∈ c.rule.rules, ¬ c.Refused api item := by
    intro hnone item hitem href
    obtain ⟨d, hd, i, hdecision⟩ := exists_right_of_mem hall hitem
    exact hnone d hd (decide_of_refused hdecision href)
  cases hv : (aggregateSourceScope ds).verdict with
  | denied => trivial
  | unavailable =>
    rw [hv] at hverdict
    obtain ⟨⟨d, hd, hunavailable⟩, hnone⟩ := hverdict
    obtain ⟨item, hitem, hstand⟩ := exists_left_of_mem hstands hd
    rw [Standing, hunavailable] at hstand
    exact ⟨hunrefused hnone, item, hitem, hstand⟩
  | unknown =>
    rw [hv] at hverdict
    obtain ⟨⟨d, hd, hunknown⟩, hnone⟩ := hverdict
    obtain ⟨item, hitem, hstand⟩ := exists_left_of_mem hstands hd
    rw [Standing, hunknown] at hstand
    refine ⟨hunrefused (fun d hd => (hnone d hd).1), ⟨item, hitem, hstand⟩, ?_⟩
    intro item hitem hunanswerable
    obtain ⟨d, hd, i, hdecision⟩ := exists_right_of_mem hall hitem
    exact (hnone d hd).2 (decide_of_unanswerable hdecision hunanswerable)
  | admitted =>
    rw [hv] at hverdict
    rw [hite]
    refine (forall₂_and_right hstands hverdict).imp (fun item d h => ?_)
    rw [Standing, h.2] at h
    exact h.1

/-- A call holds the gate unless it keeps the scope of another spec or target. -/
theorem gateHolds_of_not_keepsOldScope (h : ¬ KeepsOldScope api st c) : GateHolds api st c := by
  intro resolved hres built hbuilt
  unfold compileWatchRule at hres hbuilt
  cases hc : c.resolved api with
  | error e =>
    rw [hc] at hres
    cases hres
  | ok scope =>
    rw [hc] at hres hbuilt
    simp only at hres hbuilt
    have hcases := resolved_cases hc
    cases hv : scope.verdict with
    | admitted =>
      rw [hv] at hres hbuilt hcases
      cases hres
      -- what was compiled before is overwritten
      rw [CompileState.grant, AList.lookup_insert] at hbuilt
      cases hbuilt
      refine ⟨⟨rfl, rfl⟩, .inl ⟨hv, ?_⟩⟩
      have hgranted : List.Forall₂ (c.Granted api) c.rule.rules (resolved.items.map (·.namespaces)) :=
        List.forall₂_map_right_iff.mpr hcases
      rw [compiled_resourceRules hgranted.length_eq]
      exact forall₂_zipWith hgranted
    | denied =>
      rw [hv] at hbuilt
      rw [CompileState.refuse, AList.lookup_erase] at hbuilt
      cases hbuilt
    | unavailable =>
      rw [hv] at hres hbuilt hcases
      simp only at hres hbuilt
      -- a retained grant turns the verdict into an unknown one
      split_ifs at hres hbuilt with hretain
      · cases hres
        refine ⟨by_contra (fun hfrom => ?_), .inr rfl⟩
        exact h ⟨⟨built, hbuilt, hfrom⟩, hcases.1, .inr ⟨hcases.2, hretain⟩⟩
      · rw [CompileState.refuse, AList.lookup_erase] at hbuilt
        cases hbuilt
    | unknown =>
      rw [hv] at hres hbuilt hcases
      cases hres
      refine ⟨by_contra (fun hfrom => ?_), .inr hv⟩
      exact h ⟨⟨built, hbuilt, hfrom⟩, hcases.1, .inl hcases.2⟩

/-- In every history of calls whose steps never keep an old scope, the gate holds after each. -/
theorem source_scope_gate (api : ApiMachinery) (calls : List CompileCall)
    (h : AllSteps (compileStep api) (fun st c => ¬ KeepsOldScope api st c) ⟨∅, ∅⟩ calls) :
    AllSteps (compileStep api) (GateHolds api) ⟨∅, ∅⟩ calls :=
  h.mono (P := fun _ => True) (fun _ _ _ _ => trivial)
    (fun _ _ hstep _ => gateHolds_of_not_keepsOldScope hstep) trivial

/-! A rule for its own namespace, before and after its target declares a selector policy that
    waits for the source cluster. -/

def watching (resource : String) : WatchRule := ⟨"rule", "team", [⟨[], [], [], [resource], ""⟩]⟩

def freeTarget : GitTarget := ⟨"mirror", "team", none, none, "main", "live"⟩

def selectingTarget : GitTarget :=
  { freeTarget with allowedSourceNamespaces := some ⟨[], some ⟨[("env", "prod")], []⟩⟩ }

def calling (rule : WatchRule) (target : GitTarget) : CompileCall :=
  ⟨delegatingReader, some ∅, rule, target, ⟨"git", "team"⟩⟩

theorem edited_rule_keeps_old_scope :
    ¬ AllSteps (compileStep documentedApi) (GateHolds documentedApi) ⟨∅, ∅⟩
      [calling (watching "configmaps") freeTarget, calling (watching "secrets") selectingTarget] := by
  rintro ⟨-, hedited, -⟩
  have hfrom := (hedited _ rfl _ rfl).1
  exact absurd hfrom.1 (by decide)

theorem unchanged_rule_keeps_its_scope :
    AllSteps (compileStep documentedApi) (GateHolds documentedApi) ⟨∅, ∅⟩
      [calling (watching "configmaps") freeTarget,
        calling (watching "configmaps") selectingTarget] := by
  refine source_scope_gate documentedApi _ ⟨?_, ?_, trivial⟩
  · rintro ⟨⟨built, hbuilt, -⟩, -, -⟩
    simp at hbuilt
  · rintro ⟨⟨built, hbuilt, hfrom⟩, -, -⟩
    cases hbuilt
    exact hfrom ⟨rfl, rfl⟩

end GitopsReverser.Watch
