import GitopsReverser.Watch.WatchedTypes

/-!
# Projection — what the watch specs of a target depend on

The specs of a target say which operations some rule selects for which (GVR, namespace), and
nothing else: neither the order of rules and records nor repetitions matter, and of the records
only the identity and the preferred flag.
-/

namespace GitopsReverser.Watch

open Reasoning Typeset

/-! ## 1. Specs from selections -/

def Selects (selections : List WatchSelection) (key : TargetWatchKey) (op : Operation) : Prop :=
  ∃ sel ∈ selections, sel.key = key ∧ op ∈ OperationSet.add ∅ sel.ops

def opsAt (types : Dict GroupVersionResource WatchedType) (key : TargetWatchKey) :
    Option OperationSet :=
  (types.lookup key.gvr).bind (fun wt => wt.namespaceOps.lookup key.ns)

theorem mem_add_iff (s : OperationSet) (ops : List Operation) (op : Operation) :
    op ∈ OperationSet.add s ops ↔ op ∈ s ∨ op ∈ OperationSet.add ∅ ops := by
  unfold OperationSet.add
  split
  · simp [or_comm]
  · simp

theorem add_nonempty (ops : List Operation) : (OperationSet.add ∅ ops).Nonempty := by
  unfold OperationSet.add
  split
  · exact ⟨.all, by simp⟩
  · rename_i hops
    obtain ⟨op, rest, rfl⟩ := List.exists_cons_of_ne_nil hops
    exact ⟨op, by simp⟩

theorem lookup_addSelection (acc : Option WatchedType) (sel : WatchSelection) (ns : String) :
    (addSelection acc sel).namespaceOps.lookup ns =
      if sel.ns = ns then
        some (OperationSet.add ((acc.bind (fun wt => wt.namespaceOps.lookup ns)).getD ∅) sel.ops)
      else acc.bind (fun wt => wt.namespaceOps.lookup ns) := by
  have hbefore : (acc.getD ⟨sel.record.identity.gvk, sel.record.identity.gvr, ∅⟩).namespaceOps.lookup ns =
      acc.bind (fun wt => wt.namespaceOps.lookup ns) := by
    cases acc with
    | none | some wt => rfl
  rw [← hbefore]
  split
  · rename_i hns
    subst hns
    exact AList.lookup_insert _
  · rename_i hns
    exact AList.lookup_insert_ne (Ne.symm hns)

variable (sels : List WatchSelection)

/-- Folding selections of one type: a namespace collects the operations selected for it. -/
theorem foldl_addSelection (acc : Option WatchedType) (ns : String) :
    (sels.foldl (fun wt sel => some (addSelection wt sel)) acc).bind
        (fun wt => wt.namespaceOps.lookup ns) =
      (sels.filter (fun sel => sel.ns = ns)).foldl
        (fun ops sel => some (OperationSet.add (ops.getD ∅) sel.ops))
        (acc.bind (fun wt => wt.namespaceOps.lookup ns)) := by
  -- selections for other namespaces pass by
  induction sels generalizing acc with
  | nil => rfl
  | cons sel sels ih =>
    rw [List.foldl_cons, ih, Option.bind_some, lookup_addSelection]
    by_cases hns : sel.ns = ns
    · rw [if_pos hns, List.filter_cons_of_pos (by simpa using hns), List.foldl_cons]
    · rw [if_neg hns, List.filter_cons_of_neg (by simpa using hns)]

theorem foldl_add (s : OperationSet) :
    ∃ s', sels.foldl (fun ops sel => some (OperationSet.add (ops.getD ∅) sel.ops)) (some s) = some s' ∧
      ∀ op, op ∈ s' ↔ op ∈ s ∨ ∃ sel ∈ sels, op ∈ OperationSet.add ∅ sel.ops := by
  induction sels generalizing s with
  | nil => exact ⟨s, rfl, by simp⟩
  | cons sel sels ih =>
    obtain ⟨s', hs', hmem⟩ := ih (OperationSet.add s sel.ops)
    refine ⟨s', hs', fun op => ?_⟩
    rw [hmem, mem_add_iff]
    simp [or_assoc]

theorem opsAt_spec (key : TargetWatchKey) :
    (opsAt (typesByGVR sels) key = none ∧ ∀ op, ¬ Selects sels key op) ∨
      ∃ s : OperationSet, opsAt (typesByGVR sels) key = some s ∧ s.Nonempty ∧
        ∀ op, op ∈ s ↔ Selects sels key op := by
  have hsame : ∀ sel : WatchSelection,
      sel.key = key ↔ sel.record.identity.gvr = key.gvr ∧ sel.ns = key.ns := by
    intro sel
    cases key
    simp [WatchSelection.key]
  -- the two maps, by GVR and by namespace, are one fold over the selections of the stream
  have hops : opsAt (typesByGVR sels) key = (sels.filter (fun sel => sel.key = key)).foldl
        (fun ops sel => some (OperationSet.add (ops.getD ∅) sel.ops)) none := by
    rw [opsAt, typesByGVR, lookup_accumulate, AList.lookup_empty, foldl_addSelection,
      List.filter_filter]
    congr 2
    funext sel
    simp [hsame sel, and_comm]
  have hselect : ∀ op, Selects sels key op ↔
      ∃ sel ∈ sels.filter (fun sel => sel.key = key), op ∈ OperationSet.add ∅ sel.ops := by
    intro op
    simp [Selects, and_assoc]
  rw [hops]
  simp only [hselect]
  cases sels.filter (fun sel => sel.key = key) with
  | nil => exact Or.inl ⟨rfl, by simp⟩
  | cons sel rest =>
    right
    obtain ⟨s, hs, hmem⟩ := foldl_add rest (OperationSet.add ∅ sel.ops)
    have hmem' : ∀ op, op ∈ s ↔ ∃ other ∈ sel :: rest, op ∈ OperationSet.add ∅ other.ops := by
      intro op
      rw [hmem]
      simp
    obtain ⟨op, hop⟩ := add_nonempty sel.ops
    exact ⟨s, hs, ⟨op, (hmem' op).mpr ⟨sel, List.mem_cons_self, hop⟩⟩, hmem'⟩

theorem lookup_targetWatchSpecs (gitDest : ResourceReference) (sels : List WatchSelection)
    (key : TargetWatchKey) :
    (targetWatchSpecs (buildWatchedTypeTable gitDest sels)).lookup key =
      (opsAt (typesByGVR sels) key).map operationSpec := by
  refine Option.ext (fun spec => ?_)
  rw [lookup_targetWatchSpecs_iff, Option.map_eq_some_iff]
  simp only [buildWatchedTypeTable, List.mem_insertionSort, List.mem_map, opsAt,
    Option.bind_eq_some_iff]
  constructor
  · rintro ⟨wt, ⟨⟨gvr, wt'⟩, he, rfl⟩, hgvr, ops, hops, rfl⟩
    have hlook := mem_entries_iff.mp he
    obtain rfl : gvr = key.gvr := (typesByGVR_gvr hlook).symm.trans hgvr
    exact ⟨ops, ⟨wt', hlook, hops⟩, rfl⟩
  · rintro ⟨ops, ⟨wt, hwt, hops⟩, rfl⟩
    exact ⟨wt, ⟨⟨key.gvr, wt⟩, mem_entries_iff.mpr hwt, rfl⟩, typesByGVR_gvr hwt, ops, hops, rfl⟩

theorem targetWatchSpecs_congr (dest dest' : ResourceReference) {sels sels' : List WatchSelection}
    (h : ∀ key op, Selects sels key op ↔ Selects sels' key op) (key : TargetWatchKey) :
    (targetWatchSpecs (buildWatchedTypeTable dest sels)).lookup key =
      (targetWatchSpecs (buildWatchedTypeTable dest' sels')).lookup key := by
  rw [lookup_targetWatchSpecs, lookup_targetWatchSpecs]
  rcases opsAt_spec sels key with ⟨hnone, hempty⟩ | ⟨s, hs, ⟨op, hop⟩, hmem⟩
  · rcases opsAt_spec sels' key with ⟨hnone', -⟩ | ⟨s', -, ⟨op, hop⟩, hmem'⟩
    · rw [hnone, hnone']
    · exact absurd ((h key op).mpr ((hmem' op).mp hop)) (hempty op)
  · rcases opsAt_spec sels' key with ⟨-, hempty'⟩ | ⟨s', hs', -, hmem'⟩
    · exact absurd ((h key op).mp ((hmem op).mp hop)) (hempty' op)
    · have : s = s' := Finset.ext (fun op => by rw [hmem, hmem', h])
      rw [hs, hs', this]

/-! ## 2. Selections from records -/

def Facts (records : List TypeRecord) (id : Identity) (preferred : Bool) : Prop :=
  ∃ rec ∈ records, rec.identity = id ∧ rec.preferred = preferred

def SameFacts (a b : List TypeRecord) : Prop :=
  ∀ id preferred, Facts a id preferred ↔ Facts b id preferred

def Serves (records : List TypeRecord) (gvr : GroupVersionResource) : Prop :=
  ∃ rec ∈ records, rec.identity.gvr = gvr

variable {a b : List TypeRecord} {rec : TypeRecord}

section

variable (h : SameFacts a b)

include h

theorem SameFacts.symm : SameFacts b a :=
  fun id preferred => (h id preferred).symm

theorem SameFacts.filter (test : Identity → Bool) :
    SameFacts (a.filter (fun rec => test rec.identity)) (b.filter (fun rec => test rec.identity)) := by
  have hfilter : ∀ l : List TypeRecord, ∀ id preferred,
      Facts (l.filter (fun rec => test rec.identity)) id preferred ↔
        Facts l id preferred ∧ test id = true := by
    intro l id preferred
    constructor
    · rintro ⟨rec, hrec, rfl, hpref⟩
      obtain ⟨hmem, htest⟩ := List.mem_filter.mp hrec
      exact ⟨⟨rec, hmem, rfl, hpref⟩, htest⟩
    · rintro ⟨⟨rec, hmem, rfl, hpref⟩, htest⟩
      exact ⟨rec, List.mem_filter.mpr ⟨hmem, htest⟩, rfl, hpref⟩
  intro id preferred
  rw [hfilter, hfilter, h]

theorem SameFacts.mem (hrec : rec ∈ a) :
    ∃ rec' ∈ b, rec'.identity = rec.identity ∧ rec'.preferred = rec.preferred :=
  (h rec.identity rec.preferred).mp ⟨rec, hrec, rfl, rfl⟩

theorem SameFacts.map_mem_iff {α : Type} (f : Identity → α) (x : α) :
    x ∈ a.map (fun rec => f rec.identity) ↔ x ∈ b.map (fun rec => f rec.identity) := by
  have hsub : ∀ {l l' : List TypeRecord}, SameFacts l l' →
      x ∈ l.map (fun rec => f rec.identity) → x ∈ l'.map (fun rec => f rec.identity) := by
    intro l l' hl hx
    obtain ⟨rec, hrec, rfl⟩ := List.mem_map.mp hx
    obtain ⟨rec', hrec', hid, -⟩ := hl.mem hrec
    exact List.mem_map.mpr ⟨rec', hrec', by rw [hid]⟩
  exact ⟨hsub h, hsub h.symm⟩

theorem SameFacts.serves_iff (gvr : GroupVersionResource) : Serves a gvr ↔ Serves b gvr := by
  have := h.map_mem_iff (·.gvr) gvr
  simpa [Serves] using this

end

theorem dedup_length_congr {α : Type} [DecidableEq α] {a b : List α} (h : ∀ x, x ∈ a ↔ x ∈ b) :
    a.dedup.length = b.dedup.length := by
  have hperm : a.dedup.Perm b.dedup :=
    (List.perm_ext_iff_of_nodup a.nodup_dedup b.nodup_dedup).mpr (by simpa using h)
  exact hperm.length_eq

theorem SameFacts.ambiguous_eq (h : SameFacts a b) (groups : List String) (resource : String) :
    ambiguousAcrossGroups groups resource a = ambiguousAcrossGroups groups resource b := by
  unfold ambiguousAcrossGroups
  rw [dedup_length_congr (h.map_mem_iff (fun id => id.gvr.group))]

theorem find?_le {α : Type} {le : α → α → Prop} {l : List α} (hsort : l.Pairwise le)
    (hrefl : ∀ x, le x x) {p : α → Bool} {x : α} (hfind : l.find? p = some x) :
    ∀ y ∈ l, p y = true → le x y := by
  induction l with
  | nil => simp at hfind
  | cons z l ih =>
    rw [List.pairwise_cons] at hsort
    intro y hy hpy
    by_cases hz : p z = true
    · rw [List.find?_cons_of_pos hz] at hfind
      obtain rfl := Option.some.inj hfind
      rcases List.mem_cons.mp hy with rfl | hy
      · exact hrefl y
      · exact hsort.1 y hy
    · rw [List.find?_cons_of_neg hz] at hfind
      rcases List.mem_cons.mp hy with rfl | hy
      · exact absurd hpy hz
      · exact ih hsort.2 hfind y hy hpy

/-- The chosen record has the lowest preferred version, or the lowest when none is preferred. -/
theorem preferredRecord_spec {records : List TypeRecord} (h : preferredRecord records = some rec) :
    rec ∈ records ∧ ((rec.preferred = true ∧ ∀ other ∈ records, other.preferred = true →
          rec.identity.gvr.version ≤ other.identity.gvr.version) ∨
        ((∀ other ∈ records, other.preferred = false) ∧ ∀ other ∈ records,
          rec.identity.gvr.version ≤ other.identity.gvr.version)) := by
  -- sorted by version, so the first match is the lowest
  have hsort : (records.insertionSort
      (fun a b => a.identity.gvr.version ≤ b.identity.gvr.version)).Pairwise
        (fun a b => a.identity.gvr.version ≤ b.identity.gvr.version) := by
    have : Std.Total (fun a b : TypeRecord => a.identity.gvr.version ≤ b.identity.gvr.version) :=
      ⟨fun a b => le_total _ _⟩
    have : IsTrans TypeRecord (fun a b => a.identity.gvr.version ≤ b.identity.gvr.version) :=
      ⟨fun a b c => le_trans⟩
    exact List.pairwise_insertionSort _ _
  simp only [preferredRecord] at h
  cases hfind : (records.insertionSort
      (fun a b => a.identity.gvr.version ≤ b.identity.gvr.version)).find? (·.preferred) with
  | some found =>
    rw [hfind] at h
    obtain rfl : found = rec := Option.some.inj h
    refine ⟨(List.mem_insertionSort _).mp (List.mem_of_find?_eq_some hfind), Or.inl ⟨?_, ?_⟩⟩
    · exact List.find?_some hfind
    · intro other hother hpref
      exact find?_le hsort (fun _ => le_refl _) hfind other ((List.mem_insertionSort _).mpr hother) hpref
  | none =>
    rw [hfind, Option.none_or] at h
    have hmem := List.mem_of_head? h
    refine ⟨(List.mem_insertionSort _).mp hmem, Or.inr ⟨?_, ?_⟩⟩
    · intro other hother
      simpa using List.find?_eq_none.mp hfind other ((List.mem_insertionSort _).mpr hother)
    · intro other hother
      have hhead : (records.insertionSort
          (fun a b => a.identity.gvr.version ≤ b.identity.gvr.version)).find? (fun _ => true) =
            some rec := by
        rw [← h]
        cases records.insertionSort (fun a b => a.identity.gvr.version ≤ b.identity.gvr.version) <;> rfl
      exact find?_le hsort (fun _ => le_refl _) hhead other ((List.mem_insertionSort _).mpr hother) rfl

theorem preferredRecord_isSome {records : List TypeRecord} (h : records ≠ []) :
    ∃ rec, preferredRecord records = some rec := by
  simp only [preferredRecord]
  cases hfind : (records.insertionSort
      (fun a b => a.identity.gvr.version ≤ b.identity.gvr.version)).find? (·.preferred) with
  | some found => exact ⟨found, rfl⟩
  | none =>
    have hne : records.insertionSort
        (fun a b => a.identity.gvr.version ≤ b.identity.gvr.version) ≠ [] := by
      intro hnil
      have hperm := List.perm_insertionSort
        (fun a b : TypeRecord => a.identity.gvr.version ≤ b.identity.gvr.version) records
      rw [hnil] at hperm
      exact h hperm.symm.eq_nil
    obtain ⟨first, rest, hcons⟩ := List.exists_cons_of_ne_nil hne
    exact ⟨first, by rw [hcons]; rfl⟩

theorem SameFacts.preferred_gvr (h : SameFacts a b) {gr : String × String}
    (ha : ∀ rec ∈ a, groupResource rec.identity.gvr = gr) (hrec : preferredRecord a = some rec) :
    ∃ rec', preferredRecord b = some rec' ∧ rec'.identity.gvr = rec.identity.gvr := by
  obtain ⟨hmem, hchosen⟩ := preferredRecord_spec hrec
  obtain ⟨image, himage, himage_id, himage_pref⟩ := h.mem hmem
  obtain ⟨rec', hrec'⟩ := preferredRecord_isSome (List.ne_nil_of_mem himage)
  obtain ⟨hmem', hchosen'⟩ := preferredRecord_spec hrec'
  obtain ⟨back, hback, hback_id, hback_pref⟩ := h.symm.mem hmem'
  have hversion : rec'.identity.gvr.version = rec.identity.gvr.version := by
    -- each choice is not above the image of the other, so both have the same version
    rcases hchosen with ⟨hpref, hle⟩ | ⟨hnone, hle⟩
    · rcases hchosen' with ⟨hpref', hle'⟩ | ⟨hnone', -⟩
      · have h₁ := hle' image himage (himage_pref.trans hpref)
        have h₂ := hle back hback (hback_pref.trans hpref')
        rw [himage_id] at h₁
        rw [hback_id] at h₂
        exact le_antisymm h₁ h₂
      · have := hnone' image himage
        rw [himage_pref, hpref] at this
        simp at this
    · rcases hchosen' with ⟨hpref', -⟩ | ⟨-, hle'⟩
      · have := hnone back hback
        rw [hback_pref, hpref'] at this
        simp at this
      · have h₁ := hle' image himage
        have h₂ := hle back hback
        rw [himage_id] at h₁
        rw [hback_id] at h₂
        exact le_antisymm h₁ h₂
  have hgroup : groupResource rec'.identity.gvr = groupResource rec.identity.gvr := by
    rw [← hback_id, ha back hback, ha rec hmem]
  obtain ⟨hg, hr⟩ := Prod.mk.inj hgroup
  refine ⟨rec', hrec', ?_⟩
  cases hgvr : rec.identity.gvr
  cases hgvr' : rec'.identity.gvr
  simp_all

theorem serves_choosePreferred_imp (h : SameFacts a b) (versions : List String)
    (gvr : GroupVersionResource) (hserve : Serves (choosePreferredRecordVersions a versions) gvr) :
    Serves (choosePreferredRecordVersions b versions) gvr := by
  -- a named version keeps every match, else each resource is decided by itself
  unfold choosePreferredRecordVersions at hserve ⊢
  split at hserve
  · rename_i hversion
    rw [if_pos hversion]
    exact (h.serves_iff gvr).mp hserve
  · rename_i hversion
    rw [if_neg hversion]
    obtain ⟨rec, hrec, hgvr⟩ := hserve
    obtain ⟨gr, hgr, hpreferred⟩ := List.mem_filterMap.mp hrec
    have hsame := h.filter (fun id => decide (groupResource id.gvr = gr))
    obtain ⟨rec', hrec', hgvr'⟩ := hsame.preferred_gvr
      (fun r hr => by simpa using (List.mem_filter.mp hr).2) hpreferred
    refine ⟨rec', List.mem_filterMap.mpr ⟨gr, ?_, hrec'⟩, hgvr'.trans hgvr⟩
    rw [List.mem_dedup] at hgr ⊢
    exact (h.map_mem_iff (fun id => groupResource id.gvr) gr).mp hgr

theorem serves_resourceEntry_imp (h : SameFacts a b) (groups versions : List String)
    (resource : String) (scope : ResourceScope) (gvr : GroupVersionResource)
    (hserve : Serves (recordsForResourceEntry a groups versions resource scope) gvr) :
    Serves (recordsForResourceEntry b groups versions resource scope) gvr := by
  have hmatch := h.filter (matchesEntry groups versions resource scope)
  simp only [recordsForResourceEntry] at hserve ⊢
  rw [← hmatch.ambiguous_eq]
  split at hserve
  · obtain ⟨rec, hrec, -⟩ := hserve
    simp at hrec
  · rename_i hclean
    rw [if_neg hclean]
    exact serves_choosePreferred_imp hmatch versions gvr hserve

variable (records : List TypeRecord)

theorem serves_firstOfEachGVR_iff (gvr : GroupVersionResource) :
    Serves (firstOfEachGVR records) gvr ↔ Serves records gvr := by
  induction records with
  | nil => rfl
  | cons rec rest ih =>
    by_cases hgvr : rec.identity.gvr = gvr
    · exact ⟨fun _ => ⟨rec, List.mem_cons_self, hgvr⟩, fun _ => ⟨rec, List.mem_cons_self, hgvr⟩⟩
    · have hrest : Serves (rec :: rest) gvr ↔ Serves rest gvr := by simp [Serves, hgvr]
      rw [hrest, ← ih]
      constructor
      · rintro ⟨r, hr, hr'⟩
        rcases List.mem_cons.mp hr with rfl | hr
        · exact absurd hr' hgvr
        · exact ⟨r, (List.mem_filter.mp hr).1, hr'⟩
      · rintro ⟨r, hr, rfl⟩
        exact ⟨r, List.mem_cons_of_mem _ (List.mem_filter.mpr ⟨hr, by simpa using Ne.symm hgvr⟩), rfl⟩

theorem SameFacts.matched_iff (h : SameFacts a b) (rr : CompiledClusterResourceRule)
    (scope : ResourceScope) (gvr : GroupVersionResource) :
    Serves (matchFollowableRecords a rr scope) gvr ↔
      Serves (matchFollowableRecords b rr scope) gvr := by
  have himp : ∀ {l l' : List TypeRecord}, SameFacts l l' →
      Serves (matchFollowableRecords l rr scope) gvr → Serves (matchFollowableRecords l' rr scope) gvr := by
    intro l l' hl hserve
    rw [matchFollowableRecords, serves_firstOfEachGVR_iff] at hserve ⊢
    obtain ⟨rec, hrec, hgvr⟩ := hserve
    obtain ⟨resource, hres, hentry⟩ := List.mem_flatMap.mp hrec
    obtain ⟨rec', hrec', hgvr'⟩ := serves_resourceEntry_imp hl _ _ _ _ gvr ⟨rec, hentry, hgvr⟩
    exact ⟨rec', List.mem_flatMap.mpr ⟨resource, hres, hrec'⟩, hgvr'⟩
  exact ⟨himp h, himp h.symm⟩

/-- A rule matches records of the list it is asked about. -/
theorem matchFollowableRecords_subset (rr : CompiledClusterResourceRule) (scope : ResourceScope) :
    matchFollowableRecords records rr scope ⊆ records := by
  have hfirst : ∀ l : List TypeRecord, firstOfEachGVR l ⊆ l := by
    intro l
    induction l with
    | nil => exact List.Subset.refl _
    | cons rec rest ih =>
      exact List.cons_subset_cons _ (List.Subset.trans (List.filter_subset_self _) ih)
  have hchosen : ∀ l : List TypeRecord, choosePreferredRecordVersions l rr.apiVersions ⊆ l := by
    intro l rec hrec
    unfold choosePreferredRecordVersions at hrec
    split at hrec
    · exact hrec
    · obtain ⟨gr, -, hpreferred⟩ := List.mem_filterMap.mp hrec
      exact (List.mem_filter.mp (preferredRecord_spec hpreferred).1).1
  intro rec hrec
  obtain ⟨resource, -, hentry⟩ := List.mem_flatMap.mp (hfirst _ hrec)
  simp only [recordsForResourceEntry] at hentry
  split at hentry
  · cases hentry
  · exact (List.mem_filter.mp (hchosen _ hentry)).1

theorem selects_watchRule_iff (rule : CompiledRule) (key : TargetWatchKey) (op : Operation) :
    Selects (watchRuleSelections records rule) key op ↔ ∃ rr ∈ rule.resourceRules,
      Serves (matchFollowableRecords records rr.toCompiledClusterResourceRule .namespaced) key.gvr ∧
        key.ns ∈ rr.sourceNamespaces ∧ op ∈ OperationSet.add ∅ rr.operations := by
  simp only [Selects, watchRuleSelections, List.mem_flatMap, List.mem_map, Serves]
  constructor
  · rintro ⟨sel, ⟨rr, hrr, rec, hrec, ns, hns, rfl⟩, rfl, hop⟩
    exact ⟨rr, hrr, ⟨rec, hrec, rfl⟩, hns, hop⟩
  · rintro ⟨rr, hrr, ⟨rec, hrec, hgvr⟩, hns, hop⟩
    refine ⟨⟨rec, key.ns, rr.operations⟩, ⟨rr, hrr, rec, hrec, key.ns, hns, rfl⟩, ?_, hop⟩
    rw [WatchSelection.key, hgvr]

theorem selects_clusterWatchRule_iff (rule : CompiledClusterRule)
    (key : TargetWatchKey) (op : Operation) :
    Selects (clusterWatchRuleSelections records rule) key op ↔ ∃ rr ∈ rule.rules,
      Serves (matchFollowableRecords records rr .cluster) key.gvr ∧ key.ns = "" ∧
        op ∈ OperationSet.add ∅ rr.operations := by
  simp only [Selects, clusterWatchRuleSelections, List.mem_flatMap, List.mem_map, Serves]
  constructor
  · rintro ⟨sel, ⟨rr, hrr, rec, hrec, rfl⟩, rfl, hop⟩
    exact ⟨rr, hrr, ⟨rec, hrec, rfl⟩, rfl, hop⟩
  · rintro ⟨rr, hrr, ⟨rec, hrec, hgvr⟩, hns, hop⟩
    refine ⟨⟨rec, "", rr.operations⟩, ⟨rr, hrr, rec, hrec, rfl⟩, ?_, hop⟩
    rw [WatchSelection.key, hgvr, ← hns]

end GitopsReverser.Watch
