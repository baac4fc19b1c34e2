import GitopsReverser.Watch.Manager
import GitopsReverser.Watch.Projection

/-!
# TableFreshness — the resident tables are those of the current rules

A table is projected again when a fingerprint of the rules, of the mapping of targets to clusters
or of the registries moves. While none has moved the inputs are the same, provided that the texts
behind the fingerprints tell different inputs apart.
-/

namespace GitopsReverser.Watch

open Reasoning Typeset

variable {X : Type} (cfg : ManagerConfig X)

/-! ## 1. The projection of one target -/

def HasRule (m : Manager X) (key : String) : Prop :=
  (∃ rule ∈ m.snapshotWatchRules, rule.gitTarget.key = key) ∨
    ∃ rule ∈ m.snapshotClusterWatchRules, rule.gitTarget.key = key
  deriving Decidable

def projectedSelections (m : Manager X) (key : String) : List WatchSelection :=
  (m.snapshotWatchRules.filter (fun rule => rule.gitTarget.key = key)).flatMap
      (watchRuleSelections (recordsFor m key)) ++
    (m.snapshotClusterWatchRules.filter (fun rule => rule.gitTarget.key = key)).flatMap
      (clusterWatchRuleSelections (recordsFor m key))

/-- The rule store projected onto the followable records of the target's source cluster. -/
def projection (m : Manager X) (t : ResourceReference) : WatchedTypeTable :=
  buildWatchedTypeTable t (projectedSelections m t.key)

theorem projectedSelections_record {m : Manager X} {key : String} {sel : WatchSelection}
    (h : sel ∈ projectedSelections m key) : sel.record ∈ recordsFor m key := by
  rcases List.mem_append.mp h with h | h
  · obtain ⟨rule, -, h⟩ := List.mem_flatMap.mp h
    simp only [watchRuleSelections, List.mem_flatMap, List.mem_map] at h
    obtain ⟨rr, -, rec, hrec, ns, -, rfl⟩ := h
    exact matchFollowableRecords_subset _ _ _ hrec
  · obtain ⟨rule, -, h⟩ := List.mem_flatMap.mp h
    simp only [clusterWatchRuleSelections, List.mem_flatMap, List.mem_map] at h
    obtain ⟨rr, -, rec, hrec, rfl⟩ := h
    exact matchFollowableRecords_subset _ _ _ hrec

def SameSpecs (a b : WatchSpecs) : Prop := ∀ key, a.lookup key = b.lookup key

theorem selects_append_iff (a b : List WatchSelection) (key : TargetWatchKey) (op : Operation) :
    Selects (a ++ b) key op ↔ Selects a key op ∨ Selects b key op := by
  simp only [Selects, List.mem_append]
  constructor
  · rintro ⟨sel, hselect | hselect, hop⟩
    · exact Or.inl ⟨sel, hselect, hop⟩
    · exact Or.inr ⟨sel, hselect, hop⟩
  · rintro (⟨sel, hselect, hop⟩ | ⟨sel, hselect, hop⟩)
    · exact ⟨sel, Or.inl hselect, hop⟩
    · exact ⟨sel, Or.inr hselect, hop⟩

theorem selects_flatMap_iff {ι : Type} (xs : List ι) (f : ι → List WatchSelection)
    (key : TargetWatchKey) (op : Operation) :
    Selects (xs.flatMap f) key op ↔ ∃ x ∈ xs, Selects (f x) key op := by
  simp only [Selects, List.mem_flatMap]
  constructor
  · rintro ⟨sel, ⟨x, hx, hselect⟩, hop⟩
    exact ⟨x, hx, sel, hselect, hop⟩
  · rintro ⟨x, hx, sel, hselect, hop⟩
    exact ⟨sel, ⟨x, hx, hselect⟩, hop⟩

theorem selects_projected_iff (m : Manager X) (key : String) (k : TargetWatchKey) (op : Operation) :
    Selects (projectedSelections m key) k op ↔
      (∃ rule ∈ m.snapshotWatchRules, rule.gitTarget.key = key ∧
        Selects (watchRuleSelections (recordsFor m key) rule) k op) ∨
      ∃ rule ∈ m.snapshotClusterWatchRules, rule.gitTarget.key = key ∧
        Selects (clusterWatchRuleSelections (recordsFor m key) rule) k op := by
  simp only [projectedSelections, selects_append_iff, selects_flatMap_iff, List.mem_filter,
    decide_eq_true_eq, and_assoc]

theorem projected_of_no_rule (h : ¬ HasRule m t.key)
    (key : TargetWatchKey) : (targetWatchSpecs (projection m t)).lookup key = none := by
  have hempty : projectedSelections m t.key = [] := by
    have hrules : m.snapshotWatchRules.filter (fun rule => rule.gitTarget.key = t.key) = [] := by
      rw [List.filter_eq_nil_iff]
      intro rule hrule hkey
      exact h (Or.inl ⟨rule, hrule, by simpa using hkey⟩)
    have hcluster : m.snapshotClusterWatchRules.filter (fun rule => rule.gitTarget.key = t.key) = [] := by
      rw [List.filter_eq_nil_iff]
      intro rule hrule hkey
      exact h (Or.inr ⟨rule, hrule, by simpa using hkey⟩)
    rw [projectedSelections, hrules, hcluster]
    rfl
  rw [projection, hempty]
  rfl

/-! ## 2. Resolving all targets -/

structure Collected (key : String) (before : Option TargetSelections) (added : List WatchSelection)
    (found : Prop) (after : Option TargetSelections) : Prop where
  selections : (after.map (·.selections)).getD [] = (before.map (·.selections)).getD [] ++ added
  isSome : after.isSome ↔ before.isSome ∨ found
  gitDest : (∀ ts, before = some ts → ts.gitDest.key = key) → ∀ ts, after = some ts → ts.gitDest.key = key

theorem lookup_collectSelections {ι : Type} (target : ι → ResourceReference)
    (selections : ι → List WatchSelection) (rules : List ι) (byTarget : Dict String TargetSelections)
    (key : String) :
    Collected key (byTarget.lookup key)
      ((rules.filter (fun rule => (target rule).key = key)).flatMap selections)
      (∃ rule ∈ rules, (target rule).key = key)
      ((collectSelections target selections rules byTarget).lookup key) := by
  induction rules generalizing byTarget with
  | nil => exact ⟨by simp [collectSelections, accumulate], by simp [collectSelections, accumulate],
      fun h => h⟩
  | cons rule rules ih =>
    have hrest := ih (byTarget.insert (target rule).key
      ⟨((byTarget.lookup (target rule).key).map (·.gitDest)).getD (target rule),
        ((byTarget.lookup (target rule).key).map (·.selections)).getD [] ++ selections rule⟩)
    by_cases hkey : (target rule).key = key
    · subst hkey
      rw [AList.lookup_insert] at hrest
      refine ⟨?_, ?_, ?_⟩
      · rw [List.filter_cons_of_pos (by simp), List.flatMap_cons, ← List.append_assoc]
        exact hrest.selections
      · exact hrest.isSome.trans (by simp)
      · intro hbefore
        -- the destination is the one that was there before, or that of the rule
        refine hrest.gitDest (fun ts hts => ?_)
        rw [← Option.some.inj hts]
        cases hold : byTarget.lookup (target rule).key with
        | none => rfl
        | some old => exact hbefore old hold
    · rw [AList.lookup_insert_ne (Ne.symm hkey)] at hrest
      refine ⟨?_, ?_, hrest.gitDest⟩
      · rw [List.filter_cons_of_neg (by simpa using hkey)]
        exact hrest.selections
      · exact hrest.isSome.trans (by simp [hkey])

theorem lookup_resolve (m : Manager X) (key : String) :
    ((resolveWatchedTypeTables m).lookup key = none ∧ ¬ HasRule m key) ∨
      ∃ dest, dest.key = key ∧ HasRule m key ∧ (resolveWatchedTypeTables m).lookup key =
          some (buildWatchedTypeTable dest (projectedSelections m key)) := by
  have hwatch := lookup_collectSelections (fun rule : CompiledRule => rule.gitTarget)
    (fun rule => watchRuleSelections (recordsFor m rule.gitTarget.key) rule) m.snapshotWatchRules ∅ key
  have hcluster := lookup_collectSelections (fun rule : CompiledClusterRule => rule.gitTarget)
    (fun rule => clusterWatchRuleSelections (recordsFor m rule.gitTarget.key) rule)
    m.snapshotClusterWatchRules (collectWatchRuleSelections m ∅) key
  have hlook : (resolveWatchedTypeTables m).lookup key =
      ((collectClusterWatchRuleSelections m (collectWatchRuleSelections m ∅)).lookup key).map
        (fun ts => buildWatchedTypeTable ts.gitDest ts.selections) := lookup_mapValues _ _ key
  have hrule : ((collectClusterWatchRuleSelections m (collectWatchRuleSelections m ∅)).lookup
      key).isSome ↔ HasRule m key := by
    refine hcluster.isSome.trans (or_congr (hwatch.isSome.trans ?_) Iff.rfl)
    simp
  rw [hlook]
  cases hts : (collectClusterWatchRuleSelections m (collectWatchRuleSelections m ∅)).lookup key with
  | none =>
    rw [hts] at hrule
    exact Or.inl ⟨rfl, fun h => by simpa using hrule.mpr h⟩
  | some ts =>
    rw [hts] at hrule
    refine Or.inr ⟨ts.gitDest, ?_, hrule.mp rfl, ?_⟩
    · exact hcluster.gitDest (hwatch.gitDest (by simp)) ts hts
    · -- the watch rules come first, then the cluster rules, each in the order of the snapshot
      have hselect : ts.selections = projectedSelections m key := by
        have hafter := hcluster.selections
        have hbefore : (((collectWatchRuleSelections m ∅).lookup key).map (·.selections)).getD [] =
            [] ++ (m.snapshotWatchRules.filter (fun rule => rule.gitTarget.key = key)).flatMap
              (fun rule => watchRuleSelections (recordsFor m rule.gitTarget.key) rule) :=
          hwatch.selections
        rw [hbefore, List.nil_append] at hafter
        have hts' : (((collectSelections (fun rule : CompiledClusterRule => rule.gitTarget)
            (fun rule => clusterWatchRuleSelections (recordsFor m rule.gitTarget.key) rule)
            m.snapshotClusterWatchRules (collectWatchRuleSelections m ∅)).lookup key).map
              (·.selections)).getD [] = ts.selections :=
          congrArg (fun o : Option TargetSelections => (o.map (·.selections)).getD []) hts
        rw [← hts', hafter, projectedSelections]
        congr 1
        · exact List.flatMap_congr (fun rule hrule => by
            rw [show rule.gitTarget.key = key by simpa using (List.mem_filter.mp hrule).2])
        · exact List.flatMap_congr (fun rule hrule => by
            rw [show rule.gitTarget.key = key by simpa using (List.mem_filter.mp hrule).2])
      rw [← hselect]
      rfl

/-! ## 3. What the fingerprints tell -/

def Plain (name : String) : Prop :=
  '\x00' ∉ name.toList ∧ '\x1f' ∉ name.toList ∧ '=' ∉ name.toList
  deriving Decidable

def PlainNames (m : Manager X) : Prop :=
  ∀ key id, m.gitTargetClusters.lookup key = some id → Plain key ∧ Plain id

def NulFree (m : Manager X) : Prop := ∀ part ∈ ruleParts cfg m, '\x00' ∉ part.toList deriving Decidable

theorem mem_of_sorted_text {a b : List String} (ha : ∀ p ∈ a, Part '\x00' p)
    (hb : ∀ p ∈ b, Part '\x00' p)
    (h : separated '\x00' (a.insertionSort (· ≤ ·)) = separated '\x00' (b.insertionSort (· ≤ ·)))
    (p : String) : p ∈ a ↔ p ∈ b := by
  have hsort := separated_injective (fun p hp => ha p ((List.mem_insertionSort _).mp hp))
    (fun p hp => hb p ((List.mem_insertionSort _).mp hp)) h
  rw [← List.mem_insertionSort (· ≤ ·), hsort, List.mem_insertionSort]

theorem append_ne_empty_left (h : a ≠ "") : a ++ b ≠ "" := by
  intro hempty
  refine h (String.toList_injective ?_)
  have := congrArg String.toList hempty
  rw [String.toList_append] at this
  exact (List.append_eq_nil_iff.mp this).1

theorem rulePart_part (h : NulFree cfg m) : ∀ p ∈ ruleParts cfg m, Part '\x00' p := by
  intro p hp
  refine ⟨?_, h p hp⟩
  rcases List.mem_append.mp hp with hp | hp
  · obtain ⟨rule, -, rfl⟩ := List.mem_map.mp hp
    exact append_ne_empty_left (append_ne_empty_left (append_ne_empty_left
      (append_ne_empty_left (by decide))))
  · obtain ⟨rule, -, rfl⟩ := List.mem_map.mp hp
    exact append_ne_empty_left (append_ne_empty_left (append_ne_empty_left
      (append_ne_empty_left (by decide))))

theorem watchRule_ne_clusterWatchRule (rule : CompiledRule) (rule' : CompiledClusterRule) :
    watchRuleFingerprint cfg rule ≠ clusterWatchRuleFingerprint cfg rule' := by
  intro h
  have := congrArg (fun text => text.toList.head?) h
  simp [watchRuleFingerprint, clusterWatchRuleFingerprint, String.toList_append] at this

variable {m₀ m : Manager X}

theorem mapping_eq_of_text (h₀ : PlainNames m₀) (h : PlainNames m)
    (htext : clusterMappingText m₀ = clusterMappingText m) (key : String) :
    m₀.gitTargetClusters.lookup key = m.gitTargetClusters.lookup key := by
  have hpart : ∀ n : Manager X, PlainNames n →
      ∀ p ∈ n.gitTargetClusters.entries.map (fun e => e.1 ++ "\x1f" ++ e.2), Part '\x00' p := by
    intro n hn p hp
    obtain ⟨⟨key, id⟩, he, rfl⟩ := List.mem_map.mp hp
    obtain ⟨hkey, hid⟩ := hn key id (mem_entries_iff.mp he)
    refine ⟨?_, ?_⟩
    · intro hempty
      have := congrArg String.toList hempty
      simp [String.toList_append] at this
    · simpa [String.toList_append] using ⟨hkey.1, hid.1⟩
  -- one direction is enough: the two managers stand alike in the statement
  have himp : ∀ a b : Manager X, PlainNames a → PlainNames b →
      clusterMappingText a = clusterMappingText b → ∀ id,
      a.gitTargetClusters.lookup key = some id → b.gitTargetClusters.lookup key = some id := by
    intro a b ha hb hab id hid
    have hmem := (mem_of_sorted_text (hpart a ha) (hpart b hb) hab _).mp
      (List.mem_map.mpr ⟨⟨key, id⟩, mem_entries_iff.mpr hid, rfl⟩)
    obtain ⟨⟨key', id'⟩, he, heq⟩ := List.mem_map.mp hmem
    obtain ⟨hkey', hid'⟩ := hb key' id' (mem_entries_iff.mp he)
    obtain ⟨rfl, rfl⟩ : key' = key ∧ id' = id := pair_injective hkey'.2.1 hid'.2.1 heq
    exact mem_entries_iff.mp he
  cases hlook : m.gitTargetClusters.lookup key with
  | some id => exact himp m m₀ h h₀ htext.symm id hlook
  | none =>
    cases hlook₀ : m₀.gitTargetClusters.lookup key with
    | none => rfl
    | some id => exact absurd (himp m₀ m h₀ h htext id hlook₀) (by rw [hlook]; simp)

theorem mem_activeClusterIDs_iff (m : Manager X) (id : String) : id ∈ activeClusterIDs m ↔
      id = configPlaneClusterID ∨ ∃ key, m.gitTargetClusters.lookup key = some id := by
  simp only [activeClusterIDs, List.mem_insertionSort, List.mem_dedup, List.mem_cons, List.mem_map]
  refine or_congr Iff.rfl ⟨?_, ?_⟩
  · rintro ⟨⟨key, id'⟩, he, rfl⟩
    exact ⟨key, mem_entries_iff.mp he⟩
  · rintro ⟨key, hlook⟩
    exact ⟨⟨key, id⟩, mem_entries_iff.mpr hlook, rfl⟩

theorem clusterID_active (m : Manager X) (key : String) :
    clusterIDForGitTarget m key ∈ activeClusterIDs m := by
  rw [mem_activeClusterIDs_iff, clusterIDForGitTarget]
  cases hlook : m.gitTargetClusters.lookup key with
  | none => exact Or.inl rfl
  | some id => exact Or.inr ⟨key, hlook⟩

theorem activeClusterID_plain (h : PlainNames m) {id : String}
    (hid : id ∈ activeClusterIDs m) : Plain id := by
  rcases (mem_activeClusterIDs_iff m id).mp hid with rfl | ⟨key, hlook⟩
  · exact ⟨by decide, by decide, by decide⟩
  · exact (h key id hlook).2

theorem revision_eq_of_text (h₀ : PlainNames m₀) (h : PlainNames m)
    (htext : activeRegistriesText m₀ = activeRegistriesText m) {id : String}
    (hid : id ∈ activeClusterIDs m) :
    (m₀.clusters id).registry.revision = (m.clusters id).registry.revision := by
  have hpart : ∀ n : Manager X, PlainNames n → ∀ p ∈ (activeClusterIDs n).map (fun id =>
      id ++ "=" ++ toString (n.clusters id).registry.revision), Part '\x00' p := by
    intro n hn p hp
    obtain ⟨id, hid, rfl⟩ := List.mem_map.mp hp
    have hplain := activeClusterID_plain hn hid
    refine ⟨?_, ?_⟩
    · intro hempty
      have := congrArg String.toList hempty
      simp [String.toList_append] at this
    · have hdigit := notMem_toString (c := '\x00') (by decide) (n.clusters id).registry.revision
      simpa [String.toList_append] using ⟨hplain.1, by simpa using hdigit⟩
  -- no part holds the separator, so the text determines its parts
  have hparts := separated_injective (hpart m₀ h₀) (hpart m h) htext
  have hmem : id ++ "=" ++ toString (m.clusters id).registry.revision ∈
      (activeClusterIDs m₀).map (fun id =>
        id ++ "=" ++ toString (m₀.clusters id).registry.revision) := by
    rw [hparts]
    exact List.mem_map.mpr ⟨id, hid, rfl⟩
  obtain ⟨id', hid', heq⟩ := List.mem_map.mp hmem
  obtain ⟨rfl, hrev⟩ : id' = id ∧ toString (m₀.clusters id').registry.revision =
      toString (m.clusters id).registry.revision :=
    pair_injective (activeClusterID_plain h₀ hid').2.2 (notMem_toString (by decide) _) heq
  exact toString_injective hrev

/-! ## 4. Refreshing catalogs -/

/-- What a catalog refresh may do: move registries forward and cancel watches. -/
structure Refreshed (m m' : Manager X) : Prop where
  rules : m'.rules = m.rules
  clusterRules : m'.clusterRules = m.clusterRules
  gitTargetClusters : m'.gitTargetClusters = m.gitTargetClusters
  tables : m'.tables = m.tables
  resolved : m'.resolved = m.resolved
  resolvedRules : m'.resolvedRules = m.resolvedRules
  resolvedClusterRules : m'.resolvedClusterRules = m.resolvedClusterRules
  resolvedTexts : m'.resolvedTexts = m.resolvedTexts
  clusters : ∀ id, Published (m.clusters id) →
    Published (m'.clusters id) ∧ Precedes (m.clusters id).registry (m'.clusters id).registry
  targetWatches : ∀ key set, m'.targetWatches.lookup key = some set →
    m.targetWatches.lookup key = some set

theorem Refreshed.refl (m : Manager X) : Refreshed m m :=
  ⟨rfl, rfl, rfl, rfl, rfl, rfl, rfl, rfl, fun _ h => ⟨h, Precedes.refl _⟩, fun _ _ h => h⟩

theorem Refreshed.trans (hab : Refreshed a b) (hbc : Refreshed b c) : Refreshed a c where
  rules := hbc.rules.trans hab.rules
  clusterRules := hbc.clusterRules.trans hab.clusterRules
  gitTargetClusters := hbc.gitTargetClusters.trans hab.gitTargetClusters
  tables := hbc.tables.trans hab.tables
  resolved := hbc.resolved.trans hab.resolved
  resolvedRules := hbc.resolvedRules.trans hab.resolvedRules
  resolvedClusterRules := hbc.resolvedClusterRules.trans hab.resolvedClusterRules
  resolvedTexts := hbc.resolvedTexts.trans hab.resolvedTexts
  clusters id h := by
    obtain ⟨hpublish, hprecede⟩ := hab.clusters id h
    obtain ⟨hpublish', hprecede'⟩ := hbc.clusters id hpublish
    exact ⟨hpublish', hprecede.trans hprecede'⟩
  targetWatches key set h := hab.targetWatches key set (hbc.targetWatches key set h)

theorem refreshed_setCluster (m : Manager X) (id : String) (cc : ClusterContext)
    (hcc : Published (m.clusters id) → Published cc ∧ Precedes (m.clusters id).registry cc.registry) :
    Refreshed m (setCluster id cc m) where
  rules := rfl
  clusterRules := rfl
  gitTargetClusters := rfl
  tables := rfl
  resolved := rfl
  resolvedRules := rfl
  resolvedClusterRules := rfl
  resolvedTexts := rfl
  clusters id' h := by
    by_cases hid : id' = id
    · subst hid
      simpa [setCluster] using hcc h
    · simpa [setCluster, Function.update_of_ne hid] using ⟨h, Precedes.refl _⟩
  targetWatches _ _ h := h

theorem refreshed_credentials (id : String) (a : ClusterAnswer) (m : Manager X) :
    Refreshed m (refreshClusterCredentials id a m) := by
  have hinv : Refreshed m (invalidateClusterWatches id m) := by
    refine ⟨rfl, rfl, rfl, rfl, rfl, rfl, rfl, rfl, fun _ h => ⟨h, Precedes.refl _⟩, ?_⟩
    intro key set hset
    exact ((lookup_keepKeys_iff _ _ key set).mp hset).1
  have hflag : ∀ m' : Manager X, Refreshed m'
      (setCluster id { m'.clusters id with inCluster := a.inCluster } m') := by
    intro m'
    refine refreshed_setCluster m' id _ (fun h => ⟨⟨h.catalog, h.generation, h.fromScan⟩, ?_⟩)
    exact Precedes.refl _
  unfold refreshClusterCredentials
  simp only
  split
  · exact hinv.trans (hflag _)
  · exact hflag m

variable (now : Int)

theorem refreshed_refreshCluster (id : String) (a : ClusterAnswer) (m : Manager X) :
    Refreshed m (refreshCluster now id a m).1 := by
  have hcatalog : ∀ m' : Manager X, Refreshed m'
      (setCluster id (refreshClusterCatalog now a.scan (m'.clusters id)).1 m') :=
    fun m' => refreshed_setCluster m' id _ (fun h => h.scanned now a.scan)
  unfold refreshCluster
  simp only
  split
  · exact hcatalog m
  · exact (refreshed_credentials id a m).trans (hcatalog _)

theorem refreshed_refreshClusters (answers : String → ClusterAnswer) (ids : List String)
    (result : Manager X × Option String) :
    Refreshed result.1 (refreshClusters now answers ids result).1 := by
  induction ids generalizing result with
  | nil => exact Refreshed.refl _
  | cons id ids ih => exact (refreshed_refreshCluster now id (answers id) result.1).trans (ih _)

theorem refreshed_refreshAPIResourceCatalog (answers : String → ClusterAnswer)
    (m : Manager X) : Refreshed m (refreshAPIResourceCatalog now answers m).1 := by
  have hloc := refreshed_refreshClusters now answers (localClusterIDs m) (m, none)
  have hremote := refreshed_refreshClusters now answers (remoteClusterIDs m)
    ((refreshClusters now answers (localClusterIDs m) (m, none)).1, none)
  exact hloc.trans hremote

theorem refreshed_refreshClusterForDeclare (id : String) (a : ClusterAnswer)
    (m : Manager X) : Refreshed m (refreshClusterForDeclare now id a m).1 :=
  refreshed_refreshCluster now id a m

theorem refreshed_readyRegistries (m : Manager X) : Refreshed m (readyRegistries now m) := by
  refine ⟨rfl, rfl, rfl, rfl, rfl, rfl, rfl, rfl, fun id h => ?_, fun _ _ h => h⟩
  simp only [readyRegistries]
  split
  · exact h.republished now
  · exact ⟨h, Precedes.refl _⟩

/-! ## 5. Inputs of two projections -/

/-- Two lists in which each element of one has its like in the other. -/
structure Alike {α : Type} (like : α → α → Prop) (xs ys : List α) : Prop where
  forth : ∀ x ∈ xs, ∃ y ∈ ys, like x y
  back : ∀ y ∈ ys, ∃ x ∈ xs, like x y

theorem Alike.exists_iff {α : Type} {like : α → α → Prop} {xs ys : List α} (h : Alike like xs ys)
    {P Q : α → Prop} (hpq : ∀ x y, like x y → (P x ↔ Q y)) :
    (∃ x ∈ xs, P x) ↔ ∃ y ∈ ys, Q y := by
  constructor
  · rintro ⟨x, hx, hp⟩
    obtain ⟨y, hy, hlike⟩ := h.forth x hx
    exact ⟨y, hy, (hpq x y hlike).mp hp⟩
  · rintro ⟨y, hy, hq⟩
    obtain ⟨x, hx, hlike⟩ := h.back y hy
    exact ⟨x, hx, (hpq x y hlike).mpr hq⟩

theorem alike_of_print {α : Type} {like : α → α → Prop} {xs ys : List α} (print : α → String)
    (hprint : ∀ z, print z ∈ xs.map print ↔ print z ∈ ys.map print)
    (hlike : ∀ x ∈ xs, ∀ y ∈ ys, print x = print y → like x y) : Alike like xs ys := by
  constructor
  · intro x hx
    obtain ⟨y, hy, heq⟩ := List.mem_map.mp ((hprint _).mp (List.mem_map_of_mem hx))
    exact ⟨y, hy, hlike x hx y hy heq.symm⟩
  · intro y hy
    obtain ⟨x, hx, heq⟩ := List.mem_map.mp ((hprint _).mpr (List.mem_map_of_mem hy))
    exact ⟨x, hx, hlike x hx y hy heq⟩

/-- Rules that select the same for the same target. -/
def LikeRule (a b : CompiledRule) : Prop :=
  a.gitTarget.key = b.gitTarget.key ∧ a.resourceRules = b.resourceRules
  deriving Decidable

def LikeClusterRule (a b : CompiledClusterRule) : Prop :=
  a.gitTarget.key = b.gitTarget.key ∧ a.rules = b.rules
  deriving Decidable

/-- Two states that project the same tables. -/
structure SameInputs (m₀ m : Manager X) : Prop where
  rules : Alike LikeRule m₀.snapshotWatchRules m.snapshotWatchRules
  clusterRules : Alike LikeClusterRule m₀.snapshotClusterWatchRules m.snapshotClusterWatchRules
  records : ∀ key, SameFacts (recordsFor m₀ key) (recordsFor m key)

theorem SameInputs.hasRule_iff (h : SameInputs m₀ m) (key : String) : HasRule m₀ key ↔ HasRule m key :=
  or_congr (h.rules.exists_iff (fun a b hab => by rw [hab.1]))
    (h.clusterRules.exists_iff (fun a b hab => by rw [hab.1]))

theorem SameInputs.selects_iff (h : SameInputs m₀ m) (key : String) (k : TargetWatchKey)
    (op : Operation) :
    Selects (projectedSelections m₀ key) k op ↔ Selects (projectedSelections m key) k op := by
  rw [selects_projected_iff, selects_projected_iff]
  refine or_congr (h.rules.exists_iff ?_) (h.clusterRules.exists_iff ?_)
  · intro a b hab
    rw [hab.1, selects_watchRule_iff, selects_watchRule_iff, hab.2]
    simp only [(h.records key).matched_iff]
  · intro a b hab
    rw [hab.1, selects_clusterWatchRule_iff, selects_clusterWatchRule_iff, hab.2]
    simp only [(h.records key).matched_iff]

theorem sameFacts_of_live {r r' : Registry} (h : r.live = r'.live) :
    SameFacts r.followable r'.followable := by
  have hfact : ∀ reg : Registry, ∀ id preferred,
      Facts reg.followable id preferred ↔ reg.live id = some preferred := by
    intro reg id preferred
    rw [← mem_followable_iff reg ⟨id, preferred, .followable⟩]
    constructor
    · rintro ⟨⟨_, _, verdict⟩, hrec, rfl, rfl⟩
      exact ⟨verdict, hrec⟩
    · rintro ⟨verdict, hrec⟩
      exact ⟨_, hrec, rfl, rfl⟩
  intro id preferred
  rw [hfact, hfact, h]

/-- The fingerprints of the rules tell the current rules from those of the last projection. -/
structure Told (m : Manager X) : Prop where
  nulFree : NulFree cfg m
  rules : ∀ rule₀ ∈ m.resolvedRules, ∀ rule ∈ m.snapshotWatchRules,
    watchRuleFingerprint cfg rule₀ = watchRuleFingerprint cfg rule → LikeRule rule₀ rule
  clusterRules : ∀ rule₀ ∈ m.resolvedClusterRules, ∀ rule ∈ m.snapshotClusterWatchRules,
    clusterWatchRuleFingerprint cfg rule₀ = clusterWatchRuleFingerprint cfg rule →
      LikeClusterRule rule₀ rule

/-- Equal fingerprints are fingerprints of equal texts, and no revision in them has wrapped. -/
def NoCollision (m : Manager X) : Prop :=
  m.resolved = some (fingerprints cfg m) → m.resolvedTexts = some (fingerprintTexts cfg m) ∧
    ∀ id ∈ activeClusterIDs m, (m.clusters id).registry.changes < 2 ^ 64

/-- `m₀` is the state that the tables of `m` were projected in. -/
structure ProjectedFrom (m₀ m : Manager X) : Prop where
  tables : m.tables = resolveWatchedTypeTables m₀
  texts : m.resolvedTexts = some (fingerprintTexts cfg m₀)
  rules : m.resolvedRules = m₀.snapshotWatchRules
  clusterRules : m.resolvedClusterRules = m₀.snapshotClusterWatchRules
  plain : PlainNames m₀
  nulFree : NulFree cfg m₀
  precedes : ∀ id, Precedes (m₀.clusters id).registry (m.clusters id).registry

theorem mem_watchRuleParts_iff (m : Manager X) (rule : CompiledRule) :
    watchRuleFingerprint cfg rule ∈ ruleParts cfg m ↔
      watchRuleFingerprint cfg rule ∈ m.snapshotWatchRules.map (watchRuleFingerprint cfg) := by
  rw [ruleParts, List.mem_append, or_iff_left]
  rintro hmem
  obtain ⟨rule', -, heq⟩ := List.mem_map.mp hmem
  exact watchRule_ne_clusterWatchRule cfg rule rule' heq.symm

theorem mem_clusterWatchRuleParts_iff (m : Manager X) (rule : CompiledClusterRule) :
    clusterWatchRuleFingerprint cfg rule ∈ ruleParts cfg m ↔ clusterWatchRuleFingerprint cfg rule ∈
      m.snapshotClusterWatchRules.map (clusterWatchRuleFingerprint cfg) := by
  rw [ruleParts, List.mem_append, or_iff_right]
  rintro hmem
  obtain ⟨rule', -, heq⟩ := List.mem_map.mp hmem
  exact watchRule_ne_clusterWatchRule cfg rule' rule heq

/-- Two states with the same texts have the same inputs, if rules that print the same are alike and
    a registry at the same revision is the same. -/
theorem sameInputs_of_texts (htext : fingerprintTexts cfg m₀ = fingerprintTexts cfg m)
    (hplain₀ : PlainNames m₀) (hplain : PlainNames m) (hnul₀ : NulFree cfg m₀)
    (hnul : NulFree cfg m) (hrule : ∀ rule₀ ∈ m₀.snapshotWatchRules, ∀ rule ∈ m.snapshotWatchRules,
      watchRuleFingerprint cfg rule₀ = watchRuleFingerprint cfg rule → LikeRule rule₀ rule)
    (hcluster : ∀ rule₀ ∈ m₀.snapshotClusterWatchRules, ∀ rule ∈ m.snapshotClusterWatchRules,
      clusterWatchRuleFingerprint cfg rule₀ = clusterWatchRuleFingerprint cfg rule →
        LikeClusterRule rule₀ rule) (hlive : ∀ id ∈ activeClusterIDs m,
      (m₀.clusters id).registry.revision = (m.clusters id).registry.revision →
        (m₀.clusters id).registry.live = (m.clusters id).registry.live) : SameInputs m₀ m := by
  have hregistry := congrArg Fingerprints.registries htext
  have hpart := mem_of_sorted_text (rulePart_part cfg hnul₀) (rulePart_part cfg hnul)
    (congrArg Fingerprints.rules htext)
  have hmap := mapping_eq_of_text hplain₀ hplain (congrArg Fingerprints.clusters htext)
  refine ⟨alike_of_print (watchRuleFingerprint cfg) ?_ hrule,
    alike_of_print (clusterWatchRuleFingerprint cfg) ?_ hcluster, ?_⟩
  · intro rule
    rw [← mem_watchRuleParts_iff, ← mem_watchRuleParts_iff]
    exact hpart _
  · intro rule
    rw [← mem_clusterWatchRuleParts_iff, ← mem_clusterWatchRuleParts_iff]
    exact hpart _
  · intro key
    have hid : clusterIDForGitTarget m₀ key = clusterIDForGitTarget m key := by
      rw [clusterIDForGitTarget, clusterIDForGitTarget, hmap]
    rw [recordsFor, recordsFor, hid]
    exact sameFacts_of_live (hlive _ (clusterID_active m key)
      (revision_eq_of_text hplain₀ hplain hregistry (clusterID_active m key)))

/-- While no fingerprint has moved, the inputs are those of the last projection. -/
theorem ProjectedFrom.sameInputs (h : ProjectedFrom cfg m₀ m) (hplain : PlainNames m)
    (htold : Told cfg m) (hcollide : NoCollision cfg m)
    (hcur : m.resolved = some (fingerprints cfg m)) : SameInputs m₀ m := by
  obtain ⟨htexts, hroom⟩ := hcollide hcur
  have htext : fingerprintTexts cfg m₀ = fingerprintTexts cfg m :=
    Option.some.inj (h.texts.symm.trans htexts)
  refine sameInputs_of_texts cfg htext h.plain hplain h.nulFree htold.nulFree ?_ ?_
    (fun id hid => (h.precedes id).live_of_revision (hroom id hid))
  · rw [← h.rules]
    exact htold.rules
  · rw [← h.clusterRules]
    exact htold.clusterRules

/-! ## 6. The resident tables -/

/-- The targets with a table are those with a rule, and each table has the specs of the
    current projection. -/
structure TablesFollow (m : Manager X) : Prop where
  absent : ∀ key, m.tables.lookup key = none → ¬ HasRule m key
  present : ∀ key table, m.tables.lookup key = some table → table.gitDest.key = key ∧ HasRule m key ∧
    ∀ t : ResourceReference, t.key = key →
      SameSpecs (targetWatchSpecs table) (targetWatchSpecs (projection m t))

theorem tablesFollow_of_sameInputs (htables : m.tables = resolveWatchedTypeTables m₀)
    (h : SameInputs m₀ m) : TablesFollow m := by
  constructor
  · intro key hnone
    rw [htables] at hnone
    rcases lookup_resolve m₀ key with ⟨-, hrule⟩ | ⟨dest, -, -, hsome⟩
    · exact fun hrule' => hrule ((h.hasRule_iff key).mpr hrule')
    · rw [hnone] at hsome
      simp at hsome
  · intro key table hlook
    rw [htables] at hlook
    rcases lookup_resolve m₀ key with ⟨hnone, -⟩ | ⟨dest, hdest, hrule, hsome⟩
    · rw [hnone] at hlook
      simp at hlook
    · rw [hsome] at hlook
      obtain rfl := Option.some.inj hlook
      refine ⟨hdest, (h.hasRule_iff key).mp hrule, ?_⟩
      rintro t rfl
      exact targetWatchSpecs_congr dest t (h.selects_iff t.key)

/-- Across a run: registries follow their catalogs, names are plain, and the tables were
    projected in some earlier state. -/
structure Fresh (m : Manager X) : Prop where
  published : ∀ id, Published (m.clusters id)
  plain : PlainNames m
  projected : m.resolved = none ∨ ∃ m₀, ProjectedFrom cfg m₀ m

theorem fresh_initial : Fresh cfg (initialManager : Manager X) :=
  ⟨fun _ => published_new, fun _ _ h => by simp [initialManager] at h, Or.inl rfl⟩

theorem Fresh.refreshed (h : Fresh cfg m) (hr : Refreshed m m') : Fresh cfg m' where
  published id := (hr.clusters id (h.published id)).1
  plain := by
    rw [PlainNames, hr.gitTargetClusters]
    exact h.plain
  projected := by
    rw [hr.resolved]
    refine h.projected.imp id ?_
    rintro ⟨m₀, hm₀⟩
    exact ⟨m₀, hr.tables.trans hm₀.tables, hr.resolvedTexts.trans hm₀.texts,
      hr.resolvedRules.trans hm₀.rules, hr.resolvedClusterRules.trans hm₀.clusterRules, hm₀.plain,
      hm₀.nulFree, fun id => (hm₀.precedes id).trans (hr.clusters id (h.published id)).2⟩

theorem Told.refreshed (h : Told cfg m) (hr : Refreshed m m') : Told cfg m' := by
  have hrule : m'.snapshotWatchRules = m.snapshotWatchRules := by
    rw [Manager.snapshotWatchRules, hr.rules, Manager.snapshotWatchRules]
  have hcluster : m'.snapshotClusterWatchRules = m.snapshotClusterWatchRules := by
    rw [Manager.snapshotClusterWatchRules, hr.clusterRules, Manager.snapshotClusterWatchRules]
  refine ⟨?_, ?_, ?_⟩
  · rw [NulFree, ruleParts, hrule, hcluster]
    exact h.nulFree
  · rw [hr.resolvedRules, hrule]
    exact h.rules
  · rw [hr.resolvedClusterRules, hcluster]
    exact h.clusterRules

theorem Fresh.edited (h : Fresh cfg m) (rules : Dict ResourceReference CompiledRule)
    (clusterRules : Dict String CompiledClusterRule) (watches : Dict String TargetWatchSet) :
    Fresh cfg { m with rules := rules, clusterRules := clusterRules, targetWatches := watches } where
  published := h.published
  plain := h.plain
  projected := h.projected.imp id (fun ⟨m₀, hm₀⟩ => ⟨m₀, hm₀.tables, hm₀.texts, hm₀.rules,
    hm₀.clusterRules, hm₀.plain, hm₀.nulFree, hm₀.precedes⟩)

theorem Fresh.remembered (h : Fresh cfg m) {id : String}
    (ht : Plain t.key) (hid : Plain id) : Fresh cfg (rememberGitTargetCluster t id m) where
  published := h.published
  plain := by
    intro key id' hlook
    by_cases hkey : key = t.key
    · subst hkey
      rw [rememberGitTargetCluster, AList.lookup_insert] at hlook
      obtain rfl := Option.some.inj hlook
      exact ⟨ht, hid⟩
    · rw [rememberGitTargetCluster, AList.lookup_insert_ne hkey] at hlook
      exact h.plain key id' hlook
  projected := h.projected.imp (fun hnone => hnone) (fun ⟨m₀, hm₀⟩ => ⟨m₀, hm₀.tables, hm₀.texts,
    hm₀.rules, hm₀.clusterRules, hm₀.plain, hm₀.nulFree, hm₀.precedes⟩)

theorem refreshWatchedTypeTables_follow [DecidableEq X] (h : Fresh cfg m) (htold : Told cfg m)
    (now : Int) (hcollide : NoCollision cfg (readyRegistries now m)) :
    Fresh cfg (refreshWatchedTypeTables cfg now m) ∧
      TablesFollow (refreshWatchedTypeTables cfg now m) := by
  have hready := refreshed_readyRegistries now m
  have hfresh := h.refreshed cfg hready
  have htold' := htold.refreshed cfg hready
  unfold refreshWatchedTypeTables
  simp only
  generalize readyRegistries now m = m₁ at hcollide hready hfresh htold' ⊢
  split
  · rename_i hcur
    refine ⟨hfresh, ?_⟩
    rcases hfresh.projected with hnone | ⟨m₀, hm₀⟩
    · rw [hnone] at hcur
      simp at hcur
    · exact tablesFollow_of_sameInputs hm₀.tables (hm₀.sameInputs cfg hfresh.plain htold' hcollide hcur)
  · refine ⟨⟨hfresh.published, hfresh.plain, Or.inr ⟨m₁, rfl, rfl, rfl, rfl, hfresh.plain,
      htold'.nulFree, fun _ => Precedes.refl _⟩⟩, tablesFollow_of_sameInputs rfl ?_⟩
    exact ⟨⟨fun r hr => ⟨r, hr, rfl, rfl⟩, fun r hr => ⟨r, hr, rfl, rfl⟩⟩,
      ⟨fun r hr => ⟨r, hr, rfl, rfl⟩, fun r hr => ⟨r, hr, rfl, rfl⟩⟩, fun _ _ _ => Iff.rfl⟩

end GitopsReverser.Watch
