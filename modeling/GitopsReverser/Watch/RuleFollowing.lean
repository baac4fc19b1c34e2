import GitopsReverser.Reasoning.Runs
import GitopsReverser.Watch.TableFreshness

/-!
# RuleFollowing — running watches follow the rules

A watch set is replaced through the resident table of its target, so a target without a table
keeps the streams it has. Apart from that, and while the fingerprints tell the rules apart, the
running streams are those of the current projection after each reconcile and each declare.
-/

namespace GitopsReverser.Watch

open Reasoning Typeset

variable {X : Type} (cfg : ManagerConfig X)

/-! ## 1. Replacing one watch set -/

theorem replaceGitTargetWatches_eq (force : Bool) (m : Manager X) (table : WatchedTypeTable) :
    ∃ watches, replaceGitTargetWatches force m table = { m with targetWatches := watches } := by
  unfold replaceGitTargetWatches
  simp only
  split
  · exact ⟨m.targetWatches, rfl⟩
  · exact ⟨_, rfl⟩

variable {set : TargetWatchSet} {m : Manager X} {t : ResourceReference}

/-- After a replacement the target runs the specs of the table, by a new set or by the old one. -/
theorem replaceGitTargetWatches_self (force : Bool) (m : Manager X) (table : WatchedTypeTable)
    (hset : (replaceGitTargetWatches force m table).targetWatches.lookup table.gitDest.key = some set) :
    SameSpecs set.specs (targetWatchSpecs table) := by
  unfold replaceGitTargetWatches at hset
  simp only at hset
  split at hset
  · rename_i hruns
    rw [alreadyRuns, hset, Option.any_some, Bool.and_eq_true] at hruns
    exact lookup_eq_of_sameEntries set.spec_ne hruns.2
  · rw [AList.lookup_insert] at hset
    obtain rfl := Option.some.inj hset
    exact fun _ => rfl

theorem replaceGitTargetWatches_of_ne (force : Bool) (m : Manager X) (table : WatchedTypeTable)
    {key : String} (hkey : key ≠ table.gitDest.key) :
    (replaceGitTargetWatches force m table).targetWatches.lookup key = m.targetWatches.lookup key := by
  unfold replaceGitTargetWatches
  simp only
  split
  · rfl
  · exact AList.lookup_insert_ne hkey

theorem foldl_replace_eq (tables : List WatchedTypeTable) (m : Manager X) :
    ∃ watches, tables.foldl (replaceGitTargetWatches false) m = { m with targetWatches := watches } := by
  induction tables generalizing m with
  | nil => exact ⟨m.targetWatches, rfl⟩
  | cons table tables ih =>
    obtain ⟨watches, hwatch⟩ := replaceGitTargetWatches_eq false m table
    obtain ⟨watches', hrest⟩ := ih (replaceGitTargetWatches false m table)
    refine ⟨watches', ?_⟩
    rw [List.foldl_cons, hrest, hwatch]

theorem foldl_replace_lookup (tables : List WatchedTypeTable) (m : Manager X) {key : String}
    (hset : (tables.foldl (replaceGitTargetWatches false) m).targetWatches.lookup key = some set) :
    (∃ table ∈ tables, table.gitDest.key = key ∧ SameSpecs set.specs (targetWatchSpecs table)) ∨
      ((∀ table ∈ tables, table.gitDest.key ≠ key) ∧ m.targetWatches.lookup key = some set) := by
  induction tables generalizing m with
  | nil => exact Or.inr ⟨by simp, hset⟩
  | cons table tables ih =>
    rcases ih (replaceGitTargetWatches false m table) hset with ⟨later, hlater, hspec⟩ | ⟨hnone, hlook⟩
    · exact Or.inl ⟨later, List.mem_cons_of_mem _ hlater, hspec⟩
    · by_cases hkey : key = table.gitDest.key
      · subst hkey
        exact Or.inl ⟨table, List.mem_cons_self, rfl, replaceGitTargetWatches_self false m table hlook⟩
      · rw [replaceGitTargetWatches_of_ne false m table hkey] at hlook
        refine Or.inr ⟨?_, hlook⟩
        intro other hother
        rcases List.mem_cons.mp hother with rfl | hother
        · exact Ne.symm hkey
        · exact hnone other hother

/-! ## 2. Following the rules -/

/-- What runs for a target is its projection: the specs, and the streams with their filters. -/
structure Follows (m : Manager X) (t : ResourceReference) (set : TargetWatchSet) : Prop where
  specs : SameSpecs set.specs (targetWatchSpecs (projection m t))
  streams : ∀ key spec, (∃ ops, (key, ops) ∈ set.streams ∧ operationSpec ops = spec) ↔
    (targetWatchSpecs (projection m t)).lookup key = some spec
  idle : ¬ HasRule m t.key → set.streams = []

theorem Follows.of_specs
    (h : SameSpecs set.specs (targetWatchSpecs (projection m t))) : Follows m t set where
  specs := h
  streams key spec := by
    rw [← h key]
    constructor
    · rintro ⟨ops, hstream, rfl⟩
      exact set.filter_spec (key, ops) hstream
    · intro hspec
      have hmem : key ∈ set.specs := AList.lookup_isSome.mp (by rw [hspec]; rfl)
      obtain ⟨ops, hstream⟩ := set.started key hmem
      have hfilter := set.filter_spec (key, ops) hstream
      exact ⟨ops, hstream, Option.some.inj (hfilter.symm.trans hspec)⟩
  idle hrule := by
    refine List.eq_nil_iff_forall_not_mem.mpr (fun s hs => ?_)
    have hfilter := set.filter_spec s hs
    rw [h s.1, projected_of_no_rule hrule s.1] at hfilter
    simp at hfilter

/-- A set that runs streams belongs to a target with a rule. -/
def Backed (m : Manager X) (key : String) : Prop :=
  ∀ set ∈ m.targetWatches.lookup key, set.streams ≠ [] → HasRule m key

theorem hasRule_congr {m m' : Manager X} (hrule : m'.rules = m.rules)
    (hcluster : m'.clusterRules = m.clusterRules) (key : String) :
    HasRule m' key ↔ HasRule m key := by
  simp only [HasRule, Manager.snapshotWatchRules, Manager.snapshotClusterWatchRules, hrule, hcluster]

theorem Backed.of_kept {m m' : Manager X} {key : String} (h : Backed m key)
    (hrule : m'.rules = m.rules) (hcluster : m'.clusterRules = m.clusterRules)
    (hkept : ∀ set, m'.targetWatches.lookup key = some set → m.targetWatches.lookup key = some set) :
    Backed m' key := by
  intro set hset hstream
  exact (hasRule_congr hrule hcluster key).mpr (h set (hkept set hset) hstream)

theorem Backed.follows_of_no_rule (h : Backed m t.key) (hrule : ¬ HasRule m t.key)
    (hset : m.targetWatches.lookup t.key = some set) :
    SameSpecs set.specs (targetWatchSpecs (projection m t)) := by
  have hstreams : set.streams = [] := by
    by_contra hne
    exact hrule (h set hset hne)
  intro key
  rw [projected_of_no_rule hrule key, AList.lookup_eq_none]
  intro hkey
  obtain ⟨ops, hstream⟩ := set.started key hkey
  rw [hstreams] at hstream
  simp at hstream

/-! ## 3. Steps -/

theorem refreshWatchedTypeTables_frame [DecidableEq X] (now : Int) (m : Manager X) :
    (refreshWatchedTypeTables cfg now m).rules = m.rules ∧
      (refreshWatchedTypeTables cfg now m).clusterRules = m.clusterRules ∧
      (refreshWatchedTypeTables cfg now m).targetWatches = m.targetWatches := by
  unfold refreshWatchedTypeTables
  simp only
  split
  · exact ⟨rfl, rfl, rfl⟩
  · exact ⟨rfl, rfl, rfl⟩

/-- The state in which `EnsureGitTargetWatches` compares fingerprints: catalogs and registries have
    been refreshed, nothing else has changed. -/
def ensureRefreshed (now : Int) (t : ResourceReference) (a : ClusterAnswer) (m : Manager X) :
    Manager X :=
  readyRegistries now (refreshClusterForDeclare now (clusterIDForGitTarget m t.key) a m).1

def reconcileRefreshed (now : Int) (answers : String → ClusterAnswer) (m : Manager X) : Manager X :=
  readyRegistries now (refreshAPIResourceCatalog now answers m).1

theorem refreshed_tables_follow [DecidableEq X] {m m₁ : Manager X} (hfresh : Fresh cfg m)
    (htold : Told cfg m)
    (hr : Refreshed m m₁) (now : Int) (hcollide : NoCollision cfg (readyRegistries now m₁)) :
    Fresh cfg (refreshWatchedTypeTables cfg now m₁) ∧
      TablesFollow (refreshWatchedTypeTables cfg now m₁) ∧
      ∀ key, Backed m key → Backed (refreshWatchedTypeTables cfg now m₁) key := by
  obtain ⟨hfresh₂, htables⟩ := refreshWatchedTypeTables_follow cfg (hfresh.refreshed cfg hr)
    (htold.refreshed cfg hr) now hcollide
  obtain ⟨hrule, hcluster, hwatch⟩ := refreshWatchedTypeTables_frame cfg now m₁
  refine ⟨hfresh₂, htables, fun key hback => ?_⟩
  refine hback.of_kept (hrule.trans hr.rules) (hcluster.trans hr.clusterRules) ?_
  intro set hset
  rw [hwatch] at hset
  exact hr.targetWatches key set hset

theorem replace_resident_follows (htables : TablesFollow m) (hbacked : Backed m t.key) (force : Bool)
    (hset : (replaceGitTargetWatches force m (residentWatchedTypeTable m t.key)).targetWatches.lookup
      t.key = some set) : SameSpecs set.specs (targetWatchSpecs (projection m t)) := by
  cases hlook : m.tables.lookup t.key with
  | some table =>
    obtain ⟨hkey, -, hspec⟩ := htables.present t.key table hlook
    rw [residentWatchedTypeTable, hlook, Option.getD_some, ← hkey] at hset
    have hrun := replaceGitTargetWatches_self force m table hset
    exact fun key => (hrun key).trans (hspec t rfl key)
  | none =>
    have hrule := htables.absent t.key hlook
    rw [residentWatchedTypeTable, hlook, Option.getD_none] at hset
    -- the zero table is written under the key of the empty reference
    by_cases hkey : t.key = "/"
    · rw [hkey] at hset
      have hrun := replaceGitTargetWatches_self force m ⟨⟨"", ""⟩, [], List.nodup_nil⟩ hset
      exact fun key => (hrun key).trans (projected_of_no_rule hrule key).symm
    · rw [replaceGitTargetWatches_of_ne force m _ (show t.key ≠ "/" from hkey)] at hset
      exact hbacked.follows_of_no_rule hrule hset

theorem refreshRunning_follows (htable : TablesFollow m) (hbacked : Backed m t.key)
    (hset : (refreshRunningTargetWatches m).targetWatches.lookup t.key = some set) :
    SameSpecs set.specs (targetWatchSpecs (projection m t)) := by
  -- the resident tables are the values of the map, in the order of their keys
  have hres : ∀ table, table ∈ residentWatchedTypeTables m ↔
      ∃ key, m.tables.lookup key = some table := by
    intro table
    simp only [residentWatchedTypeTables, List.mem_insertionSort, List.mem_map]
    constructor
    · rintro ⟨⟨key, _⟩, he, rfl⟩
      exact ⟨key, mem_entries_iff.mp he⟩
    · rintro ⟨key, hlook⟩
      exact ⟨⟨key, table⟩, mem_entries_iff.mpr hlook, rfl⟩
  rcases foldl_replace_lookup _ m hset with ⟨table, htables, hkey, hrun⟩ | ⟨hnone, hlook⟩
  · obtain ⟨key, hlook⟩ := (hres table).mp (List.mem_filter.mp htables).1
    obtain ⟨hkey', -, hspec⟩ := htable.present key table hlook
    exact fun k => (hrun k).trans (hspec t (hkey.symm.trans hkey') k)
  · cases htables : m.tables.lookup t.key with
    | none => exact hbacked.follows_of_no_rule (htable.absent t.key htables) hlook
    | some table =>
      have hkey := (htable.present t.key table htables).1
      refine absurd hkey (hnone table (List.mem_filter.mpr ⟨(hres table).mpr ⟨_, htables⟩, ?_⟩))
      rw [hkey, hlook]
      rfl

theorem ensureGitTargetWatches_follows [DecidableEq X] (hfresh : Fresh cfg m) (htold : Told cfg m)
    (hbacked : Backed m t.key) (now : Int) (a : ClusterAnswer) (force : Bool)
    (hcollide : NoCollision cfg (ensureRefreshed now t a m)) :
    Fresh cfg (ensureGitTargetWatches cfg now t a force m).1 ∧
      ((ensureGitTargetWatches cfg now t a force m).2 = none → ∀ set,
        (ensureGitTargetWatches cfg now t a force m).1.targetWatches.lookup t.key = some set →
          Follows (ensureGitTargetWatches cfg now t a force m).1 t set) := by
  have hr := refreshed_refreshClusterForDeclare now (clusterIDForGitTarget m t.key) a m
  unfold ensureGitTargetWatches
  cases hcatalog : refreshClusterForDeclare now (clusterIDForGitTarget m t.key) a m with
  | mk m₁ err =>
    rw [ensureRefreshed, hcatalog] at hcollide
    rw [hcatalog] at hr
    cases err with
    | some e => exact ⟨hfresh.refreshed cfg hr, by simp⟩
    | none =>
      obtain ⟨hfresh₂, htables, hkept⟩ := refreshed_tables_follow cfg hfresh htold hr now hcollide
      have hbacked₂ := hkept t.key hbacked
      simp only
      -- from here on only that the tables follow the rules is used
      generalize refreshWatchedTypeTables cfg now m₁ = m₂ at hfresh₂ htables hbacked₂ ⊢
      split
      · exact ⟨hfresh₂, by simp⟩
      · split
        · exact ⟨hfresh₂, by simp⟩
        · obtain ⟨watches, hwatch⟩ := replaceGitTargetWatches_eq force m₂
            (residentWatchedTypeTable m₂ t.key)
          have hspec := fun set => @replace_resident_follows X set m₂ t htables hbacked₂ force
          simp only [hwatch] at hspec ⊢
          exact ⟨hfresh₂.edited cfg m₂.rules m₂.clusterRules watches,
            fun _ set hset => Follows.of_specs (hspec set hset)⟩

theorem refreshClusters_error (now : Int) (answers : String → ClusterAnswer) (ids : List String)
    (result : Manager X × Option String) (hres : result.2 = none)
    (hok : ∀ id ∈ ids.getLast?, (answers id).scan.isOk = true) :
    (refreshClusters now answers ids result).2 = none := by
  have hone : ∀ id (m : Manager X), (answers id).scan.isOk = true →
      (refreshCluster now id (answers id) m).2 = none := by
    intro id m hscan
    simp only [refreshCluster, refreshClusterCatalog]
    cases hanswer : (answers id).scan with
    | error e => rw [hanswer] at hscan; simp [Except.isOk, Except.toBool] at hscan
    | ok scan => rfl
  induction ids generalizing result with
  | nil => exact hres
  | cons id ids ih =>
    cases ids with
    | nil => exact hone id result.1 (hok id rfl)
    | cons next rest =>
      rw [List.getLast?_cons_cons] at hok
      -- the error so far is overwritten, whatever it is
      have hdrop : ∀ (m : Manager X) (err : Option String),
          refreshClusters now answers (next :: rest) (m, err) =
            refreshClusters now answers (next :: rest) (m, none) := fun _ _ => rfl
      have hrest := ih ((refreshCluster now id (answers id) result.1).1, none) rfl hok
      rw [← hdrop _ (refreshCluster now id (answers id) result.1).2] at hrest
      exact hrest

theorem reconcileForRuleChange_follows [DecidableEq X] (hfresh : Fresh cfg m) (htold : Told cfg m)
    (hbacked : ∀ key, Backed m key) (now : Int) (answers : String → ClusterAnswer)
    (hcollide : NoCollision cfg (reconcileRefreshed now answers m))
    (hok : ∀ id ∈ (localClusterIDs m).getLast?, (answers id).scan.isOk = true) :
    Fresh cfg (reconcileForRuleChange cfg now answers m).1 ∧ ∀ t : ResourceReference, ∀ set,
        (reconcileForRuleChange cfg now answers m).1.targetWatches.lookup t.key = some set →
          Follows (reconcileForRuleChange cfg now answers m).1 t set := by
  have hr := refreshed_refreshAPIResourceCatalog now answers m
  have herr : (refreshAPIResourceCatalog now answers m).2 = none :=
    refreshClusters_error now answers (localClusterIDs m) (m, none) rfl hok
  unfold reconcileForRuleChange
  cases hcatalog : refreshAPIResourceCatalog now answers m with
  | mk m₁ err =>
    rw [reconcileRefreshed, hcatalog] at hcollide
    rw [hcatalog] at hr herr
    -- the error of the last cluster is the one returned, and that one answered
    obtain rfl : err = none := herr
    obtain ⟨hfresh₂, htables, hkept⟩ := refreshed_tables_follow cfg hfresh htold hr now hcollide
    simp only
    generalize refreshWatchedTypeTables cfg now m₁ = m₂ at hfresh₂ htables hkept ⊢
    obtain ⟨watches, hwatch⟩ := foldl_replace_eq ((residentWatchedTypeTables m₂).filter
      (fun table => (m₂.targetWatches.lookup table.gitDest.key).isSome)) m₂
    have hrun : refreshRunningTargetWatches m₂ = { m₂ with targetWatches := watches } := hwatch
    refine ⟨?_, fun t set hset => ?_⟩
    · rw [hrun]
      exact hfresh₂.edited cfg m₂.rules m₂.clusterRules watches
    · have hspec := refreshRunning_follows htables (hkept t.key (hbacked t.key)) hset
      rw [hrun]
      exact Follows.of_specs hspec

/-! ## 4. Runs -/

instance (m : Manager X) (key : String) : Decidable (Backed m key) :=
  match h : m.targetWatches.lookup key with
  | none => isTrue (fun set hset => by rw [h] at hset; simp at hset)
  | some set => decidable_of_iff (set.streams ≠ [] → HasRule m key) (by
      constructor
      · intro himp set' hset'
        rw [h] at hset'
        obtain rfl := Option.some.inj hset'
        exact himp
      · exact fun hback => hback set h)

instance (m : Manager X) : Decidable (Told cfg m) :=
  decidable_of_iff ((∀ part ∈ ruleParts cfg m, '\x00' ∉ part.toList) ∧
    (∀ rule₀ ∈ m.resolvedRules, ∀ rule ∈ m.snapshotWatchRules,
      watchRuleFingerprint cfg rule₀ = watchRuleFingerprint cfg rule → LikeRule rule₀ rule) ∧
    ∀ rule₀ ∈ m.resolvedClusterRules, ∀ rule ∈ m.snapshotClusterWatchRules,
      clusterWatchRuleFingerprint cfg rule₀ = clusterWatchRuleFingerprint cfg rule →
        LikeClusterRule rule₀ rule)
    ⟨fun h => ⟨h.1, h.2.1, h.2.2⟩, fun h => ⟨h.nulFree, h.rules, h.clusterRules⟩⟩

instance [DecidableEq X] (m : Manager X) :
    Decidable (NoCollision cfg m) := inferInstanceAs (Decidable (_ → _))

/-- The condition on a call: the fingerprints tell the rules apart, no target that runs streams
    has lost its last rule, a reconcile gets past the discovery of the local clusters, and the
    hash does not collide on the texts compared. -/
def RulesTold (m : Manager X) : ManagerInput → Prop
  | .ensure now t a _ => Told cfg m ∧ Backed m t.key ∧ NoCollision cfg (ensureRefreshed now t a m)
  | .declare now t id a _ => Told cfg m ∧ Backed m t.key ∧ (Plain t.key ∧ Plain id) ∧
      NoCollision cfg (ensureRefreshed now t a (rememberGitTargetCluster t id m))
  | .reconcile now answers => Told cfg m ∧ (∀ key ∈ m.targetWatches.keys, Backed m key) ∧
      (∀ id ∈ (localClusterIDs m).getLast?, (answers id).scan.isOk = true) ∧
      NoCollision cfg (reconcileRefreshed now answers m)
  | _ => True

instance [DecidableEq X] (m : Manager X) (input : ManagerInput) :
    Decidable (RulesTold cfg m input) :=
  match input with
  | .ensure .. | .declare .. | .reconcile .. => instDecidableAnd
  | .setRule .. | .deleteRule .. | .setClusterRule .. | .deleteClusterRule .. | .scan ..
  | .republish .. => instDecidableTrue

/-- The call settles what runs for `t`: a reconcile, or a declare of `t` that succeeded. -/
def Settles (err : Option String) (t : ResourceReference) : ManagerInput → Prop
  | .ensure _ t' _ _ => t' = t ∧ err = none
  | .declare _ t' _ _ _ => t' = t ∧ err = none
  | .reconcile _ _ => True
  | _ => False

theorem backed_of_keys (h : ∀ key ∈ m.targetWatches.keys, Backed m key) (key : String) :
    Backed m key := by
  intro set hset
  have hmem : key ∈ m.targetWatches := AList.lookup_isSome.mp (by rw [hset]; rfl)
  exact h key (AList.mem_keys.mp hmem) set hset

/-- One step: what the run preserves, and what the call has settled. -/
theorem managerStep_follows [DecidableEq X] (hfresh : Fresh cfg m) {input : ManagerInput}
    (htold : RulesTold cfg m input) :
    Fresh cfg (managerStep cfg m input) ∧ ∀ t, Settles (managerCall cfg m input).2 t input → ∀ set,
        (managerStep cfg m input).targetWatches.lookup t.key = some set →
          Follows (managerStep cfg m input) t set := by
  cases input with
  | setRule source rule =>
    exact ⟨hfresh.edited cfg (m.rules.insert source rule) m.clusterRules m.targetWatches, by simp [Settles]⟩
  | deleteRule source =>
    exact ⟨hfresh.edited cfg (m.rules.erase source) m.clusterRules m.targetWatches, by simp [Settles]⟩
  | setClusterRule source rule =>
    exact ⟨hfresh.edited cfg m.rules (m.clusterRules.insert source rule) m.targetWatches,
      by simp [Settles]⟩
  | deleteClusterRule source =>
    exact ⟨hfresh.edited cfg m.rules (m.clusterRules.erase source) m.targetWatches, by simp [Settles]⟩
  | scan now answers =>
    exact ⟨hfresh.refreshed cfg (refreshed_refreshAPIResourceCatalog now answers m), by simp [Settles]⟩
  | republish now id =>
    exact ⟨hfresh.refreshed cfg (refreshed_setCluster m id _ (fun h => h.republished now)),
      by simp [Settles]⟩
  | ensure now t a force =>
    obtain ⟨htell, hback, hcollide⟩ := htold
    obtain ⟨hfresh', hfollow⟩ := ensureGitTargetWatches_follows cfg hfresh htell hback now a force hcollide
    refine ⟨hfresh', ?_⟩
    rintro t' ⟨rfl, hnone⟩ set hset
    exact hfollow hnone set hset
  | declare now t id a force =>
    obtain ⟨htell, hback, ⟨hkey, hid⟩, hcollide⟩ := htold
    have htold' : Told cfg (rememberGitTargetCluster t id m) :=
      ⟨htell.nulFree, htell.rules, htell.clusterRules⟩
    obtain ⟨hfresh', hfollow⟩ := ensureGitTargetWatches_follows cfg
      (hfresh.remembered cfg hkey hid) htold' (t := t) hback now a force hcollide
    refine ⟨hfresh', ?_⟩
    rintro t' ⟨rfl, hnone⟩ set hset
    exact hfollow hnone set hset
  | reconcile now answers =>
    obtain ⟨htell, hback, hok, hcollide⟩ := htold
    obtain ⟨hfresh', hfollow⟩ := reconcileForRuleChange_follows cfg hfresh htell
      (backed_of_keys hback) now answers hcollide hok
    exact ⟨hfresh', fun t _ set hset => hfollow t set hset⟩

/-- Running watches follow the rules: in every run that meets the condition, each reconcile and
    each successful declare of `t` leaves `t` running the streams of its current projection. -/
theorem watches_follow_rules [DecidableEq X] (inputs : List ManagerInput)
    (hall : AllSteps (managerStep cfg) (RulesTold cfg) initialManager inputs) (input : ManagerInput)
    (htold : RulesTold cfg (inputs.foldl (managerStep cfg) initialManager) input)
    (t : ResourceReference)
    (hsettles : Settles (managerCall cfg (inputs.foldl (managerStep cfg) initialManager) input).2 t input)
    (set : TargetWatchSet)
    (hset : ((inputs ++ [input]).foldl (managerStep cfg) initialManager).targetWatches.lookup t.key =
      some set) :
    Follows ((inputs ++ [input]).foldl (managerStep cfg) initialManager) t set := by
  have hstep : ∀ m i, RulesTold cfg m i → Fresh cfg m → Fresh cfg (managerStep cfg m i) :=
    fun _ _ htold hfresh => (managerStep_follows cfg hfresh htold).1
  have hfresh := hall.invariant hstep (fresh_initial cfg)
  rw [List.foldl_append] at hset ⊢
  exact (managerStep_follows cfg hfresh htold).2 t hsettles set hset

def plainConfig : ManagerConfig String := ⟨id, id⟩

def served (group kind resource : String) : Entry :=
  ⟨⟨group, "v1", kind⟩, ⟨group, "v1", resource⟩, true, ["get", "list", "watch"], true, false, true,
    false⟩

def twoTypes : Scan :=
  ⟨[served "apps" "Deployment" "deployments", served "" "ConfigMap" "configmaps"],
    [⟨"apps", "v1"⟩, ⟨"", "v1"⟩], [], true⟩

def discovers (scan : Except String Scan) : ClusterAnswer := ⟨false, false, scan⟩

def mirrorTarget : ResourceReference := ⟨"team", "mirror"⟩

def selecting (groups resources : List String) : CompiledRule where
  gitTarget := mirrorTarget
  dest := ⟨⟨"team", "repo"⟩, "main", "live"⟩
  resourceRules := [⟨⟨[], groups, ["v1"], resources⟩, ["team"]⟩]

def teamRule : ResourceReference := ⟨"team", "rule"⟩

def declaredRun (rule : CompiledRule) : List ManagerInput :=
  [.setRule teamRule rule, .declare 0 mirrorTarget "" (discovers (.ok twoTypes)) false]

def reconciled : ManagerInput := .reconcile 1 (fun _ => discovers (.ok twoTypes))

def ranFrom (inputs : List ManagerInput) : Manager String :=
  inputs.foldl (managerStep plainConfig) initialManager

def runningKeys (m : Manager String) : Option (List TargetWatchKey) :=
  (m.targetWatches.lookup mirrorTarget.key).map (fun set => set.streams.map (·.1))

def wantedKeys (m : Manager String) : List TargetWatchKey :=
  (targetWatchSpecs (projection m mirrorTarget)).keys

def deploymentStream : TargetWatchKey := ⟨⟨"apps", "v1", "deployments"⟩, "team"⟩

def configMapStream : TargetWatchKey := ⟨⟨"", "v1", "configmaps"⟩, "team"⟩

def orphanedRun : List ManagerInput :=
  declaredRun (selecting ["apps"] ["deployments"]) ++ [.deleteRule teamRule]

def ensured : ManagerInput := .ensure 1 mirrorTarget (discovers (.ok twoTypes)) false

def regroupedRun : List ManagerInput :=
  declaredRun (selecting [] ["deployments"]) ++ [.setRule teamRule (selecting [""] ["deployments"])]

def editedRun : List ManagerInput :=
  declaredRun (selecting ["apps"] ["deployments"]) ++
    [.setRule teamRule (selecting ["apps", ""] ["deployments", "configmaps"])]

/-- Streams that no rule asks for keep running: after the last rule of the target is deleted, both
    for a reconcile and for an ensure that reports success, after an edit that the fingerprint does
    not show, and after a reconcile whose discovery fails. -/
theorem watches_outlive_rules :
    (runningKeys (ranFrom (orphanedRun ++ [reconciled])) = some [deploymentStream] ∧
        ¬ HasRule (ranFrom (orphanedRun ++ [reconciled])) mirrorTarget.key) ∧
      ((managerCall plainConfig (ranFrom orphanedRun) ensured).2 = none ∧
        runningKeys (ranFrom (orphanedRun ++ [ensured])) = some [deploymentStream] ∧
        ¬ HasRule (ranFrom (orphanedRun ++ [ensured])) mirrorTarget.key) ∧
      (runningKeys (ranFrom (regroupedRun ++ [reconciled])) = some [deploymentStream] ∧
        wantedKeys (ranFrom (regroupedRun ++ [reconciled])) = []) ∧
      runningKeys (ranFrom (editedRun ++ [.reconcile 1 (fun _ => discovers (.error "refused"))])) =
          some [deploymentStream] ∧
        wantedKeys (ranFrom (editedRun ++ [.reconcile 1 (fun _ => discovers (.error "refused"))])) =
          [configMapStream, deploymentStream] := by
  decide +kernel

/-- An edited rule is followed by the next reconcile. -/
theorem edited_rule_followed : ∃ set,
    (ranFrom (editedRun ++ [reconciled])).targetWatches.lookup mirrorTarget.key = some set ∧
      set.streams.map (·.1) = [configMapStream, deploymentStream] ∧
      Follows (ranFrom (editedRun ++ [reconciled])) mirrorTarget set := by
  have hrunning : runningKeys (ranFrom (editedRun ++ [reconciled])) =
      some [configMapStream, deploymentStream] := by decide +kernel
  obtain ⟨set, hset, hkeys⟩ := Option.map_eq_some_iff.mp hrunning
  refine ⟨set, hset, hkeys, ?_⟩
  exact watches_follow_rules plainConfig editedRun (by decide +kernel) reconciled
    (by decide +kernel) mirrorTarget trivial set hset

end GitopsReverser.Watch
