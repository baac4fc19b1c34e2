import GitopsReverser.Watch.Declarations

/-!
# TableHistory — when the tables may be left as they are

The refresh leaves the tables alone when the fingerprints are those of the last projection. Over a
history with forgotten targets a source cluster can be torn down and come back with a registry that
counts its revisions from the start.
-/

namespace GitopsReverser.Watch

open Reasoning Typeset

variable {X : Type} (cfg : ManagerConfig X)

/-! ## 1. Histories -/

/-- The manager, with the state its tables were projected in and the clusters torn down since. -/
structure TableHistory (X : Type) where
  manager : Manager X
  projectedIn : Option (Manager X)
  tornDown : List String

def newTableHistory : TableHistory X := ⟨initialManager, none, []⟩

inductive HistoryInput where
  | edit (e : RuleEdit)
  | remember (t : ResourceReference) (id : String)
  | forget (key : String)
  | refreshCluster (now : Int) (id : String) (a : ClusterAnswer)
  | republish (now : Int) (id : String)
  | refreshTables (now : Int)

/-- The cluster whose context goes with the target, if it is the last one on it. -/
def tornDownBy (key : String) (m : Manager X) : Option String :=
  (m.gitTargetClusters.lookup key).filter (fun id => decide (id ≠ configPlaneClusterID) &&
    !(m.gitTargetClusters.erase key).entries.any (fun e => decide (e.2 = id)))

def UpToDate (m : Manager X) : Prop := m.resolved = some (fingerprints cfg m)

instance [DecidableEq X] (m : Manager X) :
    Decidable (UpToDate cfg m) := inferInstanceAs (Decidable (_ = _))

def historyStep [DecidableEq X] (h : TableHistory X) : HistoryInput → TableHistory X
  | .edit e => { h with manager := e.apply h.manager }
  | .remember t id => { h with manager := rememberGitTargetCluster t id h.manager }
  | .forget key =>
    { h with manager := forgetGitTargetCluster key h.manager
             tornDown := (tornDownBy key h.manager).toList ++ h.tornDown }
  | .refreshCluster now id a => { h with manager := (refreshCluster now id a h.manager).1 }
  | .republish now id =>
    { h with manager :=
        setCluster id (refreshClusterTypeRegistry now (h.manager.clusters id)) h.manager }
  | .refreshTables now =>
    let m₁ := readyRegistries now h.manager
    let m₂ := refreshWatchedTypeTables cfg now h.manager
    if UpToDate cfg m₁ then { h with manager := m₂ } else ⟨m₂, some m₁, []⟩

/-! ## 2. The condition on a history -/

/-- The same targets have tables, and the tables run the same streams with the same filters. -/
def SameTables (a b : Dict String WatchedTypeTable) : Prop :=
  ∀ key, Option.Rel (fun x y => x.gitDest.key = y.gitDest.key ∧
    SameSpecs (targetWatchSpecs x) (targetWatchSpecs y)) (a.lookup key) (b.lookup key)

/-- The table watches the resource as the kind. -/
def Watches (table : WatchedTypeTable) (gvr : GroupVersionResource) (gvk : GroupVersionKind) : Prop :=
  ∃ wt ∈ table.types, wt.gvr = gvr ∧ wt.gvk = gvk

def SameKinds (a b : Dict String WatchedTypeTable) : Prop :=
  ∀ key x y, a.lookup key = some x → b.lookup key = some y →
    ∀ gvr gvk, Watches x gvr gvk ↔ Watches y gvr gvk

/-- No two live records of a source cluster give one resource two kinds. -/
def OneKind (m : Manager X) : Prop :=
  ∀ id ∈ activeClusterIDs m, ∀ a ∈ (m.clusters id).registry.followable,
    ∀ b ∈ (m.clusters id).registry.followable,
      a.identity.gvr = b.identity.gvr → a.identity.gvk = b.identity.gvk
  deriving Decidable

/-- A refresh that leaves the tables alone leaves those that it would project. -/
def LeavesCurrent (h : TableHistory X) : HistoryInput → Prop
  | .refreshTables now =>
    let m₁ := readyRegistries now h.manager
    UpToDate cfg m₁ → SameTables m₁.tables (resolveWatchedTypeTables m₁) ∧
      (OneKind m₁ → SameKinds m₁.tables (resolveWatchedTypeTables m₁))
  | _ => True

/-- `m` differs from `m₀` only where the texts behind the fingerprints show it. -/
structure ToldFrom (tornDown : List String) (m₀ m : Manager X) : Prop where
  rules : ∀ rule₀ ∈ m₀.snapshotWatchRules, ∀ rule ∈ m.snapshotWatchRules,
    watchRuleFingerprint cfg rule₀ = watchRuleFingerprint cfg rule → LikeRule rule₀ rule
  clusterRules : ∀ rule₀ ∈ m₀.snapshotClusterWatchRules, ∀ rule ∈ m.snapshotClusterWatchRules,
    clusterWatchRuleFingerprint cfg rule₀ = clusterWatchRuleFingerprint cfg rule →
      LikeClusterRule rule₀ rule
  /-- No revision has wrapped. -/
  room : ∀ id ∈ activeClusterIDs m, (m.clusters id).registry.changes < 2 ^ 64
  /-- A cluster that came back is not at the old revision with other types. -/
  clusters : ∀ id ∈ tornDown, id ∈ activeClusterIDs m →
    (m₀.clusters id).registry.revision = (m.clusters id).registry.revision →
      (m₀.clusters id).registry.live = (m.clusters id).registry.live

/-- Names are plain and no text of a rule holds the separator, and a refresh finds the rules and
clusters told from those of the last projection. -/
def HistoryTold (h : TableHistory X) : HistoryInput → Prop
  | .remember t id => Plain t.key ∧ Plain id
  | .refreshTables now =>
    let m₁ := readyRegistries now h.manager
    NulFree cfg m₁ ∧ ∀ m₀ ∈ h.projectedIn, ToldFrom cfg h.tornDown m₀ m₁
  | _ => True

/-! ## 3. What a step keeps -/

/-- What the last projection left behind. -/
structure LeftBy (m₀ : Manager X) (h : TableHistory X) : Prop where
  resolved : h.manager.resolved = some (fingerprints cfg m₀)
  tables : h.manager.tables = resolveWatchedTypeTables m₀
  plain : PlainNames m₀
  nulFree : NulFree cfg m₀
  precedes : ∀ id, id ∉ h.tornDown → Precedes (m₀.clusters id).registry (h.manager.clusters id).registry

structure Recorded (h : TableHistory X) : Prop where
  published : ∀ id, Published (h.manager.clusters id)
  plain : PlainNames h.manager
  unresolved : h.projectedIn = none → h.manager.resolved = none
  projected : ∀ m₀ ∈ h.projectedIn, LeftBy cfg m₀ h

theorem recorded_new : Recorded cfg (newTableHistory : TableHistory X) where
  published := fun _ => published_new
  plain := fun _ _ hlook => nomatch hlook
  unresolved := fun _ => rfl
  projected := fun _ hm₀ => nomatch hm₀

theorem sameTables_of_sameInputs {m₀ m : Manager X} (h : SameInputs m₀ m) :
    SameTables (resolveWatchedTypeTables m₀) (resolveWatchedTypeTables m) := by
  intro key
  rcases lookup_resolve m₀ key with ⟨hnone₀, hno₀⟩ | ⟨dest₀, hdest₀, hrule₀, hsome₀⟩
  · rcases lookup_resolve m key with ⟨hnone, -⟩ | ⟨dest, -, hrule, -⟩
    · rw [hnone₀, hnone]
      exact .none
    · exact absurd ((h.hasRule_iff key).mpr hrule) hno₀
  · rcases lookup_resolve m key with ⟨-, hno⟩ | ⟨dest, hdest, -, hsome⟩
    · exact absurd ((h.hasRule_iff key).mp hrule₀) hno
    · rw [hsome₀, hsome]
      exact .some ⟨hdest₀.trans hdest.symm, targetWatchSpecs_congr dest₀ dest (h.selects_iff key)⟩

theorem watches_build_iff {dest : ResourceReference} {sels : List WatchSelection}
    {gvr : GroupVersionResource} {gvk : GroupVersionKind} :
    Watches (buildWatchedTypeTable dest sels) gvr gvk ↔
      ∃ wt, (typesByGVR sels).lookup gvr = some wt ∧ wt.gvk = gvk := by
  simp only [Watches, buildWatchedTypeTable, List.mem_insertionSort, List.mem_map]
  constructor
  · rintro ⟨wt, ⟨⟨gvr', _⟩, he, rfl⟩, rfl, rfl⟩
    have hlookup := mem_entries_iff.mp he
    exact ⟨_, (typesByGVR_gvr hlookup).symm ▸ hlookup, rfl⟩
  · rintro ⟨wt, hlookup, rfl⟩
    exact ⟨wt, ⟨⟨gvr, wt⟩, mem_entries_iff.mpr hlookup, rfl⟩, typesByGVR_gvr hlookup, rfl⟩

/-- The same selections of records that give a resource one kind watch it as that kind. -/
theorem watches_of_selects {dest dest' : ResourceReference} {sels sels' : List WatchSelection}
    (hselects : ∀ key op, Selects sels key op → Selects sels' key op)
    (hone : ∀ s ∈ sels, ∀ s' ∈ sels', s.record.identity.gvr = s'.record.identity.gvr →
      s.record.identity.gvk = s'.record.identity.gvk)
    {gvr : GroupVersionResource} {gvk : GroupVersionKind}
    (h : Watches (buildWatchedTypeTable dest sels) gvr gvk) :
    Watches (buildWatchedTypeTable dest' sels') gvr gvk := by
  obtain ⟨wt, hlookup, rfl⟩ := watches_build_iff.mp h
  obtain ⟨-, sel, hselect, hgvr, hgvk⟩ := typesByGVR_first hlookup
  obtain ⟨op, hop⟩ := add_nonempty sel.ops
  have hstream := hselects sel.key op ⟨sel, hselect, rfl, hop⟩
  rcases opsAt_spec sels' sel.key with ⟨-, hnone⟩ | ⟨ops, hops, -, -⟩
  · exact absurd hstream (hnone op)
  · obtain ⟨wt', hlookup', -⟩ := Option.bind_eq_some_iff.mp hops
    obtain ⟨-, sel', hselect', hgvr', hgvk'⟩ := typesByGVR_first hlookup'
    refine watches_build_iff.mpr ⟨wt', hgvr ▸ hlookup', ?_⟩
    rw [← hgvk', ← hgvk]
    exact (hone sel hselect sel' hselect' hgvr'.symm).symm

theorem sameKinds_of_sameInputs {m₀ m : Manager X} (h : SameInputs m₀ m) (hone : OneKind m) :
    SameKinds (resolveWatchedTypeTables m₀) (resolveWatchedTypeTables m) := by
  intro key x y hx hy gvr gvk
  -- the identity of a record of the one projection is that of a record of the other
  have hkinds : ∀ s ∈ projectedSelections m₀ key, ∀ s' ∈ projectedSelections m key,
      s.record.identity.gvr = s'.record.identity.gvr →
        s.record.identity.gvk = s'.record.identity.gvk := by
    intro s hs s' hs' hgvr
    obtain ⟨rec, hrec, hsame, -⟩ := (h.records key s.record.identity s.record.preferred).mp
      ⟨s.record, projectedSelections_record hs, rfl, rfl⟩
    rw [← hsame] at hgvr ⊢
    exact hone _ (clusterID_active m key) rec hrec s'.record (projectedSelections_record hs') hgvr
  rcases lookup_resolve m₀ key with ⟨hnone, -⟩ | ⟨dest₀, -, -, hsome₀⟩
  · rw [hnone] at hx
    cases hx
  · rcases lookup_resolve m key with ⟨hnone, -⟩ | ⟨dest, -, -, hsome⟩
    · rw [hnone] at hy
      cases hy
    · obtain rfl := Option.some.inj (hsome₀.symm.trans hx)
      obtain rfl := Option.some.inj (hsome.symm.trans hy)
      exact ⟨watches_of_selects (fun k op => (h.selects_iff key k op).mp) hkinds,
        watches_of_selects (fun k op => (h.selects_iff key k op).mpr)
          (fun s hs s' hs' hgvr => (hkinds s' hs' s hs hgvr.symm).symm)⟩

variable {h : TableHistory X}

theorem Recorded.refreshed (hrec : Recorded cfg h) {m : Manager X} (hr : Refreshed h.manager m) :
    Recorded cfg { h with manager := m } where
  published id := (hr.clusters id (hrec.published id)).1
  plain := by
    rw [PlainNames, hr.gitTargetClusters]
    exact hrec.plain
  unresolved hnone := hr.resolved.trans (hrec.unresolved hnone)
  projected m₀ hm₀ := by
    have hleft := hrec.projected m₀ hm₀
    refine ⟨hr.resolved.trans hleft.resolved, hr.tables.trans hleft.tables, hleft.plain,
      hleft.nulFree, fun id hid => ?_⟩
    exact (hleft.precedes id hid).trans (hr.clusters id (hrec.published id)).2

theorem Recorded.remembered (hrec : Recorded cfg h) {t : ResourceReference} {id : String}
    (ht : Plain t.key) (hid : Plain id) :
    Recorded cfg { h with manager := rememberGitTargetCluster t id h.manager } where
  published := hrec.published
  plain := by
    intro key id' hlook
    change (h.manager.gitTargetClusters.insert t.key id).lookup key = some id' at hlook
    by_cases hkey : key = t.key
    · subst hkey
      rw [AList.lookup_insert] at hlook
      cases hlook
      exact ⟨ht, hid⟩
    · rw [AList.lookup_insert_ne hkey] at hlook
      exact hrec.plain key id' hlook
  unresolved := hrec.unresolved
  projected := fun m₀ hm₀ => by
    have hleft := hrec.projected m₀ hm₀
    exact ⟨hleft.resolved, hleft.tables, hleft.plain, hleft.nulFree, hleft.precedes⟩

theorem forgetGitTargetCluster_clusters (key : String) (m : Manager X) (id : String) :
    (forgetGitTargetCluster key m).clusters id = m.clusters id ∨ tornDownBy key m = some id ∧
        (forgetGitTargetCluster key m).clusters id = newClusterContext := by
  unfold forgetGitTargetCluster tornDownBy teardownCluster
  cases hlook : m.gitTargetClusters.lookup key with
  | none => exact .inl rfl
  | some last =>
    simp only
    split
    · exact .inl rfl
    · rename_i hlast
      split
      · exact .inl rfl
      · rename_i hremember
        by_cases hid : id = last
        · subst hid
          refine .inr ⟨?_, Function.update_self _ _ _⟩
          simp [Option.filter, hremember, hlast]
        · exact .inl (Function.update_of_ne hid _ _)

theorem forgetGitTargetCluster_resolved (key : String) (m : Manager X) :
    (forgetGitTargetCluster key m).resolved = m.resolved := by
  unfold forgetGitTargetCluster teardownCluster
  split
  · rfl
  · simp only
    split
    · rfl
    · split <;> rfl

theorem Recorded.forgotten [DecidableEq X] (hrec : Recorded cfg h) (key : String) :
    Recorded cfg (historyStep cfg h (.forget key)) := by
  obtain ⟨-, htables, hmap⟩ := forgetGitTargetCluster_frame key h.manager
  have hres := forgetGitTargetCluster_resolved key h.manager
  refine ⟨fun id => ?_, fun q id hlook => ?_, fun hnone => ?_, fun m₀ hm₀ => ?_⟩
  · rcases forgetGitTargetCluster_clusters key h.manager id with hsame | ⟨-, hnew⟩
    · exact hsame ▸ hrec.published id
    · exact hnew ▸ published_new
  · change (forgetGitTargetCluster key h.manager).gitTargetClusters.lookup q = some id at hlook
    rw [hmap, lookup_erase_ite] at hlook
    split at hlook
    · cases hlook
    · exact hrec.plain q id hlook
  · exact hres.trans (hrec.unresolved hnone)
  · have hleft := hrec.projected m₀ hm₀
    refine ⟨hres.trans hleft.resolved, htables.trans hleft.tables, hleft.plain, hleft.nulFree,
      fun id hid => ?_⟩
    obtain ⟨htorn, hbefore⟩ := not_or.mp (fun hmem => hid (List.mem_append.mpr hmem))
    rcases forgetGitTargetCluster_clusters key h.manager id with hsame | ⟨hgone, -⟩
    · change Precedes _ ((forgetGitTargetCluster key h.manager).clusters id).registry
      rw [hsame]
      exact hleft.precedes id hbefore
    · exact absurd (by simp [hgone]) htorn

theorem texts_eq_of_fingerprints (hhash : Function.Injective cfg.sum64) {m₀ m : Manager X}
    (heq : fingerprints cfg m₀ = fingerprints cfg m) :
    fingerprintTexts cfg m₀ = fingerprintTexts cfg m := by
  obtain ⟨hregister, hrule, hcluster⟩ := Fingerprints.mk.inj heq
  exact Fingerprints.mk.injEq .. ▸ ⟨hhash hregister, hhash hrule, hhash hcluster⟩

/-- A refresh that finds the fingerprints unchanged finds the tables current. -/
theorem Recorded.leavesCurrent (hrec : Recorded cfg h) (hhash : Function.Injective cfg.sum64)
    {m : Manager X} (hr : Refreshed h.manager m) (hnul : NulFree cfg m)
    (htold : ∀ m₀ ∈ h.projectedIn, ToldFrom cfg h.tornDown m₀ m) (hdate : UpToDate cfg m) :
    SameTables m.tables (resolveWatchedTypeTables m) ∧
      (OneKind m → SameKinds m.tables (resolveWatchedTypeTables m)) := by
  have hrec' := hrec.refreshed cfg hr
  cases hproject : h.projectedIn with
  | none =>
    have hnone := hrec'.unresolved hproject
    change m.resolved = none at hnone
    rw [UpToDate, hnone] at hdate
    cases hdate
  | some m₀ =>
    have hleft := hrec'.projected m₀ hproject
    have htold₀ := htold m₀ hproject
    have htext := texts_eq_of_fingerprints cfg hhash (Option.some.inj (hleft.resolved.symm.trans hdate))
    have htables : m.tables = resolveWatchedTypeTables m₀ := hleft.tables
    rw [htables]
    have hsame : SameInputs m₀ m := by
      refine sameInputs_of_texts cfg htext hleft.plain hrec'.plain hleft.nulFree hnul htold₀.rules
        htold₀.clusterRules (fun id hid hrev => ?_)
      by_cases htorn : id ∈ h.tornDown
      · exact htold₀.clusters id htorn hid hrev
      · exact (hleft.precedes id htorn).live_of_revision (htold₀.room id hid) hrev
    exact ⟨sameTables_of_sameInputs hsame, sameKinds_of_sameInputs hsame⟩

theorem Recorded.refreshedTables [DecidableEq X] (hrec : Recorded cfg h) {now : Int}
    (hnul : NulFree cfg (readyRegistries now h.manager)) :
    Recorded cfg (historyStep cfg h (.refreshTables now)) := by
  have hrec' := hrec.refreshed cfg (refreshed_readyRegistries now h.manager)
  simp only [historyStep, refreshWatchedTypeTables, UpToDate]
  split
  · exact hrec'
  · refine ⟨hrec'.published, hrec'.plain, fun hnone => (nomatch hnone), ?_⟩
    rintro m₀ ⟨⟩
    exact ⟨rfl, rfl, hrec'.plain, hnul, fun id _ => Precedes.refl _⟩

theorem Recorded.step [DecidableEq X] (hrec : Recorded cfg h) {input : HistoryInput}
    (htold : HistoryTold cfg h input) : Recorded cfg (historyStep cfg h input) := by
  cases input with
  | edit e =>
    obtain ⟨rules, clusterRules, heq⟩ := e.apply_eq h.manager
    simp only [historyStep, heq]
    exact ⟨hrec.published, hrec.plain, hrec.unresolved, fun m₀ hm₀ =>
      have hleft := hrec.projected m₀ hm₀
      ⟨hleft.resolved, hleft.tables, hleft.plain, hleft.nulFree, hleft.precedes⟩⟩
  | remember t id => exact hrec.remembered cfg htold.1 htold.2
  | forget key => exact hrec.forgotten cfg key
  | refreshCluster now id a => exact hrec.refreshed cfg (refreshed_refreshCluster now id a h.manager)
  | republish now id =>
    exact hrec.refreshed cfg (refreshed_setCluster h.manager id _ (fun hcc => hcc.republished now))
  | refreshTables now => exact hrec.refreshedTables cfg htold.1

/-! ## 4. Every history -/

/-- With a hash without collisions: in every history in which names are plain and rules and
re-created clusters are told from those of the last projection, a refresh that leaves the tables
alone leaves those that the current rules, mapping and registries project to. -/
theorem unchanged_tables_are_current [DecidableEq X] (hhash : Function.Injective cfg.sum64)
    (inputs : List HistoryInput)
    (htold : AllSteps (historyStep cfg) (HistoryTold cfg) newTableHistory inputs) :
    AllSteps (historyStep cfg) (LeavesCurrent cfg) newTableHistory inputs := by
  refine htold.mono (P := Recorded cfg) (fun h input hinput hrec => hrec.step cfg hinput)
    (fun h input hinput hrec => ?_) (recorded_new cfg)
  cases input with
  | refreshTables now =>
    intro hdate
    exact hrec.leavesCurrent cfg hhash (refreshed_readyRegistries now h.manager) hinput.1 hinput.2 hdate
  | _ => trivial

def projectedHistory (rule : CompiledRule) : List HistoryInput :=
  [.edit (.setRule teamRule rule), .remember mirrorTarget "remote",
    .refreshCluster 0 "remote" (discovers (.ok twoTypes)), .refreshTables 0]

def historyOf (inputs : List HistoryInput) : TableHistory String :=
  inputs.foldl (historyStep plainConfig) newTableHistory

/-- What the next refresh compares: the streams of the resident table of the target, and those of
the table it would project. -/
def residentKeys (h : TableHistory String) : Option (List TargetWatchKey) :=
  ((readyRegistries 1 h.manager).tables.lookup mirrorTarget.key).map
    (fun table => (targetWatchSpecs table).keys)

def projectedKeys (h : TableHistory String) : Option (List TargetWatchKey) :=
  ((resolveWatchedTypeTables (readyRegistries 1 h.manager)).lookup mirrorTarget.key).map
    (fun table => (targetWatchSpecs table).keys)

def appsHistory : List HistoryInput := projectedHistory (selecting ["apps"] ["deployments"])

theorem repeated_refresh_is_current :
    let m := readyRegistries 1 (historyOf appsHistory).manager
    UpToDate plainConfig m ∧ SameTables m.tables (resolveWatchedTypeTables m) ∧
      SameKinds m.tables (resolveWatchedTypeTables m) := by
  have htold : AllSteps (historyStep plainConfig) (HistoryTold plainConfig) newTableHistory
      (appsHistory ++ [.refreshTables 1]) := by
    refine ⟨trivial, ⟨by decide, by decide⟩, trivial, ⟨by decide +kernel, fun _ h => nomatch h⟩,
      ⟨by decide +kernel, ?_⟩, trivial⟩
    rintro m₀ ⟨⟩
    exact ⟨by decide +kernel, by decide +kernel, by decide +kernel, fun id hid => nomatch hid⟩
  have hcurrent := unchanged_tables_are_current plainConfig (fun _ _ h => h) _ htold
  have hdate : UpToDate plainConfig (readyRegistries 1 (historyOf appsHistory).manager) := by
    decide +kernel
  obtain ⟨htables, hkinds⟩ := hcurrent.2.2.2.2.1 hdate
  exact ⟨hdate, htables, hkinds (by decide +kernel)⟩

def regroupedHistory : List HistoryInput :=
  projectedHistory (selecting [] ["deployments"]) ++
    [.edit (.setRule teamRule (selecting [""] ["deployments"]))]

/-- The target is forgotten and declared again, and its cluster meanwhile serves nothing that the
rule selects. -/
def recreatedHistory : List HistoryInput :=
  appsHistory ++ [.forget mirrorTarget.key, .remember mirrorTarget "remote", .refreshCluster 1 "remote"
        (discovers (.ok ⟨[served "" "ConfigMap" "configmaps"], [⟨"", "v1"⟩], [], true⟩))]

/-- In both histories the refresh leaves a table with a stream that it would not project. -/
theorem unchanged_tables_can_be_stale :
    (UpToDate plainConfig (readyRegistries 1 (historyOf regroupedHistory).manager) ∧
        residentKeys (historyOf regroupedHistory) = some [deploymentStream] ∧
        projectedKeys (historyOf regroupedHistory) = some []) ∧
      UpToDate plainConfig (readyRegistries 1 (historyOf recreatedHistory).manager) ∧
        residentKeys (historyOf recreatedHistory) = some [deploymentStream] ∧
        projectedKeys (historyOf recreatedHistory) = some [] := by
  decide +kernel

end GitopsReverser.Watch
