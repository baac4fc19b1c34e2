import GitopsReverser.Git.GateSoundness
import GitopsReverser.Watch.RuleFollowing

/-!
# Declarations — declaring and forgetting a GitTarget against the refresh loop

The controller declares and forgets targets one call at a time for each target. The refresh loop
runs next to it: it notes which targets run, releases the lock and then replaces their watch sets
one by one. Every input below is one critical section.
-/

namespace GitopsReverser.Watch

open Reasoning Git

variable {X : Type}

/-! ## 1. Forgetting a target -/

def teardownCluster (id : String) (m : Manager X) : Manager X :=
  if id = configPlaneClusterID then m else setCluster id newClusterContext m

def forgetGitTargetCluster (key : String) (m : Manager X) : Manager X :=
  match m.gitTargetClusters.lookup key with
  | none => m
  | some id =>
    let clusters := m.gitTargetClusters.erase key
    let m₁ := { m with gitTargetClusters := clusters }
    if clusters.entries.any (fun e => decide (e.2 = id)) then m₁ else teardownCluster id m₁

theorem forgetGitTargetCluster_frame (key : String) (m : Manager X) :
    (forgetGitTargetCluster key m).targetWatches = m.targetWatches ∧
      (forgetGitTargetCluster key m).tables = m.tables ∧
      (forgetGitTargetCluster key m).gitTargetClusters = m.gitTargetClusters.erase key := by
  unfold forgetGitTargetCluster
  cases hlook : m.gitTargetClusters.lookup key with
  | none =>
    refine ⟨rfl, rfl, ?_⟩
    exact (AList.ext (List.kerase_of_notMem_keys (AList.lookup_eq_none.mp hlook))).symm
  | some id =>
    simp only
    split
    · exact ⟨rfl, rfl, rfl⟩
    · unfold teardownCluster
      split
      · exact ⟨rfl, rfl, rfl⟩
      · exact ⟨rfl, rfl, rfl⟩

/-- An edit of the compiled rules. -/
inductive RuleEdit where
  | setRule (source : ResourceReference) (rule : CompiledRule)
  | deleteRule (source : ResourceReference)
  | setClusterRule (source : String) (rule : CompiledClusterRule)
  | deleteClusterRule (source : String)

def RuleEdit.apply (m : Manager X) : RuleEdit → Manager X
  | .setRule source rule => { m with rules := m.rules.insert source rule }
  | .deleteRule source => { m with rules := m.rules.erase source }
  | .setClusterRule source rule => { m with clusterRules := m.clusterRules.insert source rule }
  | .deleteClusterRule source => { m with clusterRules := m.clusterRules.erase source }

theorem RuleEdit.apply_eq (m : Manager X) (e : RuleEdit) : ∃ rules clusterRules,
    e.apply m = { m with rules := rules, clusterRules := clusterRules } := by
  cases e <;> exact ⟨_, _, rfl⟩

/-! ## 2. Calls in flight -/

inductive CallKind where
  | declare
  | forget
  deriving DecidableEq

/-- How far a controller call has come. -/
inductive ControllerCall where
  | declaring
  | installing (table : WatchedTypeTable)
  | forgetting

def ControllerCall.kind : ControllerCall → CallKind
  | .declaring | .installing _ => .declare
  | .forgetting => .forget

/-- How far `refreshRunningTargetWatches` has come. -/
inductive RefreshCall where
  | snapshot (running : List String)
  | replacing (tables : List WatchedTypeTable)

def RefreshCall.over : RefreshCall → Bool
  | .replacing [] => true
  | _ => false

/-- The manager and the gate under the calls in flight; `lastCall` is the kind of the last
controller call for a target, which the source does not keep. -/
structure Declarations (X : Type) where
  manager : Manager X
  gate : RenderFidelityGate
  calls : String → Option ControllerCall
  refreshes : List RefreshCall
  lastCall : String → Option CallKind

def newDeclarations : Declarations X :=
  ⟨initialManager, fun _ => none, fun _ => none, [], fun _ => none⟩

inductive DeclarationInput where
  | edit (e : RuleEdit)
  | refreshCluster (now : Int) (id : String) (a : ClusterAnswer)
  | refreshTables (now : Int)
  | declareBegin (t : ResourceReference) (id : String)
  | declareRead (t : ResourceReference)
  | declareInstall (t : ResourceReference) (force : Bool)
  | declareAbort (t : ResourceReference)
  | forgetWatches (t : ResourceReference)
  | forgetCluster (t : ResourceReference)
  | refreshBegin
  | refreshRead (index : Nat)
  | refreshReplace (index : Nat)

namespace Declarations

variable (d : Declarations X)

/-- `replaceGitTargetWatches` with the render fidelity epoch it begins. -/
def replace (force : Bool) (table : WatchedTypeTable) : Declarations X :=
  let specs := targetWatchSpecs table
  if alreadyRuns (d.manager.targetWatches.lookup table.gitDest.key) specs force then d
  else
    { d with
      manager := replaceGitTargetWatches force d.manager table
      gate := (d.gate.begin table.gitDest (sortedTargetWatchSpecKeys specs)).1 }

/-- One cluster's part of a catalog refresh; watches it invalidates lose their gate as well. -/
def refreshCluster (now : Int) (id : String) (a : ClusterAnswer) : Declarations X :=
  let drops := a.invalidated && !isLocal id (d.manager.clusters id)
  { d with
    manager := (Watch.refreshCluster now id a d.manager).1
    gate := fun key =>
      if drops ∧ d.manager.gitTargetClusters.lookup key = some id then none else d.gate key }

/-- `DeclareForGitTarget` up to `EnsureGitTargetWatches`. -/
def declareBegin (t : ResourceReference) (id : String) : Declarations X :=
  match d.calls t.key with
  | some _ => d
  | none =>
    { d with
      manager := rememberGitTargetCluster t id d.manager
      calls := Function.update d.calls t.key (some .declaring)
      lastCall := Function.update d.lastCall t.key (some .declare) }

/-- `EnsureGitTargetWatches` reads the resident table, after its refreshes. -/
def declareRead (t : ResourceReference) : Declarations X :=
  match d.calls t.key with
  | some .declaring =>
    { d with calls := Function.update d.calls t.key
              (some (.installing (residentWatchedTypeTable d.manager t.key))) }
  | _ => d

def declareInstall (t : ResourceReference) (force : Bool) : Declarations X :=
  match d.calls t.key with
  | some (.installing table) =>
    { d.replace force table with calls := Function.update d.calls t.key none }
  | _ => d

/-- `EnsureGitTargetWatches` returns an error before it replaces anything. -/
def declareAbort (t : ResourceReference) : Declarations X :=
  match d.calls t.key with
  | some .declaring | some (.installing _) =>
    { d with calls := Function.update d.calls t.key none }
  | _ => d

/-- `ForgetGitTargetDeclaration` begins with `forgetGitTargetWatches`. -/
def forgetWatches (t : ResourceReference) : Declarations X :=
  match d.calls t.key with
  | some _ => d
  | none =>
    { d with
      manager := { d.manager with targetWatches := d.manager.targetWatches.erase t.key }
      gate := d.gate.forget t
      calls := Function.update d.calls t.key (some .forgetting)
      lastCall := Function.update d.lastCall t.key (some .forget) }

def forgetCluster (t : ResourceReference) : Declarations X :=
  match d.calls t.key with
  | some .forgetting =>
    { d with
      manager := forgetGitTargetCluster t.key d.manager
      calls := Function.update d.calls t.key none }
  | _ => d

/-- `refreshRunningTargetWatches` notes the targets that run. -/
def refreshBegin : Declarations X :=
  { d with refreshes := d.refreshes ++ [.snapshot d.manager.targetWatches.keys] }

def refreshRead (index : Nat) : Declarations X :=
  match d.refreshes[index]? with
  | some (.snapshot running) =>
    { d with refreshes := d.refreshes.set index (.replacing
        ((residentWatchedTypeTables d.manager).filter
          (fun table => decide (table.gitDest.key ∈ running)))) }
  | _ => d

def refreshReplace (index : Nat) : Declarations X :=
  match d.refreshes[index]? with
  | some (.replacing (table :: tables)) =>
    { d.replace false table with refreshes := d.refreshes.set index (.replacing tables) }
  | _ => d

def step [DecidableEq X] (cfg : ManagerConfig X) (d : Declarations X) :
    DeclarationInput → Declarations X
  | .edit e => { d with manager := e.apply d.manager }
  | .refreshCluster now id a => d.refreshCluster now id a
  | .refreshTables now => { d with manager := refreshWatchedTypeTables cfg now d.manager }
  | .declareBegin t id => d.declareBegin t id
  | .declareRead t => d.declareRead t
  | .declareInstall t force => d.declareInstall t force
  | .declareAbort t => d.declareAbort t
  | .forgetWatches t => d.forgetWatches t
  | .forgetCluster t => d.forgetCluster t
  | .refreshBegin => d.refreshBegin
  | .refreshRead index => d.refreshRead index
  | .refreshReplace index => d.refreshReplace index

end Declarations

/-! ## 3. What is stopped stays stopped -/

/-- The key of the zero table, which a declared target without rules reads. No GitTarget has it. -/
def zeroKey : String := ResourceReference.key ⟨"", ""⟩

namespace Declarations

/-- A target whose last controller call is a forget runs nothing and has no gate epoch, and once
the call is over it has no cluster either. -/
def StayStopped (d : Declarations X) : Prop :=
  ∀ key, key ≠ zeroKey → d.lastCall key = some .forget →
    d.manager.targetWatches.lookup key = none ∧ d.gate key = none ∧
      (d.calls key = none → d.manager.gitTargetClusters.lookup key = none)

/-- A refresh does not get to replace the watch set of a target that was forgotten meanwhile. -/
def ReplacesDeclared (d : Declarations X) : DeclarationInput → Prop
  | .refreshReplace index =>
    match d.refreshes[index]? with
    | some (.replacing (table :: _)) =>
      table.gitDest.key = zeroKey ∨ d.lastCall table.gitDest.key ≠ some .forget
    | _ => True
  | _ => True

/-- The tables are filed under their own targets, and calls in flight are the last calls. -/
structure Orderly (d : Declarations X) : Prop where
  stopped : d.StayStopped
  calls : ∀ key call, d.calls key = some call → d.lastCall key = some call.kind
  installing : ∀ key table, d.calls key = some (.installing table) →
    table.gitDest.key = key ∨ table.gitDest.key = zeroKey
  tables : ∀ key table, d.manager.tables.lookup key = some table → table.gitDest.key = key

theorem orderly_new : Orderly (newDeclarations : Declarations X) where
  stopped := fun _ _ h => nomatch h
  calls := fun _ _ h => nomatch h
  installing := fun _ _ h => nomatch h
  tables := fun _ _ h => nomatch h

variable {d : Declarations X}

variable {d' : Declarations X} {table : WatchedTypeTable}

theorem Orderly.quiet (h : d.Orderly) (hcall : d'.calls = d.calls) (hlast : d'.lastCall = d.lastCall)
    (htable : ∀ key table, d'.manager.tables.lookup key = some table → table.gitDest.key = key)
    (hmap : ∀ key, d.manager.gitTargetClusters.lookup key = none →
      d'.manager.gitTargetClusters.lookup key = none)
    (hwatch : ∀ key, d.manager.targetWatches.lookup key = none →
      d'.manager.targetWatches.lookup key = none)
    (hgate : ∀ key, d.gate key = none → d'.gate key = none) : d'.Orderly := by
  refine ⟨fun key hkey hforget => ?_, ?_, ?_, htable⟩
  · rw [hlast] at hforget
    obtain ⟨hrun, hepoch, hmapped⟩ := h.stopped key hkey hforget
    rw [hcall]
    exact ⟨hwatch key hrun, hgate key hepoch, fun hnone => hmap key (hmapped hnone)⟩
  · rw [hcall, hlast]
    exact h.calls
  · rw [hcall]
    exact h.installing

theorem Orderly.unmoved (h : d.Orderly) (hcall : d'.calls = d.calls)
    (hlast : d'.lastCall = d.lastCall) (htables : d'.manager.tables = d.manager.tables)
    (hmap : d'.manager.gitTargetClusters = d.manager.gitTargetClusters)
    (hwatch : d'.manager.targetWatches = d.manager.targetWatches) (hgate : d'.gate = d.gate) :
    d'.Orderly := by
  refine h.quiet hcall hlast ?_ ?_ ?_ ?_
  · rw [htables]
    exact h.tables
  · rw [hmap]
    exact fun _ hnone => hnone
  · rw [hwatch]
    exact fun _ hnone => hnone
  · rw [hgate]
    exact fun _ hnone => hnone

theorem replace_frame [DecidableEq X] (d : Declarations X) (force : Bool)
    (table : WatchedTypeTable) :
    (d.replace force table).calls = d.calls ∧ (d.replace force table).lastCall = d.lastCall ∧
      (d.replace force table).manager.gitTargetClusters = d.manager.gitTargetClusters ∧
      (d.replace force table).manager.tables = d.manager.tables ∧
      ∀ key, key ≠ table.gitDest.key → (d.replace force table).manager.targetWatches.lookup key =
            d.manager.targetWatches.lookup key ∧
          (d.replace force table).gate key = d.gate key := by
  unfold replace
  simp only
  split
  · exact ⟨rfl, rfl, rfl, rfl, fun _ _ => ⟨rfl, rfl⟩⟩
  · obtain ⟨watches, heq⟩ := replaceGitTargetWatches_eq force d.manager table
    refine ⟨rfl, rfl, by simp only [heq], by simp only [heq], fun key hkey => ⟨?_, ?_⟩⟩
    · exact replaceGitTargetWatches_of_ne force d.manager table hkey
    · exact Function.update_of_ne hkey _ _

theorem replace_starts {force : Bool}
    (hnone : d.manager.targetWatches.lookup table.gitDest.key = none) :
    (d.replace force table).manager.targetWatches.lookup table.gitDest.key ≠ none := by
  unfold replace replaceGitTargetWatches
  simp [hnone, alreadyRuns]

section

variable (h : d.Orderly)

include h

theorem Orderly.replace [DecidableEq X] (force : Bool)
    (hdeclared : table.gitDest.key = zeroKey ∨ d.lastCall table.gitDest.key ≠ some .forget) :
    (d.replace force table).Orderly := by
  obtain ⟨hcall, hlast, hmap, htable, hframe⟩ := replace_frame d force table
  refine ⟨fun key hkey hforget => ?_, ?_, ?_, ?_⟩
  · rw [hlast] at hforget
    have hne : key ≠ table.gitDest.key := by
      rintro rfl
      exact hdeclared.elim hkey (fun hnot => hnot hforget)
    obtain ⟨hwatch, hgate⟩ := hframe key hne
    rw [hwatch, hgate, hcall, hmap]
    exact h.stopped key hkey hforget
  · rw [hcall, hlast]
    exact h.calls
  · rw [hcall]
    exact h.installing
  · rw [htable]
    exact h.tables

theorem Orderly.progress {key : String} {call : ControllerCall}
    (hcall : d.calls key = some call) {next : Option ControllerCall}
    (hkind : ∀ call' ∈ next, call'.kind = call.kind)
    (htable : ∀ table, next = some (.installing table) →
      table.gitDest.key = key ∨ table.gitDest.key = zeroKey)
    (hover : next = none → call.kind = .forget → d.manager.gitTargetClusters.lookup key = none) :
    Orderly { d with calls := Function.update d.calls key next } := by
  have hlast := h.calls key call hcall
  refine ⟨fun q hq hforget => ?_, fun q call' hcall' => ?_, fun q table hq => ?_, h.tables⟩
  · obtain ⟨hrun, hepoch, hmap⟩ := h.stopped q hq hforget
    refine ⟨hrun, hepoch, fun hnone => ?_⟩
    by_cases hkey : q = key
    · subst hkey
      change Function.update d.calls q next q = none at hnone
      rw [Function.update_self] at hnone
      change d.lastCall q = some .forget at hforget
      exact hover hnone (Option.some.inj (hlast.symm.trans hforget))
    · change Function.update d.calls key next q = none at hnone
      rw [Function.update_of_ne hkey] at hnone
      exact hmap hnone
  · change Function.update d.calls key next q = some call' at hcall'
    by_cases hkey : q = key
    · subst hkey
      rw [Function.update_self] at hcall'
      exact hlast.trans (congrArg some (hkind call' hcall').symm)
    · rw [Function.update_of_ne hkey] at hcall'
      exact h.calls q call' hcall'
  · change Function.update d.calls key next q = some (.installing table) at hq
    by_cases hkey : q = key
    · subst hkey
      rw [Function.update_self] at hq
      exact htable table hq
    · rw [Function.update_of_ne hkey] at hq
      exact h.installing q table hq

theorem Orderly.refreshCluster [DecidableEq X] (now : Int) (id : String) (a : ClusterAnswer) :
    (d.refreshCluster now id a).Orderly := by
  have hr := refreshed_refreshCluster now id a d.manager
  refine h.quiet rfl rfl ?_ (fun key hnone => ?_) (fun key hnone => ?_) (fun key hnone => ?_)
  · change ∀ key table, (Watch.refreshCluster now id a d.manager).1.tables.lookup key = some table →
      table.gitDest.key = key
    rw [hr.tables]
    exact h.tables
  · exact (congrArg (AList.lookup key) hr.gitTargetClusters).trans hnone
  · cases hset : (d.refreshCluster now id a).manager.targetWatches.lookup key with
    | none => rfl
    | some set =>
      have hbefore := hr.targetWatches key set hset
      rw [hnone] at hbefore
      cases hbefore
  · change (if _ then none else d.gate key) = none
    rw [hnone, ite_self]

theorem Orderly.begun {key : String} {call : ControllerCall}
    (hcalls : d'.calls = Function.update d.calls key (some call))
    (hlast : d'.lastCall = Function.update d.lastCall key (some call.kind))
    (htables : d'.manager.tables = d.manager.tables) (hother : ∀ q, q ≠ key →
      d'.manager.targetWatches.lookup q = d.manager.targetWatches.lookup q ∧ d'.gate q = d.gate q ∧
        d'.manager.gitTargetClusters.lookup q = d.manager.gitTargetClusters.lookup q)
    (hself : call.kind = .forget → d'.manager.targetWatches.lookup key = none ∧ d'.gate key = none)
    (hread : ∀ table, call ≠ .installing table) : d'.Orderly := by
  refine ⟨fun q hq hforget => ?_, fun q call' hcall' => ?_, fun q table hcall' => ?_, ?_⟩
  · rw [hlast] at hforget
    rw [hcalls]
    by_cases hkey : q = key
    · subst hkey
      rw [Function.update_self] at hforget
      obtain ⟨hrun, hepoch⟩ := hself (Option.some.inj hforget)
      refine ⟨hrun, hepoch, fun hnone => ?_⟩
      rw [Function.update_self] at hnone
      cases hnone
    · rw [Function.update_of_ne hkey] at hforget ⊢
      obtain ⟨hwatch, hgate, hmap⟩ := hother q hkey
      rw [hwatch, hgate, hmap]
      exact h.stopped q hq hforget
  · rw [hcalls] at hcall'
    rw [hlast]
    by_cases hkey : q = key
    · subst hkey
      rw [Function.update_self] at hcall' ⊢
      cases hcall'
      rfl
    · rw [Function.update_of_ne hkey] at hcall' ⊢
      exact h.calls q call' hcall'
  · rw [hcalls] at hcall'
    by_cases hkey : q = key
    · subst hkey
      rw [Function.update_self] at hcall'
      exact absurd (Option.some.inj hcall') (hread table)
    · rw [Function.update_of_ne hkey] at hcall'
      exact h.installing q table hcall'
  · rw [htables]
    exact h.tables

theorem Orderly.declareBegin (t : ResourceReference) (id : String) : (d.declareBegin t id).Orderly := by
  unfold Declarations.declareBegin
  cases hcall : d.calls t.key with
  | some call => exact h
  | none =>
    refine h.begun rfl rfl rfl (fun q hq => ⟨rfl, rfl, ?_⟩) (fun hkind => nomatch hkind)
      (fun _ hread => nomatch hread)
    exact AList.lookup_insert_ne hq

theorem Orderly.forgetWatches (t : ResourceReference) : (d.forgetWatches t).Orderly := by
  unfold Declarations.forgetWatches
  cases hcall : d.calls t.key with
  | some call => exact h
  | none =>
    refine h.begun rfl rfl rfl (fun q hq => ⟨?_, ?_, rfl⟩) (fun _ => ⟨?_, ?_⟩)
      (fun _ hread => nomatch hread)
    · exact AList.lookup_erase_ne hq
    · exact Function.update_of_ne hq _ _
    · exact AList.lookup_erase _ _
    · exact Function.update_self _ _ _

theorem Orderly.resident (key : String) : (residentWatchedTypeTable d.manager key).gitDest.key = key ∨
      (residentWatchedTypeTable d.manager key).gitDest.key = zeroKey := by
  unfold residentWatchedTypeTable
  cases htables : d.manager.tables.lookup key with
  | none => exact .inr rfl
  | some table => exact .inl (h.tables key table htables)

section

variable (t : ResourceReference)

include t

theorem Orderly.declareRead : (d.declareRead t).Orderly := by
  unfold Declarations.declareRead
  split
  · rename_i hcall
    refine h.progress hcall ?_ ?_ (fun hnone => nomatch hnone)
    · rintro _ ⟨⟩
      rfl
    · rintro _ ⟨⟩
      exact h.resident t.key
  · exact h

theorem Orderly.declareInstall [DecidableEq X] (force : Bool) :
    (d.declareInstall t force).Orderly := by
  unfold Declarations.declareInstall
  split
  · rename_i table hcall
    have hlast := h.calls _ _ hcall
    -- the table is the target's own, and the target's last call is this declare
    have hdeclared : table.gitDest.key = zeroKey ∨ d.lastCall table.gitDest.key ≠ some .forget := by
      rcases h.installing _ _ hcall with hown | hzero
      · rw [hown, hlast]
        exact .inr (by simp [ControllerCall.kind])
      · exact .inl hzero
    obtain ⟨hcalls, -⟩ := replace_frame d force table
    have hreplace := h.replace force hdeclared
    rw [← hcalls] at hcall ⊢
    exact hreplace.progress hcall (fun _ hnext => nomatch hnext) (fun _ hnext => nomatch hnext)
      (fun _ hkind => nomatch hkind)
  · exact h

theorem Orderly.declareAbort : (d.declareAbort t).Orderly := by
  unfold Declarations.declareAbort
  split
  · rename_i hcall
    exact h.progress hcall (fun _ hnext => nomatch hnext) (fun _ hnext => nomatch hnext)
      (fun _ hkind => nomatch hkind)
  · rename_i table hcall
    exact h.progress hcall (fun _ hnext => nomatch hnext) (fun _ hnext => nomatch hnext)
      (fun _ hkind => nomatch hkind)
  · exact h

theorem Orderly.forgetCluster : (d.forgetCluster t).Orderly := by
  unfold Declarations.forgetCluster
  split
  · rename_i hcall
    obtain ⟨hwatch, htables, hmap⟩ := forgetGitTargetCluster_frame t.key d.manager
    have hdrop : Orderly { d with manager := forgetGitTargetCluster t.key d.manager } := by
      refine h.quiet rfl rfl ?_ (fun key hnone => ?_) (fun key hnone => ?_) (fun _ hnone => hnone)
      · rw [htables]
        exact h.tables
      · simp only [hmap, lookup_erase_ite, hnone, ite_self]
      · rw [hwatch]
        exact hnone
    refine hdrop.progress hcall (fun _ hnext => nomatch hnext) (fun _ hnext => nomatch hnext) ?_
    intro _ _
    change (forgetGitTargetCluster t.key d.manager).gitTargetClusters.lookup t.key = none
    rw [hmap, AList.lookup_erase]
  · exact h

end

end

theorem resolved_filed (m : Manager X) {key : String}
    (h : (resolveWatchedTypeTables m).lookup key = some table) : table.gitDest.key = key := by
  rcases lookup_resolve m key with ⟨hnone, -⟩ | ⟨dest, hdest, -, hsome⟩
  · rw [hnone] at h
    cases h
  · rw [hsome] at h
    cases h
    exact hdest

variable [DecidableEq X] (cfg : ManagerConfig X)

theorem Orderly.refreshTables (h : d.Orderly) (now : Int) :
    Orderly { d with manager := refreshWatchedTypeTables cfg now d.manager } := by
  unfold refreshWatchedTypeTables
  simp only
  split
  · exact h.unmoved rfl rfl rfl rfl rfl rfl
  · exact h.quiet rfl rfl (fun key table => resolved_filed _) (fun _ hnone => hnone)
      (fun _ hnone => hnone) (fun _ hnone => hnone)

theorem Orderly.refreshReplace (h : d.Orderly) {index : Nat}
    (hdeclare : d.ReplacesDeclared (.refreshReplace index)) :
    (d.refreshReplace index).Orderly := by
  unfold ReplacesDeclared at hdeclare
  unfold Declarations.refreshReplace
  split
  · rename_i table tables hnext
    simp only [hnext] at hdeclare
    have hreplace := h.replace false hdeclare
    exact hreplace.unmoved rfl rfl rfl rfl rfl rfl
  · exact h

theorem Orderly.step (h : d.Orderly) {input : DeclarationInput}
    (hdeclare : d.ReplacesDeclared input) : (d.step cfg input).Orderly := by
  cases input with
  | edit e =>
    obtain ⟨rules, clusterRules, heq⟩ := e.apply_eq d.manager
    change Orderly { d with manager := e.apply d.manager }
    rw [heq]
    exact h.unmoved rfl rfl rfl rfl rfl rfl
  | refreshCluster now id a => exact h.refreshCluster now id a
  | refreshTables now => exact h.refreshTables cfg now
  | declareBegin t id => exact h.declareBegin t id
  | declareRead t => exact h.declareRead t
  | declareInstall t force => exact h.declareInstall t force
  | declareAbort t => exact h.declareAbort t
  | forgetWatches t => exact h.forgetWatches t
  | forgetCluster t => exact h.forgetCluster t
  | refreshBegin =>
    exact h.unmoved rfl rfl rfl rfl rfl rfl
  | refreshRead index =>
    change (d.refreshRead index).Orderly
    unfold Declarations.refreshRead
    split
    · exact h.unmoved rfl rfl rfl rfl rfl rfl
    · exact h
  | refreshReplace index => exact h.refreshReplace hdeclare

/-- A refresh that replaces the watch set of a forgotten target starts it again. -/
theorem Orderly.declared_of_stopped (h : d.Orderly) {input : DeclarationInput}
    (hstop : (d.step cfg input).StayStopped) : d.ReplacesDeclared input := by
  cases input with
  | refreshReplace index =>
    unfold ReplacesDeclared
    simp only
    split
    · rename_i table tables hnext
      by_contra hnot
      obtain ⟨hkey, hforget⟩ := not_or.mp hnot
      have hforget := not_not.mp hforget
      obtain ⟨-, hlast, -⟩ := replace_frame d false table
      have hstep : d.step cfg (.refreshReplace index) =
          { d.replace false table with
            refreshes := d.refreshes.set index (.replacing tables) } := by
        simp only [Declarations.step, Declarations.refreshReplace, hnext]
      rw [hstep] at hstop
      have hnone := (hstop table.gitDest.key hkey (by simp only [hlast, hforget])).1
      exact replace_starts (h.stopped _ hkey hforget).1 hnone
    · trivial
  | _ => trivial

end Declarations

/-! ## 4. Every interleaving -/

/-- In every interleaving: forgotten targets stay stopped after every step exactly when no refresh
gets to replace the watch set of a target that was forgotten after the refresh noted it. -/
theorem forgotten_targets_stay_stopped_iff [DecidableEq X] (cfg : ManagerConfig X)
    (inputs : List DeclarationInput) :
    AllSteps (Declarations.step cfg) Declarations.ReplacesDeclared newDeclarations inputs ↔
      AllSteps (Declarations.step cfg) (fun d input => (d.step cfg input).StayStopped)
        newDeclarations inputs := by
  refine AllSteps.congr (P := Declarations.Orderly) (fun d input hdeclared h => ?_)
    (fun d input h => ⟨fun hdeclared => ?_, fun hstopped => ?_⟩) Declarations.orderly_new inputs
  · exact h.step cfg hdeclared
  · exact (h.step cfg hdeclared).stopped
  · exact h.declared_of_stopped cfg hstopped

def refreshedTarget : List DeclarationInput :=
  [.edit (.setRule teamRule (selecting ["apps"] ["deployments"])),
    .declareBegin mirrorTarget "remote", .refreshCluster 0 "remote" (discovers (.ok twoTypes)),
    .refreshTables 0, .declareRead mirrorTarget, .declareInstall mirrorTarget false,
    .refreshBegin, .refreshRead 0]

def restartedAfterForget : List DeclarationInput :=
  refreshedTarget ++ [.forgetWatches mirrorTarget, .forgetCluster mirrorTarget, .refreshReplace 0]

/-- All calls are over, the last controller call was a forget, and yet the target runs its streams,
with a gate epoch and no cluster of its own: they open against the default cluster. -/
theorem forgotten_target_restarts :
    let d := restartedAfterForget.foldl (Declarations.step plainConfig) newDeclarations
    d.lastCall mirrorTarget.key = some .forget ∧ (d.calls mirrorTarget.key).isNone = true ∧
      d.refreshes.all RefreshCall.over = true ∧ runningKeys d.manager = some [deploymentStream] ∧
      (d.gate mirrorTarget.key).isSome = true ∧
      d.manager.gitTargetClusters.lookup mirrorTarget.key = none ∧
      clusterIDForGitTarget d.manager mirrorTarget.key = configPlaneClusterID := by
  decide +kernel

end GitopsReverser.Watch
