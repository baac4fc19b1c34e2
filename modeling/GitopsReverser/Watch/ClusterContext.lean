import GitopsReverser.Typeset.Registry

/-!
# ClusterContext — the API surface of one source cluster

A catalog keeps the last discovery scan and counts its changes; the registry behind it decides
which types are followable.
-/

namespace GitopsReverser.Watch

open Typeset

/-- `generation` is a `uint64` and wraps. -/
structure Catalog where
  lastScan : Scan
  generation : Nat
  ready : Bool

def newAPIResourceCatalog : Catalog := ⟨⟨[], [], [], false⟩, 0, false⟩

def Catalog.refresh (scan : Scan) (c : Catalog) : Catalog :=
  let changed := !c.ready || decide (c.lastScan ≠ scan)
  { lastScan := scan
    generation := if changed then (c.generation + 1) % 2 ^ 64 else c.generation
    ready := c.ready || decide (scan.scannedGroupVersions ≠ []) }

/-- `inCluster` is set once the cluster's provider resolved to the operator's own cluster. -/
structure ClusterContext where
  catalog : Catalog
  registry : Registry
  inCluster : Bool

def newClusterContext : ClusterContext := ⟨newAPIResourceCatalog, newRegistry, false⟩

def refreshClusterTypeRegistry (now : Int) (cc : ClusterContext) : ClusterContext :=
  if cc.catalog.ready then
    { cc with registry := cc.registry.updateFromScan now cc.catalog.lastScan cc.catalog.generation }
  else cc

def refreshClusterCatalog (now : Int) (scan : Except String Scan) (cc : ClusterContext) :
    ClusterContext × Option String :=
  match scan with
  | .error e => (cc, some e)
  | .ok scan =>
    (refreshClusterTypeRegistry now { cc with catalog := cc.catalog.refresh scan }, none)

/-- The registry has published the catalog's scan. -/
structure Published (cc : ClusterContext) : Prop where
  catalog : cc.registry.ready = true → cc.catalog.ready = true
  generation : cc.registry.ready = true → cc.registry.generation = cc.catalog.generation
  fromScan : cc.registry.ready = true → FromScan cc.registry cc.catalog.lastScan

theorem published_new : Published newClusterContext := by
  constructor <;> simp [newClusterContext, newRegistry]

theorem refreshClusterTypeRegistry_published (now : Int) (cc : ClusterContext)
    (hready : cc.registry.ready = true → cc.catalog.ready = true) :
    Published (refreshClusterTypeRegistry now cc) := by
  unfold refreshClusterTypeRegistry
  split
  · rename_i hcatalog
    exact ⟨fun _ => hcatalog, fun _ => rfl, fun _ => updateFromScan_fromScan _ _ _ _⟩
  · rename_i hcatalog
    have hnot : cc.registry.ready = true → False := fun h => hcatalog (hready h)
    exact ⟨hready, fun h => (hnot h).elim, fun h => (hnot h).elim⟩

theorem Published.republished {cc : ClusterContext} (h : Published cc) (now : Int) :
    Published (refreshClusterTypeRegistry now cc) ∧
      Precedes cc.registry (refreshClusterTypeRegistry now cc).registry := by
  refine ⟨refreshClusterTypeRegistry_published now cc h.catalog, ?_⟩
  unfold refreshClusterTypeRegistry
  split
  · exact updateFromScan_precedes now _ _ _ (fun hready _ => h.fromScan hready)
  · exact Precedes.refl _

theorem Published.scanned {cc : ClusterContext} (h : Published cc) (now : Int)
    (scan : Except String Scan) : Published (refreshClusterCatalog now scan cc).1 ∧
      Precedes cc.registry (refreshClusterCatalog now scan cc).1.registry := by
  cases scan with
  | error e => exact ⟨h, Precedes.refl _⟩
  | ok scan =>
    refine ⟨refreshClusterTypeRegistry_published now _ (fun hready => ?_), ?_⟩
    · simp [Catalog.refresh, h.catalog hready]
    · simp only [refreshClusterCatalog, refreshClusterTypeRegistry]
      split
      · refine updateFromScan_precedes now _ _ _ (fun hready hgen => ?_)
        have hsame : cc.catalog.lastScan = scan := by
          by_contra hchange
          rw [h.generation hready] at hgen
          simp only [Catalog.refresh, h.catalog hready, hchange, Bool.not_true, Bool.false_or, ne_eq,
            not_false_eq_true, decide_true, if_true] at hgen
          omega
        rw [show (cc.catalog.refresh scan).lastScan = cc.catalog.lastScan from hsame.symm]
        exact h.fromScan hready
      · exact Precedes.refl _

end GitopsReverser.Watch
