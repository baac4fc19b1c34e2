import GitopsReverser.Reasoning.KeyedLog
import GitopsReverser.Watch.Event

/-!
# ReplayFold — folding the initial events into a snapshot

`foldTargetReplayEvent` appends an entry for every ADDED and MODIFIED event and ignores DELETED.
The snapshot is the collection at the bookmark exactly when no object is heard of again after it
was added.
-/

namespace GitopsReverser.Watch

open Reasoning

variable {B D : Type} (sanitize : Unstructured B → D) (gvr : GroupVersionResource)

def initialEventsAnnotationKey : String := "k8s.io/initial-events-end"

def annotation (u : Unstructured B) (key : String) : String :=
  ((u.annotations.find? (fun a => a.1 = key)).map (·.2)).getD ""

def foldTargetReplayEvent (ev : WatchEvent B) (replay : List (DesiredResource D)) :
    Except String (List (DesiredResource D) × Option String) :=
  match ev.type with
  | .bookmark =>
    match ev.object with
    | .unstructured u =>
      if annotation u initialEventsAnnotationKey = "true" then
        .ok (replay, some u.resourceVersion)
      else .ok (replay, none)
    | object => .error ("target replay bookmark carried " ++ object.goType ++ " for " ++ gvr.toString)
  | .added | .modified =>
    match ev.object with
    | .unstructured u => .ok (replay ++ [desiredFromObject sanitize gvr u], none)
    | object => .error ("target replay event carried " ++ object.goType ++ " for " ++ gvr.toString)
  -- an entry the object already has stays in the replay
  | .deleted => .ok (replay, none)
  | .error => .error ("target replay watch error for " ++ gvr.toString ++ ": " ++ ev.text)
  | .other => .ok (replay, none)

/-- The events of a replay up to its final bookmark: the snapshot and its resource version. -/
def foldReplay : List (WatchEvent B) → List (DesiredResource D) →
    Except String (List (DesiredResource D) × Option String)
  | [], replay => .ok (replay, none)
  | ev :: events, replay =>
    match foldTargetReplayEvent sanitize gvr ev replay with
    | .error e => .error e
    | .ok (replay', some rv) => .ok (replay', some rv)
    | .ok (replay', none) => foldReplay events replay'

/-- A change to the watched collection, as it is received. -/
inductive Change (B : Type) where
  | added (u : Unstructured B)
  | modified (u : Unstructured B)
  | deleted (u : Unstructured B)

def Change.object : Change B → Unstructured B
  | .added u => u
  | .modified u => u
  | .deleted u => u

def Change.event (change : Change B) : WatchEvent B where
  type := match change with
    | .added _ => .added
    | .modified _ => .modified
    | .deleted _ => .deleted
  object := .unstructured change.object
  apiStatus := none
  text := ""

def Change.entry (change : Change B) : ResourceIdentifier × Option (DesiredResource D) :=
  (newResourceIdentifier gvr change.object,
    match change with
    | .added u => some (desiredFromObject sanitize gvr u)
    | .modified u => some (desiredFromObject sanitize gvr u)
    | .deleted _ => none)

def initialEventsBookmark (u : Unstructured B) : WatchEvent B :=
  ⟨.bookmark, .unstructured u, none, ""⟩

/-! ## 1. What the fold keeps -/

variable (changes : List (Change B))

theorem foldReplay_changes (events : List (WatchEvent B)) (replay : List (DesiredResource D)) :
    foldReplay sanitize gvr (changes.map Change.event ++ events) replay = foldReplay sanitize gvr events
        (replay ++ changes.filterMap (fun change => (change.entry sanitize gvr).2)) := by
  -- on the changes; each upsert appends, a deletion passes
  induction changes generalizing replay with
  | nil => simp
  | cons change changes ih =>
    simp only [List.map_cons, List.cons_append, foldReplay, foldTargetReplayEvent, Change.event,
      Change.object, List.filterMap_cons, Change.entry]
    cases change with
    | added u => simpa [Change.entry] using ih (replay ++ [desiredFromObject sanitize gvr u])
    | modified u => simpa [Change.entry] using ih (replay ++ [desiredFromObject sanitize gvr u])
    | deleted u => simpa [Change.entry] using ih replay

/-- The snapshot handed to the resync: every version ever received, in order. -/
theorem foldReplay_snapshot (u : Unstructured B)
    (hmark : annotation u initialEventsAnnotationKey = "true") :
    foldReplay sanitize gvr (changes.map Change.event ++ [initialEventsBookmark u]) [] =
      .ok (changes.filterMap (fun change => (change.entry sanitize gvr).2),
        some u.resourceVersion) := by
  rw [foldReplay_changes]
  simp [foldReplay, foldTargetReplayEvent, initialEventsBookmark, hmark]

theorem entry_resource {change : Change B} {d : DesiredResource D}
    (h : (change.entry sanitize gvr).2 = some d) : d.resource = (change.entry sanitize gvr).1 := by
  cases change with
  | added u | modified u => exact Option.some.inj h ▸ rfl
  | deleted u => simp [Change.entry] at h

theorem snapshot_entries (id : ResourceIdentifier) :
    (changes.filterMap (fun change => (change.entry sanitize gvr).2)).filter
        (fun d => d.resource = id) =
      upserts id (changes.map (fun change => change.entry sanitize gvr)) := by
  induction changes with
  | nil => rfl
  | cons change changes ih =>
    rw [List.map_cons, upserts_cons, ← ih, List.filterMap_cons]
    cases hentry : (change.entry sanitize gvr).2 with
    | none => simp
    | some d =>
      simp only [List.filter_cons, entry_resource sanitize gvr hentry]
      -- the entry is in the log under the identifier it carries
      by_cases hid : (change.entry sanitize gvr).1 = id <;> simp [hid]

/-! ## 2. The collection at the bookmark -/

def Change.isUpsert : Change B → Bool
  | .added _ => true
  | .modified _ => true
  | .deleted _ => false

/-- No change to an object is received after it was added or modified. -/
def SettledWhenListed (changes : List (Change B)) : Prop :=
  changes.Pairwise (fun a b => a.isUpsert = true →
    newResourceIdentifier gvr b.object ≠ newResourceIdentifier gvr a.object)

theorem settledWhenListed_iff : SettledWhenListed gvr changes ↔
      WrittenOnce (changes.map (fun change => change.entry sanitize gvr)) := by
  rw [WrittenOnce, List.pairwise_map, SettledWhenListed]
  have hentry : ∀ a : Change B, (a.entry sanitize gvr).2.isSome = a.isUpsert := by
    intro a
    cases a <;> rfl
  simp only [hentry]
  exact Iff.rfl

/-- The replay hands over the collection at the bookmark, one entry with the latest version for
    each live object and none for a deleted one, exactly when no change to an object is received
    after it was added or modified. -/
theorem foldReplay_collection_iff (u : Unstructured B)
    (hmark : annotation u initialEventsAnnotationKey = "true") :
    (∃ snapshot, foldReplay sanitize gvr (changes.map Change.event ++ [initialEventsBookmark u]) [] =
        .ok (snapshot, some u.resourceVersion) ∧
      ∀ id, snapshot.filter (fun d => d.resource = id) =
        (latest id (changes.map (fun change => change.entry sanitize gvr))).toList) ↔
      SettledWhenListed gvr changes := by
  rw [settledWhenListed_iff sanitize, ← upserts_eq_latest_iff,
    foldReplay_snapshot sanitize gvr changes u hmark]
  simp only [← snapshot_entries]
  constructor
  · rintro ⟨snapshot, hsnapshot, hall⟩
    obtain ⟨rfl, -⟩ := Prod.mk.inj (Except.ok.inj hsnapshot)
    exact hall
  · exact fun hall => ⟨_, rfl, hall⟩

def sampleObject (name : String) (version : Nat) : Unstructured Nat :=
  ⟨"default", name, "uid-" ++ name, "1", [], none, version⟩

def sampleBookmark : Unstructured Nat :=
  ⟨"", "", "", "9", [(initialEventsAnnotationKey, "true")], none, 0⟩

def configMaps : GroupVersionResource := ⟨"", "v1", "configmaps"⟩

-- An object modified while the list is streamed has two entries, a deleted one still has one.
theorem replay_duplicates_and_resurrects :
    let changes := [Change.added (sampleObject "a" 1), .modified (sampleObject "a" 2),
      .added (sampleObject "b" 1), .deleted (sampleObject "b" 1)]
    let entries := changes.map (fun change => change.entry Unstructured.body configMaps)
    let a := newResourceIdentifier configMaps (sampleObject "a" 1)
    let b := newResourceIdentifier configMaps (sampleObject "b" 1)
    (foldReplay Unstructured.body configMaps
        (changes.map Change.event ++ [initialEventsBookmark sampleBookmark]) []).toOption =
      some ([⟨a, 1⟩, ⟨a, 2⟩, ⟨b, 1⟩], some "9") ∧
    latest a entries = some ⟨a, 2⟩ ∧ latest b entries = none := by
  decide

theorem listed_objects_folded : ∃ snapshot, foldReplay Unstructured.body configMaps
        ([Change.added (sampleObject "a" 1), .added (sampleObject "b" 1)].map Change.event ++
          [initialEventsBookmark sampleBookmark]) [] =
        .ok (snapshot, some sampleBookmark.resourceVersion) ∧
      ∀ id, snapshot.filter (fun d => d.resource = id) =
        (latest id ([Change.added (sampleObject "a" 1), .added (sampleObject "b" 1)].map
          (fun change => change.entry Unstructured.body configMaps))).toList :=
  (foldReplay_collection_iff Unstructured.body configMaps _ sampleBookmark (by decide)).mpr (by
      unfold SettledWhenListed
      decide)

end GitopsReverser.Watch
