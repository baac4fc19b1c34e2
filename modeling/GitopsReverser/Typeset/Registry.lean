import GitopsReverser.Reasoning.Accumulate
import GitopsReverser.Typeset.Funnel

/-!
# Registry — the live set of followable types

The registry turns scans into records. A type a scan no longer shows is held for a grace period;
one whose group/version failed, or was not visited, is carried with its last facts. `revision`
tells consumers that the live set may have changed; it is a 64-bit counter and wraps.
-/

namespace GitopsReverser.Typeset

open Reasoning

/-- Times are nanoseconds, as in Go's `time.Time`. -/
def second : Int := 1000000000

def removalGrace : Int := 60 * second

/-- One known type; `absentSince` is none while it is observed. -/
structure RegistryEntry where
  obs : Observation
  absentSince : Option Int
  deriving DecidableEq, Repr

def RegistryEntry.record (e : RegistryEntry) : TypeRecord := recordFromObservation e.obs

/-- `changes` counts the bumps of the revision from the start. -/
structure Registry where
  entries : Dict Identity RegistryEntry
  generation : Nat
  changes : Nat
  ready : Bool

/-- The source's `uint64`: what is left of the count in 64 bits. -/
def Registry.revision (r : Registry) : Nat := r.changes % 2 ^ 64

def newRegistry : Registry := ⟨∅, 0, 0, false⟩

/-! ## 1. Reading -/

def followableKeys (entries : Dict Identity RegistryEntry) : List Identity :=
  (entries.entries.filter (fun e => e.2.record.followable)).map (·.1)

def identitySortKey (id : Identity) : String :=
  id.gvk.group ++ "|" ++ id.gvk.version ++ "|" ++ id.gvk.kind ++ "|" ++ id.gvr.resource

def Registry.followable (r : Registry) : List TypeRecord :=
  ((r.entries.entries.map (fun e => { e.2.record with identity := e.1 })).filter
    TypeRecord.followable).insertionSort
      (fun a b => identitySortKey a.identity ≤ identitySortKey b.identity)

def Registry.byGVR (r : Registry) (gvr : GroupVersionResource) : Option TypeRecord :=
  (r.entries.entries.find? (fun e => e.1.gvr = gvr)).map (fun e => e.2.record)

/-! ## 2. Updating -/

def groupVersion (gvr : GroupVersionResource) : GroupVersion := ⟨gvr.group, gvr.version⟩

/-- What `carriedObservations` makes of a known type that the scan does not show. -/
def carriedObservation (scan : Scan) (key : Identity) (prev : RegistryEntry) : Option Observation :=
  -- a type under grace is not carried: the grace decides about it
  if prev.absentSince.isSome then none
  else if scan.failedGroupVersions.contains (groupVersion key.gvr) then
    some { prev.obs with served := true, trusted := false, absenceExpired := false }
  -- visited without a trace of the type: it is gone
  else if scan.scannedGroupVersions.contains (groupVersion key.gvr) || scan.complete then none
  else some prev.obs

def carriedObservations (scan : Scan) (fresh : List Observation)
    (entries : Dict Identity RegistryEntry) : List (Identity × Observation) :=
  entries.entries.filterMap (fun e =>
    if fresh.any (fun obs => decide (obs.identity = e.1)) then none
    else (carriedObservation scan e.1 e.2).map (fun obs => (e.1, obs)))

/-- What `retainAbsentLocked` makes of one live type that is observed no longer. -/
def retainedEntry (now : Int) (prev : RegistryEntry) : Option RegistryEntry :=
  if !prev.record.followable then none
  else
    -- the grace runs from the first update that misses the type
    let absentSince := prev.absentSince.getD now
    let obs := { prev.obs with
      served := false
      absenceExpired := decide (now - absentSince ≥ removalGrace) }
    if !(recordFromObservation obs).followable then none else some ⟨obs, some absentSince⟩

def retainStep (now : Int) (next : Dict Identity RegistryEntry)
    (e : (_ : Identity) × RegistryEntry) : Dict Identity RegistryEntry :=
  match next.lookup e.1, retainedEntry now e.2 with
  | none, some kept => next.insert e.1 kept
  | _, _ => next

def retainAbsent (now : Int) (entries next : Dict Identity RegistryEntry) :
    Dict Identity RegistryEntry :=
  entries.entries.foldl (retainStep now) next

def sameKeySet (a b : List Identity) : Bool :=
  decide (a.length = b.length) && a.all b.contains

def observedEntries (observations : List (Identity × Observation)) : Dict Identity RegistryEntry :=
  accumulate (·.1) (fun _ o => ⟨o.2, none⟩) observations ∅

def Registry.update (now : Int) (observations : List (Identity × Observation)) (generation : Nat)
    (r : Registry) : Registry :=
  let next := retainAbsent now r.entries (observedEntries observations)
  -- a new generation counts as a change even when the live set is the same
  let changed := !r.ready || decide (generation ≠ r.generation) ||
    !sameKeySet (followableKeys r.entries) (followableKeys next)
  ⟨next, generation, if changed then r.changes + 1 else r.changes, true⟩

def keyed (observations : List Observation) : List (Identity × Observation) :=
  observations.map (fun obs => (obs.identity, obs))

def Registry.updateFromScan (now : Int) (scan : Scan) (generation : Nat) (r : Registry) : Registry :=
  let fresh := observationsFromEntries scan.entries
  r.update now (keyed fresh ++ carriedObservations scan fresh r.entries) generation

/-! ## 3. What an update keeps -/

def Registry.live (r : Registry) (key : Identity) : Option Bool :=
  (r.entries.lookup key).bind (fun e =>
    if e.record.followable then some e.obs.preferred else none)

def shown (scan : Scan) (key : Identity) : Option Observation :=
  ((keyed (observationsFromEntries scan.entries)).filter (fun o => o.1 = key)).getLast?.map (·.2)

theorem mem_followable_iff (r : Registry) (rec : TypeRecord) :
    (∃ verdict, { rec with verdict := verdict } ∈ r.followable) ↔
      r.live rec.identity = some rec.preferred := by
  simp only [Registry.followable, List.mem_insertionSort, List.mem_filter, List.mem_map]
  constructor
  · rintro ⟨verdict, ⟨⟨key, e⟩, he, heq⟩, hlive⟩
    have hkey : key = rec.identity := congrArg TypeRecord.identity heq
    have hpref : e.obs.preferred = rec.preferred := congrArg TypeRecord.preferred heq
    have hfollow : e.record.followable = true := by
      rw [← heq] at hlive
      exact hlive
    subst hkey
    rw [Registry.live, mem_entries_iff.mp he]
    simp [hfollow, hpref]
  · intro hlive
    obtain ⟨e, he, hsome⟩ := Option.bind_eq_some_iff.mp hlive
    split at hsome
    · rename_i hfollow
      refine ⟨e.record.verdict, ⟨⟨rec.identity, e⟩, mem_entries_iff.mpr he, ?_⟩, ?_⟩
      · rw [← Option.some.inj hsome]
        rfl
      · exact hfollow
    · simp at hsome

theorem mem_followableKeys_iff (r : Registry) (key : Identity) :
    key ∈ followableKeys r.entries ↔ (r.live key).isSome := by
  simp only [followableKeys, List.mem_map, List.mem_filter]
  constructor
  · rintro ⟨⟨key', e⟩, ⟨he, hfollow⟩, rfl⟩
    rw [Registry.live, mem_entries_iff.mp he]
    simp [hfollow]
  · intro hlive
    obtain ⟨preferred, hlive⟩ := Option.isSome_iff_exists.mp hlive
    obtain ⟨e, he, hsome⟩ := Option.bind_eq_some_iff.mp hlive
    split at hsome
    · rename_i hfollow
      exact ⟨⟨key, e⟩, ⟨mem_entries_iff.mpr he, hfollow⟩, rfl⟩
    · simp at hsome

theorem followableKeys_nodup (entries : Dict Identity RegistryEntry) :
    (followableKeys entries).Nodup := by
  have hsub : (followableKeys entries).Sublist (entries.entries.map (·.1)) :=
    List.Sublist.map _ List.filter_sublist
  exact hsub.nodup entries.nodupKeys

theorem mem_iff_of_sameKeySet {a b : List Identity} (ha : a.Nodup)
    (h : sameKeySet a b = true) (key : Identity) : key ∈ a ↔ key ∈ b := by
  simp only [sameKeySet, Bool.and_eq_true, decide_eq_true_eq, List.all_eq_true] at h
  obtain ⟨hlen, hall⟩ := h
  have hsub : a ⊆ b := fun k hk => by simpa using hall k hk
  exact ((List.subperm_of_subset ha hsub).perm_of_length_le (Nat.le_of_eq hlen.symm)).mem_iff

variable (now : Int)

theorem lookup_retainStep (next : Dict Identity RegistryEntry)
    (e : (_ : Identity) × RegistryEntry) (key : Identity) : (retainStep now next e).lookup key =
      if key = e.1 then (next.lookup key).or (retainedEntry now e.2) else next.lookup key := by
  unfold retainStep
  split
  · rename_i kept hmiss hkept
    rw [lookup_insert_ite]
    split_ifs with hkey
    · rw [hkey, hmiss, hkept, Option.none_or]
    · rfl
  · rename_i hother
    split_ifs with hkey
    · subst hkey
      cases hnext : next.lookup e.1 with
      | some prev => rfl
      | none =>
        cases hkept : retainedEntry now e.2 with
        | none => rfl
        | some kept => exact absurd hkept (hother kept hnext)
    · rfl

theorem lookup_retainAbsent (entries next : Dict Identity RegistryEntry)
    (key : Identity) : (retainAbsent now entries next).lookup key =
      (next.lookup key).or ((entries.lookup key).bind (retainedEntry now)) := by
  obtain ⟨known, hnodup⟩ := entries
  simp only [retainAbsent]
  -- on the known types: a type is folded in once, under its own key
  induction known generalizing next with
  | nil => simp [AList.lookup]
  | cons e known ih =>
    obtain ⟨hnew, hnodup⟩ := List.nodupKeys_cons.mp hnodup
    rw [List.foldl_cons, ih _ hnodup, lookup_retainStep]
    simp only [AList.lookup]
    by_cases hkey : key = e.1
    · subst hkey
      rw [if_pos rfl, List.dlookup_cons_eq, List.dlookup_eq_none.mpr hnew]
      simp
    · rw [if_neg hkey, List.dlookup_cons_ne _ _ hkey]

variable {e : RegistryEntry} {key : Identity} {obs : Observation} {scan : Scan}
  {entries : Dict Identity RegistryEntry}

theorem mem_carriedObservations {fresh : List Observation} :
    (key, obs) ∈ carriedObservations scan fresh entries ↔ (∀ o ∈ fresh, o.identity ≠ key) ∧
      (entries.lookup key).bind (carriedObservation scan key) = some obs := by
  simp only [carriedObservations, List.mem_filterMap, Option.bind_eq_some_iff]
  constructor
  · rintro ⟨⟨key', prev⟩, hmem, hsome⟩
    split at hsome
    · simp at hsome
    · rename_i hfresh
      obtain ⟨carried, hcarry, heq⟩ := Option.map_eq_some_iff.mp hsome
      obtain ⟨rfl, rfl⟩ := Prod.mk.inj heq
      exact ⟨by simpa using hfresh, prev, mem_entries_iff.mp hmem, hcarry⟩
  · rintro ⟨hfresh, prev, hprev, hcarry⟩
    refine ⟨⟨key, prev⟩, mem_entries_iff.mpr hprev, ?_⟩
    rw [if_neg (by simpa using hfresh), hcarry]
    rfl

theorem shown_eq_none : shown scan key = none ↔
    ∀ o ∈ observationsFromEntries scan.entries, o.identity ≠ key := by
  simp [shown, keyed]

theorem lookup_observed (scan : Scan) (entries : Dict Identity RegistryEntry) (key : Identity) :
    (observedEntries (keyed (observationsFromEntries scan.entries) ++
      carriedObservations scan (observationsFromEntries scan.entries) entries)).lookup key =
        ((shown scan key).or ((entries.lookup key).bind (carriedObservation scan key))).map
          (⟨·, none⟩) := by
  rw [observedEntries, lookup_overwrite, List.filter_append, List.getLast?_append,
    AList.lookup_empty, Option.or_none]
  -- what is carried under the key is the one observation of the entry before
  have hcarry : ∀ c ∈ (carriedObservations scan (observationsFromEntries scan.entries)
      entries).filter (fun o => o.1 = key), shown scan key = none ∧
        (entries.lookup key).bind (carriedObservation scan key) = some c.2 := by
    rintro ⟨key', c⟩ hc
    obtain ⟨hmem, hkey⟩ := List.mem_filter.mp hc
    obtain rfl : key' = key := by simpa using hkey
    obtain ⟨hfresh, hsome⟩ := mem_carriedObservations.mp hmem
    exact ⟨shown_eq_none.mpr hfresh, hsome⟩
  cases hlast : ((carriedObservations scan (observationsFromEntries scan.entries) entries).filter
      (fun o => o.1 = key)).getLast? with
  | some c =>
    obtain ⟨hshown, hsome⟩ := hcarry c (List.mem_of_getLast? hlast)
    rw [hshown, hsome]
    rfl
  | none =>
    rw [Option.none_or]
    cases hshown : shown scan key with
    | some obs =>
      obtain ⟨o, ho, rfl⟩ := Option.map_eq_some_iff.mp hshown
      rw [ho]
      rfl
    | none =>
      rw [Option.map_eq_none_iff.mp hshown]
      cases hsome : (entries.lookup key).bind (carriedObservation scan key) with
      | none => rfl
      | some c =>
        have hmem := mem_carriedObservations.mpr ⟨shown_eq_none.mp hshown, hsome⟩
        have hnil := List.getLast?_eq_none_iff.mp hlast
        exact absurd hmem (by simpa using List.filter_eq_nil_iff.mp hnil (key, c))

/-- What an update makes of a known type that the scan does not show. -/
def heldEntry (now : Int) (scan : Scan) (key : Identity) (prev : RegistryEntry) :
    Option RegistryEntry :=
  match carriedObservation scan key prev with
  | some obs => some ⟨obs, none⟩
  | none => retainedEntry now prev

/-- The whole of an update, at one type. -/
theorem lookup_updateFromScan (scan : Scan) (generation : Nat) (r : Registry)
    (key : Identity) : (r.updateFromScan now scan generation).entries.lookup key =
      match shown scan key with
      | some obs => some ⟨obs, none⟩
      | none => (r.entries.lookup key).bind (heldEntry now scan key) := by
  simp only [Registry.updateFromScan, Registry.update, lookup_retainAbsent, lookup_observed]
  cases shown scan key with
  | some obs => rfl
  | none =>
    cases r.entries.lookup key with
    | none => rfl
    | some prev =>
      simp only [Option.none_or, Option.bind_some, heldEntry]
      cases carriedObservation scan key prev <;> rfl

theorem updateFromScan_shown (generation : Nat) (r : Registry) (h : shown scan key = some obs) :
    (r.updateFromScan now scan generation).entries.lookup key = some ⟨obs, none⟩ := by
  rw [lookup_updateFromScan, h]

theorem carriedObservation_cases {prev : RegistryEntry}
    (h : carriedObservation scan key prev = some obs) : prev.absentSince = none ∧ (obs = prev.obs ∨
        obs = { prev.obs with served := true, trusted := false, absenceExpired := false }) := by
  unfold carriedObservation at h
  split_ifs at h with habsent
  · exact ⟨by simpa using habsent, .inr (Option.some.inj h).symm⟩
  · exact ⟨by simpa using habsent, .inl (Option.some.inj h).symm⟩

theorem retainedEntry_eq_some {now : Int} {prev e : RegistryEntry}
    (h : retainedEntry now prev = some e) : prev.record.followable = true ∧
      e.record.followable = true ∧ e.absentSince = some (prev.absentSince.getD now) ∧
      ∃ expired, e.obs = { prev.obs with served := false, absenceExpired := expired } := by
  simp only [retainedEntry] at h
  split_ifs at h with hlive hkept
  cases h
  exact ⟨by simpa using hlive, by simpa [RegistryEntry.record] using hkept, rfl, _, rfl⟩

theorem heldEntry_preferred {now : Int} {prev : RegistryEntry}
    (h : heldEntry now scan key prev = some e) : e.obs.preferred = prev.obs.preferred := by
  unfold heldEntry at h
  split at h
  · rename_i obs hcarry
    cases h
    rcases (carriedObservation_cases hcarry).2 with rfl | rfl <;> rfl
  · obtain ⟨-, -, -, expired, hobs⟩ := retainedEntry_eq_some h
    rw [hobs]

theorem updateFromScan_cases (scan : Scan) (generation : Nat) (r : Registry)
    (h : (r.updateFromScan now scan generation).entries.lookup key = some e) :
    shown scan key = some e.obs ∨ ∃ prev, r.entries.lookup key = some prev ∧
      e.obs.preferred = prev.obs.preferred := by
  rw [lookup_updateFromScan] at h
  split at h
  · rename_i obs hshown
    cases h
    exact Or.inl hshown
  · obtain ⟨prev, hprev, hheld⟩ := Option.bind_eq_some_iff.mp h
    exact Or.inr ⟨prev, hprev, heldEntry_preferred hheld⟩

/-! ## 4. Revisions -/

/-- A later state of one registry: a change of the live set is counted. -/
structure Precedes (r r' : Registry) : Prop where
  changes : r.changes ≤ r'.changes
  ready : r.ready = true → r'.ready = true
  live : r.changes = r'.changes → r.live = r'.live

theorem Precedes.refl (r : Registry) : Precedes r r := ⟨Nat.le_refl _, id, fun _ => rfl⟩

theorem Precedes.trans {a b c : Registry} (hab : Precedes a b) (hbc : Precedes b c) : Precedes a c where
  changes := Nat.le_trans hab.changes hbc.changes
  ready h := hbc.ready (hab.ready h)
  live h := by
    have hle := hab.changes
    have hle' := hbc.changes
    exact (hab.live (by omega)).trans (hbc.live (by omega))

/-- As long as the counter has not wrapped, the revision tells the live sets of one registry apart. -/
theorem Precedes.live_of_revision {r r' : Registry} (h : Precedes r r') (hroom : r'.changes < 2 ^ 64)
    (hsame : r.revision = r'.revision) : r.live = r'.live := by
  have hle := h.changes
  rw [Registry.revision, Registry.revision, Nat.mod_eq_of_lt (by omega), Nat.mod_eq_of_lt hroom] at hsame
  exact h.live hsame

/-- The records of a ready registry come from the scan of its generation. -/
def FromScan (r : Registry) (scan : Scan) : Prop :=
  ∀ key obs, shown scan key = some obs → r.entries.lookup key = some ⟨obs, none⟩

/-- An update under the scan the registry already holds changes no facts, so a live set with the
    same keys is the same. -/
theorem live_eq_of_same_scan (scan : Scan) (generation : Nat) (r : Registry) (hscan : FromScan r scan)
    (hkeys : sameKeySet (followableKeys r.entries)
      (followableKeys (r.updateFromScan now scan generation).entries) = true) :
    r.live = (r.updateFromScan now scan generation).live := by
  funext key
  have hsome : (r.live key).isSome ↔ ((r.updateFromScan now scan generation).live key).isSome := by
    rw [← mem_followableKeys_iff, ← mem_followableKeys_iff]
    exact mem_iff_of_sameKeySet (followableKeys_nodup _) hkeys key
  cases hlive' : (r.updateFromScan now scan generation).live key with
  | none => simpa [hlive'] using hsome
  | some preferred' =>
    rw [hlive'] at hsome
    obtain ⟨preferred, hlive⟩ := Option.isSome_iff_exists.mp (hsome.mpr rfl)
    obtain ⟨e', he', hpref'⟩ := Option.bind_eq_some_iff.mp hlive'
    obtain ⟨e, he, hpref⟩ := Option.bind_eq_some_iff.mp hlive
    -- shown by this scan before and after, or kept with its facts
    have hsame : e.obs.preferred = e'.obs.preferred := by
      rcases updateFromScan_cases now scan generation r he' with hshown | ⟨prev, hprev, hsame⟩
      · have := hscan key e'.obs hshown
        rw [he] at this
        rw [Option.some.inj this]
      · rw [he] at hprev
        rw [hsame, Option.some.inj hprev]
    split at hpref
    · split at hpref'
      · rw [hlive, ← hpref, ← hpref', hsame]
      · simp at hpref'
    · simp at hpref

theorem updateFromScan_fromScan (scan : Scan) (generation : Nat) (r : Registry) :
    FromScan (r.updateFromScan now scan generation) scan :=
  fun _ _ h => updateFromScan_shown now generation r h

/-- A change of the live set is counted, as long as a generation stands for one scan. -/
theorem updateFromScan_precedes (scan : Scan) (generation : Nat) (r : Registry)
    (hscan : r.ready = true → r.generation = generation → FromScan r scan) :
    Precedes r (r.updateFromScan now scan generation) := by
  have hrev : (r.updateFromScan now scan generation).changes =
      if (!r.ready || decide (generation ≠ r.generation) || !sameKeySet (followableKeys r.entries)
          (followableKeys (r.updateFromScan now scan generation).entries)) = true
      then r.changes + 1 else r.changes := rfl
  refine ⟨?_, fun _ => rfl, ?_⟩
  · rw [hrev]
    split <;> omega
  · intro hsame
    rw [hrev] at hsame
    split at hsame
    · omega
    · rename_i hunchanged
      simp only [Bool.or_eq_true, Bool.not_eq_true', decide_eq_true_eq, not_or, ne_eq,
        Bool.not_eq_false, Decidable.not_not] at hunchanged
      obtain ⟨⟨hready, hgeneration⟩, hkeys⟩ := hunchanged
      exact live_eq_of_same_scan now scan generation r (hscan hready hgeneration.symm) hkeys

end GitopsReverser.Typeset
