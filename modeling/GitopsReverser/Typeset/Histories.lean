import GitopsReverser.Reasoning.Runs
import GitopsReverser.Typeset.Registry

/-!
# Histories — the live types over any sequence of scans

What one update makes of a type is `lookup_updateFromScan`; here it is followed through whole
histories. A type leaves the live set by a failed check or by the removal grace. Kinds and
resources stay one to one as long as no scan shows a type whose kind or resource is still held
under another name.
-/

namespace GitopsReverser.Typeset

open Reasoning

/-- One call of `UpdateFromScan` and the time it is made. -/
structure ScanCall where
  now : Int
  scan : Scan
  generation : Nat

def Registry.take (r : Registry) (c : ScanCall) : Registry :=
  r.updateFromScan c.now c.scan c.generation

def afterCalls (calls : List ScanCall) : Registry := calls.foldl Registry.take newRegistry

variable (calls : List ScanCall)

theorem afterCalls_append (c : ScanCall) : afterCalls (calls ++ [c]) = (afterCalls calls).take c := by
  rw [afterCalls, List.foldl_append]
  rfl

/-! ## 1. What is live -/

def Observation.Settled (obs : Observation) : Prop :=
  ∀ c ∈ (evaluate obs).drop 3, ∀ reason, c.result ≠ .fail reason

theorem live_deriveVerdict_iff (checks : List Check) :
    (deriveVerdict checks = .followable ∨ deriveVerdict checks = .retained) ↔
      ∀ c ∈ checks, ∀ reason, c.result = .fail reason →
        reason ≠ .catalogUnavailable ∧ (c.requirement = .served ∨ c.requirement = .trusted) := by
  have hfail : ∀ c, c ∈ failedChecks checks ↔ c ∈ checks ∧ ∃ reason, c.result = .fail reason := by
    intro c
    rw [failedChecks, List.mem_filter]
    cases c.result <;> simp
  simp only [deriveVerdict]
  split_ifs with hnone hdown hblip
  · simp only [true_or, true_iff]
    intro c hc reason hreason
    exact absurd ((hfail c).mpr ⟨hc, reason, hreason⟩) (by simp [hnone])
  · simp only [or_self, false_iff]
    intro hall
    obtain ⟨c, hc, hreason⟩ := List.any_eq_true.mp hdown
    exact (hall c ((hfail c).mp hc).1 _ (of_decide_eq_true hreason)).1 rfl
  · simp only [or_true, true_iff]
    intro c hc reason hreason
    have hmem := (hfail c).mpr ⟨hc, reason, hreason⟩
    refine ⟨?_, by simpa using List.all_eq_true.mp hblip c hmem⟩
    rintro rfl
    exact hdown (List.any_eq_true.mpr ⟨c, hmem, by simp [hreason]⟩)
  · simp only [or_self, false_iff]
    intro hall
    refine hblip (List.all_eq_true.mpr (fun c hc => ?_))
    obtain ⟨hc, reason, hreason⟩ := (hfail c).mp hc
    simpa using (hall c hc reason hreason).2

theorem followable_iff (obs : Observation) : (recordFromObservation obs).followable = true ↔
    (obs.trusted = true ∨ obs.catalogReady = true) ∧ obs.absenceExpired = false ∧ obs.Settled := by
  have hverdict : (recordFromObservation obs).followable = true ↔
      (deriveVerdict (evaluate obs) = .followable ∨ deriveVerdict (evaluate obs) = .retained) := by
    rw [TypeRecord.followable, Bool.or_eq_true, decide_eq_true_eq, decide_eq_true_eq]
    rfl
  have hsplit : evaluate obs = [⟨.served, servedCheck obs⟩, ⟨.trusted, trustedCheck obs⟩,
      ⟨.stable, stableCheck obs⟩] ++ (evaluate obs).drop 3 := rfl
  have hrest : ∀ c ∈ (evaluate obs).drop 3, c.requirement ≠ .served ∧ c.requirement ≠ .trusted := by
    simp [evaluate]
  rw [hverdict, live_deriveVerdict_iff, hsplit]
  simp only [List.forall_mem_append, List.forall_mem_cons, List.not_mem_nil, false_imp_iff,
    implies_true, and_true]
  have hserve : ∀ reason, servedCheck obs = .fail reason → reason ≠ .catalogUnavailable := by
    unfold servedCheck
    intro reason
    split_ifs <;> rintro ⟨⟩ <;> simp
  have htrust : (∀ reason, trustedCheck obs = .fail reason → reason ≠ .catalogUnavailable) ↔
      (obs.trusted = true ∨ obs.catalogReady = true) := by
    unfold trustedCheck
    cases obs.trusted <;> cases obs.catalogReady <;> simp
  have hstable : (∀ reason, stableCheck obs ≠ .fail reason) ↔ obs.absenceExpired = false := by
    unfold stableCheck
    cases obs.absenceExpired <;> simp
  simp only [reduceCtorEq, or_false, or_true, and_true, or_self, and_false, imp_false]
  rw [htrust, hstable]
  constructor
  · rintro ⟨⟨-, htrusted, hfree⟩, hall⟩
    refine ⟨htrusted, hfree, fun c hc reason hreason => ?_⟩
    rcases (hall c hc reason hreason).2 with h | h
    · exact (hrest c hc).1 h
    · exact (hrest c hc).2 h
  · rintro ⟨htrusted, hfree, hall⟩
    exact ⟨⟨hserve, htrusted, hfree⟩, fun c hc reason hreason => absurd hreason (hall c hc reason)⟩

/-! ## 2. What a history leaves -/

variable {c : ScanCall} {e prev : RegistryEntry} {key : Identity} {now : Int} {obs : Observation}
  {r : Registry} {scan : Scan}

/-- Observed by a ready catalog, and not expired. -/
def RegistryEntry.Sound (e : RegistryEntry) : Prop :=
  e.obs.catalogReady = true ∧ e.obs.absenceExpired = false

theorem RegistryEntry.Sound.followable_iff (h : e.Sound) :
    e.record.followable = true ↔ e.obs.Settled := by
  rw [RegistryEntry.record, Typeset.followable_iff]
  simp [h.1, h.2]

theorem exists_of_shown (h : shown scan key = some obs) : ∃ entry ∈ scan.entries,
    entry.subresource = false ∧ observationFromEntry scan.entries entry = obs ∧ obs.identity = key := by
  obtain ⟨o, hlast, rfl⟩ := Option.map_eq_some_iff.mp h
  obtain ⟨hmem, hkey⟩ := List.mem_filter.mp (List.mem_of_getLast? hlast)
  simp only [keyed, observationsFromEntries, List.mem_map, List.mem_insertionSort,
    List.mem_filter, Bool.not_eq_true'] at hmem
  obtain ⟨o, ⟨entry, ⟨hentry, htop⟩, rfl⟩, rfl⟩ := hmem
  exact ⟨entry, hentry, htop, rfl, by simpa using hkey⟩

theorem heldEntry_sound (h : prev.Sound) (hheld : heldEntry now scan key prev = some e) :
    e.Sound ∧ (e.obs.Settled ↔ prev.obs.Settled) := by
  unfold heldEntry at hheld
  split at hheld
  · rename_i obs hcarry
    cases hheld
    rcases (carriedObservation_cases hcarry).2 with rfl | rfl
    · exact ⟨h, Iff.rfl⟩
    · exact ⟨⟨h.1, rfl⟩, Iff.rfl⟩
  · obtain ⟨-, hlive, -, expired, hobs⟩ := retainedEntry_eq_some hheld
    have hexpire := ((followable_iff e.obs).mp hlive).2.1
    rw [RegistryEntry.Sound, hobs] at *
    exact ⟨⟨h.1, hexpire⟩, Iff.rfl⟩

theorem afterCalls_sound {calls : List ScanCall}
    (h : (afterCalls calls).entries.lookup key = some e) : e.Sound := by
  induction calls using List.reverseRecOn generalizing e with
  | nil => cases h
  | append_singleton calls c ih =>
    rw [afterCalls_append, Registry.take, lookup_updateFromScan] at h
    split at h
    · rename_i obs hshown
      cases h
      obtain ⟨entry, -, -, rfl, -⟩ := exists_of_shown hshown
      exact ⟨rfl, rfl⟩
    · obtain ⟨prev, hprev, hheld⟩ := Option.bind_eq_some_iff.mp h
      exact (heldEntry_sound (ih hprev) hheld).1

/-! ## 3. The removal grace -/

/-- The scan says something about the type: its group/version was visited, or nothing was missed. -/
def Judges (scan : Scan) (key : Identity) : Prop :=
  groupVersion key.gvr ∉ scan.failedGroupVersions ∧
    (groupVersion key.gvr ∈ scan.scannedGroupVersions ∨ scan.complete = true)

theorem judges_of_not_carried (h : carriedObservation scan key prev = none)
    (hobserve : prev.absentSince = none) : Judges scan key := by
  unfold carriedObservation at h
  split_ifs at h with habsent hfail hvisible
  · simp [hobserve] at habsent
  · exact ⟨by simpa using hfail, by simpa using hvisible⟩

theorem heldEntry_absent {t : Int} (h : heldEntry now scan key prev = some e)
    (habsent : e.absentSince = some t) :
    prev.absentSince = some t ∨ (t = now ∧ prev.absentSince = none ∧ Judges scan key) := by
  unfold heldEntry at h
  split at h
  · cases h
    cases habsent
  · rename_i hcarry
    rw [(retainedEntry_eq_some h).2.2.1] at habsent
    cases hprev : prev.absentSince with
    | some t' => exact .inl (by simpa [hprev] using habsent)
    | none => exact .inr ⟨by simpa [hprev, eq_comm] using habsent, rfl, judges_of_not_carried hcarry hprev⟩

/-- The clock of an absent type was started by a scan that judged it, and no scan has shown it
    since. -/
theorem absent_since {calls : List ScanCall} {t : Int}
    (h : (afterCalls calls).entries.lookup key = some e) (habsent : e.absentSince = some t) :
    ∃ before d since, calls = before ++ d :: since ∧ d.now = t ∧ Judges d.scan key ∧
      ∀ x ∈ d :: since, shown x.scan key = none := by
  induction calls using List.reverseRecOn generalizing e with
  | nil => cases h
  | append_singleton calls c ih =>
    rw [afterCalls_append, Registry.take, lookup_updateFromScan] at h
    split at h
    · cases h
      cases habsent
    · rename_i hshown
      obtain ⟨prev, hprev, hheld⟩ := Option.bind_eq_some_iff.mp h
      rcases heldEntry_absent hheld habsent with hsame | ⟨rfl, -, hjudge⟩
      · obtain ⟨before, d, since, rfl, hnow, hjudge, hunseen⟩ := ih hprev hsame
        refine ⟨before, d, since ++ [c], by simp, hnow, hjudge, fun x hx => ?_⟩
        rcases List.mem_append.mp (by simpa using hx : x ∈ (d :: since) ++ [c]) with hx | hx
        · exact hunseen x hx
        · rwa [List.mem_singleton.mp hx]
      · exact ⟨calls, c, [], rfl, rfl, hjudge, by simpa using hshown⟩

theorem live_iff : (r.live key).isSome = true ↔
    ∃ e, r.entries.lookup key = some e ∧ e.record.followable = true := by
  rw [Registry.live]
  cases r.entries.lookup key with
  | none => simp
  | some e => by_cases h : e.record.followable = true <;> simp [h]

theorem changes_take (r : Registry) (c : ScanCall) : (r.take c).changes =
    if (!r.ready || decide (c.generation ≠ r.generation) || !sameKeySet (followableKeys r.entries)
      (followableKeys (r.take c).entries)) = true
    then r.changes + 1 else r.changes := rfl

/-- A change of the live set is counted. -/
theorem changes_take_of_live (r : Registry) (c : ScanCall)
    (h : ∃ key, (r.live key).isSome ≠ ((r.take c).live key).isSome) :
    (r.take c).changes = r.changes + 1 := by
  rw [changes_take]
  split_ifs with hchange
  · rfl
  · obtain ⟨key, hdiffer⟩ := h
    simp only [Bool.or_eq_true, not_or, Bool.not_eq_true', Bool.not_eq_false] at hchange
    have hsame := mem_iff_of_sameKeySet (followableKeys_nodup _) hchange.2 key
    rw [mem_followableKeys_iff, mem_followableKeys_iff] at hsame
    exact absurd (Bool.eq_iff_iff.mpr hsame) hdiffer

/-- A live type that a call drops was shown failing a check, or has been missing for the grace. -/
theorem dropped_cases {calls : List ScanCall} (hlive : ((afterCalls calls).live key).isSome = true)
    (hgone : ((afterCalls (calls ++ [c])).live key).isSome = false) :
    (∃ obs, shown c.scan key = some obs ∧ failedChecks (evaluate obs) ≠ []) ∨
      ∃ before d since, calls = before ++ d :: since ∧ removalGrace ≤ c.now - d.now ∧
        Judges d.scan key ∧ ∀ x ∈ d :: since ++ [c], shown x.scan key = none := by
  obtain ⟨prev, hprev, hfollow⟩ := live_iff.mp hlive
  have hafter := lookup_updateFromScan c.now c.scan c.generation (afterCalls calls) key
  change ((afterCalls calls).take c).entries.lookup key = _ at hafter
  rw [← afterCalls_append] at hafter
  rw [← Bool.not_eq_true, live_iff] at hgone
  cases hshown : shown c.scan key with
  | some obs =>
    rw [hshown] at hafter
    refine .inl ⟨obs, rfl, fun hnone => hgone ⟨_, hafter, ?_⟩⟩
    simp [RegistryEntry.record, recordFromObservation, deriveVerdict, hnone, TypeRecord.followable]
  | none =>
    rw [hshown, hprev] at hafter
    have hsound := afterCalls_sound hprev
    cases hheld : heldEntry c.now c.scan key prev with
    | some e =>
      obtain ⟨he, hset⟩ := heldEntry_sound hsound hheld
      refine absurd ⟨e, hafter.trans hheld, ?_⟩ hgone
      rwa [he.followable_iff, hset, ← hsound.followable_iff]
    | none =>
      -- not held: the grace is over, so the clock was running
      have hexpire : removalGrace ≤ c.now - prev.absentSince.getD c.now := by
        unfold heldEntry at hheld
        split at hheld
        · cases hheld
        · by_contra hrun
          simp only [retainedEntry, hfollow, ge_iff_le, decide_eq_false hrun] at hheld
          have hkept : (recordFromObservation { prev.obs with
              served := false, absenceExpired := false }).followable = true :=
            (followable_iff _).mpr ⟨.inr hsound.1, rfl, hsound.followable_iff.mp hfollow⟩
          simp [hkept] at hheld
      cases habsent : prev.absentSince with
      | none =>
        rw [habsent] at hexpire
        simp [removalGrace, second] at hexpire
      | some t =>
        rw [habsent] at hexpire
        obtain ⟨before, d, since, hcall, hnow, hjudge, hunseen⟩ := absent_since hprev habsent
        refine .inr ⟨before, d, since, hcall, by rw [hnow]; exact hexpire, hjudge, fun x hx => ?_⟩
        rcases List.mem_append.mp hx with hx | hx
        · exact hunseen x hx
        · rwa [List.mem_singleton.mp hx]

/-- A type leaves the live set by a failed check or by the grace, its clock is started only by a scan
    that judged it and did not show it, and a change of the live set moves the revision by one,
    upwards as long as the 64-bit counter does not wrap. -/
theorem removal_grace_kept (c : ScanCall) : (∀ key, ((afterCalls calls).live key).isSome = true →
      ((afterCalls (calls ++ [c])).live key).isSome = false →
      (∃ obs, shown c.scan key = some obs ∧ failedChecks (evaluate obs) ≠ []) ∨
        ∃ before d since, calls = before ++ d :: since ∧ removalGrace ≤ c.now - d.now ∧
          Judges d.scan key ∧ ∀ x ∈ d :: since ++ [c], shown x.scan key = none) ∧
    (∀ key e e', (afterCalls calls).entries.lookup key = some e → e.absentSince = none →
      (afterCalls (calls ++ [c])).entries.lookup key = some e' → e'.absentSince ≠ none →
      shown c.scan key = none ∧ Judges c.scan key) ∧
    ((∃ key, ((afterCalls calls).live key).isSome ≠ ((afterCalls (calls ++ [c])).live key).isSome) →
      (afterCalls (calls ++ [c])).revision = ((afterCalls calls).revision + 1) % 2 ^ 64 ∧
        ((afterCalls calls).revision ≠ 2 ^ 64 - 1 →
          (afterCalls calls).revision < (afterCalls (calls ++ [c])).revision)) := by
  refine ⟨fun key => dropped_cases, ?_, ?_⟩
  · intro key e e' he hobserved he' habsent
    rw [afterCalls_append, Registry.take, lookup_updateFromScan] at he'
    split at he'
    · cases he'
      exact absurd rfl habsent
    · rename_i hshown
      rw [he, Option.bind_some] at he'
      obtain ⟨t, ht⟩ := Option.ne_none_iff_exists'.mp habsent
      rcases heldEntry_absent he' ht with hsame | ⟨-, -, hjudges⟩
      · rw [hobserved] at hsame
        cases hsame
      · exact ⟨hshown, hjudges⟩
  · intro hchange
    rw [afterCalls_append] at hchange ⊢
    simp only [Registry.revision, changes_take_of_live _ c hchange]
    omega

/-- A type of the group `example.com` that the cluster serves. -/
def servedType (kind resource : String) (namespaced : Bool) : Entry :=
  ⟨⟨"example.com", "v1", kind⟩, ⟨"example.com", "v1", resource⟩, namespaced,
    ["get", "list", "watch"], true, false, true, false⟩

def completeScan (seconds : Int) (entries : List Entry) : ScanCall :=
  ⟨seconds * second, ⟨entries, [], [], true⟩, 0⟩

def widgets : Identity :=
  ⟨⟨"example.com", "v1", "Widget"⟩, ⟨"example.com", "v1", "widgets"⟩, .namespaced⟩

theorem widgets_leave_after_grace :
    let calls := [completeScan 0 [servedType "Widget" "widgets" true], completeScan 10 []]
    ((afterCalls calls).live widgets).isSome = true ∧
      ∃ before d since, calls = before ++ d :: since ∧ removalGrace ≤ 70 * second - d.now ∧
        Judges d.scan widgets ∧ ∀ x ∈ d :: since ++ [completeScan 70 []], shown x.scan widgets = none := by
  refine ⟨by decide +kernel, ?_⟩
  have hmissing : shown (completeScan 70 []).scan widgets = none := by decide +kernel
  rcases (removal_grace_kept [completeScan 0 [servedType "Widget" "widgets" true],
    completeScan 10 []] (completeScan 70 [])).1 widgets (by decide +kernel) (by decide +kernel) with
    ⟨obs, hshown, -⟩ | hgrace
  · rw [hmissing] at hshown
    cases hshown
  · exact hgrace

/-- `n` scans that show nothing, each of a new generation. -/
def idleCalls (n : Nat) : List ScanCall :=
  (List.range n).map (fun i => ⟨0, ⟨[], [], [], true⟩, i + 1⟩)

theorem afterCalls_idle (n : Nat) : (afterCalls (idleCalls n)).entries = ∅ ∧
    (afterCalls (idleCalls n)).generation = n ∧ (afterCalls (idleCalls n)).changes = n := by
  induction n with
  | zero => exact ⟨rfl, rfl, rfl⟩
  | succ n ih =>
    obtain ⟨hempty, hgeneration, hchanges⟩ := ih
    have hlast : idleCalls (n + 1) = idleCalls n ++ [⟨0, ⟨[], [], [], true⟩, n + 1⟩] := by
      simp [idleCalls, List.range_succ]
    rw [hlast, afterCalls_append]
    refine ⟨?_, rfl, ?_⟩
    · simp only [Registry.take, Registry.updateFromScan, Registry.update, hempty]
      rfl
    · rw [changes_take, hgeneration, hchanges, if_pos (by simp)]

/-- After 2^64 - 1 changes the next one leaves the revision at 0. -/
theorem revision_wraps : let calls := idleCalls (2 ^ 64 - 1)
    let c : ScanCall := ⟨0, ⟨[servedType "Widget" "widgets" true], [], [], true⟩, 2 ^ 64 - 1⟩
    ((afterCalls calls).live widgets).isSome ≠ ((afterCalls (calls ++ [c])).live widgets).isSome ∧
      ¬ (afterCalls calls).revision < (afterCalls (calls ++ [c])).revision := by
  obtain ⟨hempty, -, hchanges⟩ := afterCalls_idle (2 ^ 64 - 1)
  generalize idleCalls (2 ^ 64 - 1) = calls at hempty hchanges
  intro calls' c
  have hbefore : ((afterCalls calls).live widgets).isSome = false := by
    rw [Registry.live, hempty]
    rfl
  have hshown : ∃ obs, shown c.scan widgets = some obs ∧
      (recordFromObservation obs).followable = true := ⟨_, rfl, by decide +kernel⟩
  obtain ⟨obs, hobs, hfollowable⟩ := hshown
  have hafter : (((afterCalls calls).take c).live widgets).isSome = true :=
    live_iff.mpr ⟨⟨obs, none⟩, updateFromScan_shown _ _ _ hobs, hfollowable⟩
  have hdiffer : ((afterCalls calls).live widgets).isSome ≠
      (((afterCalls calls).take c).live widgets).isSome := by
    rw [hbefore, hafter]
    decide
  rw [afterCalls_append]
  refine ⟨hdiffer, ?_⟩
  rw [Registry.revision, Registry.revision, changes_take_of_live _ c ⟨widgets, hdiffer⟩, hchanges]
  decide

/-! ## 4. Kinds and resources -/

/-- The entries in some order, as a map is ranged over. -/
abbrev Arrangement := List ((_ : Identity) × RegistryEntry)

def byGVRIn (order : Arrangement) (gvr : GroupVersionResource) : Option TypeRecord :=
  (order.filter (fun e => e.1.gvr = gvr)).getLast?.map (fun e => e.2.record)

/-- `ByGVK`: the first entry of the kind, sorted by resource. -/
def byGVKIn (order : Arrangement) (gvk : GroupVersionKind) : Option TypeRecord :=
  ((order.filter (fun e => e.1.gvk = gvk)).insertionSort
    (fun a b => a.1.gvr.toString ≤ b.1.gvr.toString)).head?.map (fun e => e.2.record)

/-- Live kinds and resources are one to one, and no answer depends on the order of the map. -/
structure Registry.Exact (r : Registry) : Prop where
  oneToOne : ∀ a b, (r.live a).isSome = true → (r.live b).isSome = true →
    (a.gvk = b.gvk ∨ a.gvr = b.gvr) → a = b
  byGVR : ∀ order : Arrangement, order.Perm r.entries.entries →
    ∀ gvr, byGVRIn order gvr = byGVRIn r.entries.entries gvr
  byGVK : ∀ order : Arrangement, order.Perm r.entries.entries →
    ∀ gvk, byGVKIn order gvk = byGVKIn r.entries.entries gvk

/-- No type of the scan goes by the resource of another, or of one that is still held, and no live
    one by the kind of a live one that is still held. -/
structure Separate (r : Registry) (c : ScanCall) : Prop where
  shown : ∀ a b oa ob, shown c.scan a = some oa → shown c.scan b = some ob →
    a.gvr.toString = b.gvr.toString → a = b
  held : ∀ a b obs prev, Typeset.shown c.scan a = some obs → Typeset.shown c.scan b = none →
    r.entries.lookup b = some prev → (heldEntry c.now c.scan b prev).isSome = true →
    a.gvr.toString ≠ b.gvr.toString ∧
      ((recordFromObservation obs).followable = true → prev.record.followable = true → a.gvk ≠ b.gvk)

/-- What separate scans keep: resources print differently, and live kinds are told apart. -/
structure Registry.Apart (r : Registry) : Prop where
  sound : ∀ key e, r.entries.lookup key = some e → e.Sound
  resources : ∀ a b ea eb, r.entries.lookup a = some ea → r.entries.lookup b = some eb →
    a.gvr.toString = b.gvr.toString → a = b
  kinds : ∀ a b ea eb, r.entries.lookup a = some ea → r.entries.lookup b = some eb →
    ea.record.followable = true → eb.record.followable = true → a.gvk = b.gvk → a = b

theorem gvr_eq_of_shown {a b : Identity} {oa ob : Observation} (ha : shown scan a = some oa)
    (hb : shown scan b = some ob) (hlive : (recordFromObservation oa).followable = true)
    (hkind : a.gvk = b.gvk) : a.gvr = b.gvr := by
  obtain ⟨ea, hea, htopa, rfl, rfl⟩ := exists_of_shown ha
  obtain ⟨eb, heb, htopb, rfl, rfl⟩ := exists_of_shown hb
  have hunique : (distinctGVRsByGVK scan.entries ea.gvk).length = 1 := by
    have hpass := ((followable_iff _).mp hlive).2.2
      ⟨.identity, identityCheck (observationFromEntry scan.entries ea)⟩ (by simp [evaluate])
    by_contra hmany
    exact hpass .gvkNotUnique (by simp [identityCheck, observationFromEntry, hmany])
  have hlist : ∀ x ∈ scan.entries, x.subresource = false → x.gvk = ea.gvk →
      x.gvr ∈ distinctGVRsByGVK scan.entries ea.gvk := by
    intro x hx htop hgvk
    rw [distinctGVRsByGVK, List.mem_dedup]
    exact List.mem_map.mpr ⟨x, by simp [hx, htop, hgvk], rfl⟩
  obtain ⟨gvr, hgvr⟩ := List.length_eq_one_iff.mp hunique
  have hga := hlist ea hea htopa rfl
  have hgb := hlist eb heb htopb hkind.symm
  rw [hgvr, List.mem_singleton] at hga hgb
  exact hga.trans hgb.symm

theorem Registry.Apart.take (h : r.Apart) (hsep : Separate r c) : (r.take c).Apart := by
  have hcases : ∀ key e, (r.take c).entries.lookup key = some e →
      shown c.scan key = some e.obs ∨ (shown c.scan key = none ∧
        ∃ prev, r.entries.lookup key = some prev ∧ heldEntry c.now c.scan key prev = some e) := by
    intro key e he
    rw [Registry.take, lookup_updateFromScan] at he
    split at he
    · rename_i obs hshown
      cases he
      exact .inl hshown
    · rename_i hshown
      exact .inr ⟨hshown, Option.bind_eq_some_iff.mp he⟩
  have hlive : ∀ key prev e, r.entries.lookup key = some prev →
      heldEntry c.now c.scan key prev = some e → e.record.followable = true →
      prev.record.followable = true := by
    intro key prev e hprev hheld hfollow
    obtain ⟨he, hset⟩ := heldEntry_sound (h.sound key prev hprev) hheld
    rwa [(h.sound key prev hprev).followable_iff, ← hset, ← he.followable_iff]
  refine ⟨fun key e he => ?_, fun a b ea eb ha hb hgvr => ?_, fun a b ea eb ha hb hfa hfb hgvk => ?_⟩
  · rcases hcases key e he with hshown | ⟨-, prev, hprev, hheld⟩
    · obtain ⟨entry, -, -, hobs, -⟩ := exists_of_shown hshown
      rw [RegistryEntry.Sound, ← hobs]
      exact ⟨rfl, rfl⟩
    · exact (heldEntry_sound (h.sound key prev hprev) hheld).1
  · rcases hcases a ea ha with hsa | ⟨hna, pa, hpa, hha⟩ <;>
      rcases hcases b eb hb with hsb | ⟨hnb, pb, hpb, hhb⟩
    · exact hsep.shown a b _ _ hsa hsb hgvr
    · exact absurd hgvr (hsep.held a b _ pb hsa hnb hpb (by rw [hhb]; rfl)).1
    · exact absurd hgvr.symm (hsep.held b a _ pa hsb hna hpa (by rw [hha]; rfl)).1
    · exact h.resources a b pa pb hpa hpb hgvr
  · rcases hcases a ea ha with hsa | ⟨hna, pa, hpa, hha⟩ <;>
      rcases hcases b eb hb with hsb | ⟨hnb, pb, hpb, hhb⟩
    · exact hsep.shown a b _ _ hsa hsb (congrArg _ (gvr_eq_of_shown hsa hsb hfa hgvk))
    · exact absurd hgvk ((hsep.held a b _ pb hsa hnb hpb (by rw [hhb]; rfl)).2 hfa
        (hlive b pb eb hpb hhb hfb))
    · exact absurd hgvk.symm ((hsep.held b a _ pa hsb hna hpa (by rw [hha]; rfl)).2 hfb
        (hlive a pa ea hpa hha hfa))
    · exact h.kinds a b pa pb hpa hpb (hlive a pa ea hpa hha hfa) (hlive b pb eb hpb hhb hfb) hgvk

theorem sorted_eq_of_perm {order order' : Arrangement} (hperm : order.Perm order')
    (hprint : ∀ x ∈ order', ∀ y ∈ order', x.1.gvr.toString = y.1.gvr.toString → x = y) :
    order.insertionSort (fun a b => a.1.gvr.toString ≤ b.1.gvr.toString) =
      order'.insertionSort (fun a b => a.1.gvr.toString ≤ b.1.gvr.toString) := by
  let le (a b : (_ : Identity) × RegistryEntry) := a.1.gvr.toString ≤ b.1.gvr.toString
  have : Std.Total le := ⟨fun a b => le_total a.1.gvr.toString b.1.gvr.toString⟩
  have : IsTrans _ le := ⟨fun _ _ _ => le_trans⟩
  have hsame := ((List.perm_insertionSort le order).trans hperm).trans
    (List.perm_insertionSort le order').symm
  refine hsame.eq_of_pairwise (fun x y hx hy hxy hyx => ?_)
    (List.pairwise_insertionSort le order) (List.pairwise_insertionSort le order')
  rw [List.mem_insertionSort] at hx hy
  exact hprint x (hperm.mem_iff.mp hx) y hy (le_antisymm hxy hyx)

theorem Registry.Apart.exact (h : r.Apart) : r.Exact := by
  have hprint : ∀ x ∈ r.entries.entries, ∀ y ∈ r.entries.entries,
      x.1.gvr.toString = y.1.gvr.toString → x = y := by
    rintro ⟨a, ea⟩ hx ⟨b, eb⟩ hy hprint
    have ha := mem_entries_iff.mp hx
    have hb := mem_entries_iff.mp hy
    obtain rfl : a = b := h.resources a b ea eb ha hb hprint
    rw [ha] at hb
    cases hb
    rfl
  refine ⟨fun a b ha hb hsame => ?_, fun order hperm gvr => ?_, fun order hperm gvk => ?_⟩
  · obtain ⟨ea, hea, hfa⟩ := live_iff.mp ha
    obtain ⟨eb, heb, hfb⟩ := live_iff.mp hb
    rcases hsame with hgvk | hgvr
    · exact h.kinds a b ea eb hea heb hfa hfb hgvk
    · exact h.resources a b ea eb hea heb (congrArg _ hgvr)
  · -- one entry at most for a resource
    have hone : order.filter (fun e => e.1.gvr = gvr) =
        r.entries.entries.filter (fun e => e.1.gvr = gvr) := by
      have hany : ∀ l : Arrangement, l.Pairwise (fun _ _ => True) := fun l =>
        List.pairwise_of_forall (fun _ _ => trivial)
      refine (hperm.filter _).eq_of_pairwise (fun x y hx hy _ _ => ?_) (hany _) (hany _)
      simp only [List.mem_filter, decide_eq_true_eq] at hx hy
      exact hprint x (hperm.mem_iff.mp hx.1) y hy.1 (by rw [hx.2, hy.2])
    rw [byGVRIn, hone, byGVRIn]
  · rw [byGVKIn, byGVKIn, sorted_eq_of_perm (hperm.filter _) (fun x hx y hy =>
      hprint x (List.mem_filter.mp hx).1 y (List.mem_filter.mp hy).1)]

/-- As long as every scan is separate from what the registry holds, live kinds and resources are
    one to one and the answers are those of any order of the map. -/
theorem exact_of_separate_scans
    (h : AllSteps Registry.take Separate newRegistry calls) : (afterCalls calls).Exact := by
  refine (h.invariant (P := Registry.Apart) (fun r c hsep hr => hr.take hsep) ?_).exact
  have hempty : ∀ key e, newRegistry.entries.lookup key ≠ some e := by
    intro key e he
    cases he
  exact ⟨fun key e he => absurd he (hempty key e), fun a _ ea _ ha => absurd ha (hempty a ea),
    fun a _ ea _ ha => absurd ha (hempty a ea)⟩

def sprockets : Identity :=
  ⟨⟨"example.com", "v1", "Sprocket"⟩, ⟨"example.com", "v1", "sprockets"⟩, .cluster⟩

def gadgets : Identity :=
  ⟨⟨"example.com", "v1", "Gadget"⟩, ⟨"example.com", "v1", "gadgets"⟩, .cluster⟩

def firstScan : ScanCall :=
  completeScan 0 [servedType "Widget" "widgets" true, servedType "Sprocket" "sprockets" false]

def secondScan : ScanCall :=
  completeScan 10 [servedType "Sprocket" "sprockets" false, servedType "Gadget" "gadgets" false]

theorem firstScan_shown {obs : Observation} (h : shown firstScan.scan key = some obs) :
    key = widgets ∨ key = sprockets := by
  obtain ⟨entry, hentry, -, rfl, rfl⟩ := exists_of_shown h
  rcases (by simpa [firstScan, completeScan] using hentry : entry = _ ∨ entry = _) with rfl | rfl
  · exact .inl rfl
  · exact .inr rfl

theorem secondScan_shown {obs : Observation} (h : shown secondScan.scan key = some obs) :
    key = sprockets ∨ key = gadgets := by
  obtain ⟨entry, hentry, -, rfl, rfl⟩ := exists_of_shown h
  rcases (by simpa [secondScan, completeScan] using hentry : entry = _ ∨ entry = _) with rfl | rfl
  · exact .inl rfl
  · exact .inr rfl

/-- The second scan shows a new type and no widgets, which are held for the grace. -/
theorem held_type_stays_exact : ((afterCalls [firstScan, secondScan]).live widgets).isSome = true ∧
    (afterCalls [firstScan, secondScan]).Exact := by
  have hfirst : Separate newRegistry firstScan := by
    refine ⟨fun a b oa ob ha hb hprint => ?_, fun a b obs prev _ _ hprev => ?_⟩
    · rcases firstScan_shown ha with rfl | rfl <;> rcases firstScan_shown hb with rfl | rfl
      all_goals first | rfl | exact absurd hprint (by decide)
    · cases hprev
  have hsecond : Separate (newRegistry.take firstScan) secondScan := by
    refine ⟨fun a b oa ob ha hb hprint => ?_, fun a b obs prev ha hb hprev _ => ?_⟩
    · rcases secondScan_shown ha with rfl | rfl <;> rcases secondScan_shown hb with rfl | rfl
      all_goals first | rfl | exact absurd hprint (by decide)
    · -- what the registry knows and the scan does not show are the widgets
      rcases updateFromScan_cases _ _ _ _ hprev with hshown | ⟨_, hnone, -⟩
      · rcases firstScan_shown hshown with rfl | rfl
        · rcases secondScan_shown ha with rfl | rfl
          all_goals exact ⟨by decide, fun _ _ => by decide⟩
        · exact absurd hb (by decide +kernel)
      · cases hnone
  exact ⟨by decide +kernel, exact_of_separate_scans _ ⟨hfirst, hsecond, trivial⟩⟩

/-- The resource of a kind is renamed, and the old name is held for the grace: both are live. -/
theorem renamed_resource_held_twice :
    ¬ (afterCalls [completeScan 0 [servedType "Widget" "widgets" true],
      completeScan 10 [servedType "Widget" "widgetz" true]]).Exact := by
  intro h
  have hsame := h.oneToOne widgets
    { widgets with gvr := ⟨"example.com", "v1", "widgetz"⟩ } (by decide +kernel) (by decide +kernel)
    (.inl rfl)
  exact absurd hsame (by decide)

end GitopsReverser.Typeset
