import GitopsReverser.Reasoning.Separated
import GitopsReverser.Watch.ReplayObligation

/-!
# ListFallback — what a listed scope hands over

For an API server without streamed lists the watch is opened first and the scope is listed behind
it. Events of the watch up to the version of the list repeat what the list holds; those after it
are the changes since.
-/

namespace GitopsReverser.Watch

open Reasoning

variable {B D X : Type} (cfg : WatchConfig B D X)

/-! ## 1. Versions -/

theorem parseUint_toString {n : Nat} (h : n < 2 ^ 64) : parseUint (toString n) = some n := by
  have hdigits : ∀ c ∈ Nat.toDigits 10 n, c.isDigit = true :=
    fun c hc => Nat.isDigit_of_mem_toDigits (by decide) (by decide) hc
  have hvalue := @Nat.ofDigitChars_ten_toDigits n
  rw [Nat.ofDigitChars_eq_foldl] at hvalue
  unfold parseUint
  rw [toList_toString]
  simp only
  rw [if_neg, hvalue, if_pos h]
  simp only [not_or, Bool.not_eq_true', Bool.not_eq_false, List.all_eq_true]
  exact ⟨Nat.toDigits_ne_nil, hdigits⟩

variable {ev : WatchEvent B} {event : GitEvent D} {u : Unstructured B}
  {e : WatchEvent B × Answers B} {floor : String} {w : TargetWatch B D X}

theorem atOrBeforeFloor_iff {n r : Nat} (hn : n < 2 ^ 64) (hr : r < 2 ^ 64)
    (hversion : targetWatchEventResourceVersion ev = toString n) :
    targetWatchEventAtOrBeforeFloor ev (toString r) = true ↔ n ≤ r := by
  unfold targetWatchEventAtOrBeforeFloor
  rw [hversion, parseUint_toString hn, parseUint_toString hr]
  simp

/-! ## 2. Changes -/

def selectedChange (ev : WatchEvent B) : Option (Unstructured B × GitEvent D) :=
  match operationForWatchEvent ev.type, ev.object with
  | some _, .unstructured u =>
    let op := operationForLiveTargetWatchEvent ev.type u
    if cfg.ops.matches op then some (u, targetWatchGitEvent cfg.sanitize cfg.key.gvr u op)
    else none
  | _, _ => none

theorem route_eq_none_iff (h : selectedChange cfg ev = some (u, event)) (answer : RouteAnswer) :
    routeToGitTargetEventStream cfg answer event = none ↔ answer = .accepted := by
  have hcontent : event.object.isNone = true → event.operation = some .delete := by
    unfold selectedChange at h
    split at h
    · simp only at h
      split at h
      · cases h
        simp [targetWatchGitEvent]
      · cases h
    · cases h
  unfold routeToGitTargetEventStream
  cases answer with
  | accepted | noStream => simp
  | queueFull =>
    simp only [reduceCtorEq, iff_false]
    split
    · rename_i hdropped
      simp only [Bool.and_eq_true, decide_eq_true_eq] at hdropped
      exact absurd (hcontent hdropped.1) hdropped.2
    · simp

def recordsCursor (ev : WatchEvent B) : Bool :=
  cfg.hasCursors && decide (targetWatchEventResourceVersion ev ≠ "")

theorem recordTargetWatchCursor_eq (ev : WatchEvent B) (a : Answers B) (w : TargetWatch B D X) :
    recordTargetWatchCursor cfg a (targetWatchEventResourceVersion ev) w =
      match recordsCursor cfg ev, a.storeError with
      | false, _ => .ok w
      | true, some err => .error err
      | true, none => .ok { w with cursor := some (targetWatchEventResourceVersion ev) } := by
  have hiff : recordsCursor cfg ev = false ↔
      cfg.hasCursors = false ∨ targetWatchEventResourceVersion ev = "" := by
    rw [recordsCursor, Bool.and_eq_false_iff]
    simp
  unfold recordTargetWatchCursor
  cases hrecords : recordsCursor cfg ev with
  | false => rw [if_pos (hiff.mp hrecords)]
  | true =>
    rw [if_neg (by rw [← hiff, hrecords]; simp)]
    cases a.storeError <;> rfl

variable [DecidableEq X]

def unchanged (dedup : String → Option X) (u : Unstructured B) (event : GitEvent D) : Bool :=
  decide (event.operation = some .update) && (event.object.bind cfg.hash).any
      (fun hash => decide (dedup (liveContentDedupKey cfg u) = some hash))

theorem skipUnchangedLiveUpdate_snd (dedup : String → Option X) (u : Unstructured B)
    (event : GitEvent D) :
    (skipUnchangedLiveUpdate cfg u event dedup).2 = unchanged cfg dedup u event := by
  unfold skipUnchangedLiveUpdate unchanged
  simp only
  by_cases hdelete : event.operation = some .delete
  · simp [hdelete]
  · rw [if_neg hdelete]
    cases event.object.bind cfg.hash with
    | none => simp
    | some hash =>
      simp only [Option.any_some]
      by_cases hskip : event.operation = some .update ∧ dedup (liveContentDedupKey cfg u) = some hash
      · rw [if_pos hskip]
        simp [hskip]
      · rw [if_neg hskip]
        simpa using hskip

theorem route_of_no_change (h : selectedChange cfg ev = none) (a : Answers B)
    (w : TargetWatch B D X) : ∃ result, routeLiveTargetWatchEvent cfg ev a w = (w, result) ∧
      ((ev.type = .error ∧ ∃ err, result = .error err) ∨
        ev.type ≠ .error ∧ result = .ok (targetWatchEventResourceVersion ev)) := by
  unfold selectedChange at h
  unfold routeLiveTargetWatchEvent
  cases htype : ev.type with
  | error => exact ⟨_, rfl, .inl ⟨rfl, _, rfl⟩⟩
  | bookmark | other => exact ⟨_, rfl, .inr ⟨by simp, rfl⟩⟩
  | added | modified | deleted =>
    simp only [htype, operationForWatchEvent] at h ⊢
    cases hobject : ev.object with
    | unstructured u =>
      simp only [hobject] at h ⊢
      split at h
      · cases h
      · rename_i hops
        rw [if_pos (by simpa using hops)]
        exact ⟨_, rfl, .inr ⟨by simp, rfl⟩⟩
    | _ => exact ⟨_, rfl, .inr ⟨by simp, rfl⟩⟩

theorem route_of_change (h : selectedChange cfg ev = some (u, event)) (a : Answers B)
    (w : TargetWatch B D X) :
    routeLiveTargetWatchEvent cfg ev a w =
      let rv := targetWatchEventResourceVersion ev
      match skipUnchangedLiveUpdate cfg u event w.dedup with
      | (dedup, true) => ({ w with dedup := dedup, trace := .skipped u event :: w.trace }, .ok rv)
      | (dedup, false) =>
        match routeToGitTargetEventStream cfg a.route event with
        | some err =>
          ({ w with dedup := dedup, trace := .routeFailed u event :: w.trace }, .error err)
        | none => ({ w with dedup := dedup, trace := .routed u event :: w.trace }, .ok rv) := by
  unfold selectedChange at h
  unfold routeLiveTargetWatchEvent
  cases htype : ev.type with
  | bookmark | error | other =>
    simp only [htype, operationForWatchEvent] at h
    cases h
  | added | modified | deleted =>
    simp only [htype, operationForWatchEvent] at h ⊢
    cases hobject : ev.object with
    | unstructured u' =>
      simp only [hobject] at h ⊢
      split_ifs at h with hops
      cases h
      exact if_neg (by simpa using hops)
    | _ =>
      rw [hobject] at h
      cases h

theorem route_cases (h : selectedChange cfg ev = some (u, event)) (a : Answers B)
    (w : TargetWatch B D X) :
    ∃ dedup, (unchanged cfg w.dedup u event = true ∧ routeLiveTargetWatchEvent cfg ev a w =
        ({ w with dedup := dedup, trace := .skipped u event :: w.trace },
          .ok (targetWatchEventResourceVersion ev))) ∨
      (unchanged cfg w.dedup u event = false ∧ a.route = .accepted ∧
        routeLiveTargetWatchEvent cfg ev a w =
          ({ w with dedup := dedup, trace := .routed u event :: w.trace },
            .ok (targetWatchEventResourceVersion ev))) ∨
      unchanged cfg w.dedup u event = false ∧ a.route ≠ .accepted ∧ ∃ err,
        routeLiveTargetWatchEvent cfg ev a w =
          ({ w with dedup := dedup, trace := .routeFailed u event :: w.trace }, .error err) := by
  rw [route_of_change cfg h, ← skipUnchangedLiveUpdate_snd]
  cases hskip : skipUnchangedLiveUpdate cfg u event w.dedup with
  | mk dedup skip =>
    refine ⟨dedup, ?_⟩
    cases skip with
    | true => exact .inl ⟨rfl, rfl⟩
    | false =>
      -- not a repetition: the event goes to the stream, which takes it or answers an error
      right
      have hiff := route_eq_none_iff cfg h a.route
      simp only
      cases hroute : routeToGitTargetEventStream cfg a.route event with
      | none => exact .inl ⟨trivial, hiff.mp hroute, rfl⟩
      | some err =>
        refine .inr ⟨trivial, fun haccepted => ?_, err, rfl⟩
        rw [hiff.mpr haccepted] at hroute
        cases hroute

/-! ## 3. One event of a listed session -/

def streamStep (w : TargetWatch B D X) (e : WatchEvent B × Answers B) : TargetWatch B D X :=
  handleEvent cfg e.1 e.2 w

/-- What is handed over of an event past the list's version. -/
def noteFor (w : TargetWatch B D X) (e : WatchEvent B × Answers B) : Option (WatchNote B D) :=
  match selectedChange cfg e.1 with
  | none => none
  | some (u, event) =>
    if unchanged cfg w.dedup u event then some (.skipped u event)
    else if e.2.route = .accepted then some (.routed u event)
    else some (.routeFailed u event)

/-- An event past the list's version ends the session if it is an error, if its change is not
    accepted, or if the cursor cannot be stored. -/
def endsSession (w : TargetWatch B D X) (e : WatchEvent B × Answers B) : Bool :=
  decide (e.1.type = .error) ||
    (match selectedChange cfg e.1 with
      | none => false
      | some (u, event) => !unchanged cfg w.dedup u event && decide (e.2.route ≠ .accepted)) ||
    (recordsCursor cfg e.1 && e.2.storeError.isSome)

/-- While the session lasts: an event up to the list's version is passed over, and a selected
change after it is handed over once unless it is an unchanged update. An event that ends the session
leaves the cursor as it was; every other one leaves its own version, and the session goes on. -/
def HandsOverSince (floor : String) (w : TargetWatch B D X) (e : WatchEvent B × Answers B) : Prop :=
  w.phase = .listed floor →
    let w' := streamStep cfg w e
    if targetWatchEventAtOrBeforeFloor e.1 floor then w' = w
    else w'.trace = (noteFor cfg w e).toList ++ w.trace ∧
      if endsSession cfg w e then w'.phase = .waiting ∧ w'.cursor = w.cursor
      else w'.phase = .listed floor ∧ w'.cursor =
        if recordsCursor cfg e.1 then some (targetWatchEventResourceVersion e.1) else w.cursor

theorem routeAndRecord_of_error {w₁ : TargetWatch B D X} {a : Answers B} {err : String}
    (h : routeLiveTargetWatchEvent cfg ev a w = (w₁, .error err)) :
    (routeAndRecord cfg ev a w).trace = w₁.trace ∧ (routeAndRecord cfg ev a w).phase = .waiting ∧
      (routeAndRecord cfg ev a w).cursor = w₁.cursor := by
  simp [routeAndRecord, h, endSession, mark]

theorem routeAndRecord_of_ok {w₁ : TargetWatch B D X} {a : Answers B}
    (h : routeLiveTargetWatchEvent cfg ev a w = (w₁, .ok (targetWatchEventResourceVersion ev))) :
    (routeAndRecord cfg ev a w).trace = w₁.trace ∧
      if recordsCursor cfg ev && a.storeError.isSome then
        (routeAndRecord cfg ev a w).phase = .waiting ∧
          (routeAndRecord cfg ev a w).cursor = w₁.cursor
      else (routeAndRecord cfg ev a w).phase = w.phase ∧ (routeAndRecord cfg ev a w).cursor =
        if recordsCursor cfg ev then some (targetWatchEventResourceVersion ev) else w₁.cursor := by
  have hphase : w₁.phase = w.phase := by
    have hframe := (routeLiveTargetWatchEvent_frame cfg ev a w).2.2
    rwa [h] at hframe
  unfold routeAndRecord
  simp only [h, recordTargetWatchCursor_eq]
  -- the cursor is written after the event was routed; if that fails the watch starts again
  cases recordsCursor cfg ev <;> cases a.storeError <;> simp [endSession, mark, hphase]

theorem streamStep_past_floor (hphase : w.phase = .listed floor)
    (hnew : targetWatchEventAtOrBeforeFloor e.1 floor = false) (htype : e.1.type ≠ .error) :
    streamStep cfg w e = routeAndRecord cfg e.1 e.2 w := by
  have hexpired : targetWatchExpired e.1 = false := by
    cases hexpired : targetWatchExpired e.1 with
    | false => rfl
    | true => simp_all [targetWatchExpired]
  simp [streamStep, handleEvent, hphase, hnew, hexpired]

theorem hands_over_no_change (hphase : w.phase = .listed floor)
    (hnew : targetWatchEventAtOrBeforeFloor e.1 floor = false)
    (hchange : selectedChange cfg e.1 = none) : HandsOverSince cfg floor w e := by
  intro _
  simp only [hnew, Bool.false_eq_true, if_false, noteFor, endsSession, hchange, Bool.or_false]
  obtain ⟨result, hroute, ⟨htype, err, rfl⟩ | ⟨htype, rfl⟩⟩ := route_of_no_change cfg hchange e.2 w
  · simp only [htype, decide_true, Bool.true_or, if_true]
    simp only [streamStep, handleEvent, hphase, hnew, Bool.false_eq_true, if_false]
    split
    · exact ⟨rfl, rfl, rfl⟩
    · exact routeAndRecord_of_error cfg hroute
  · rw [streamStep_past_floor cfg hphase hnew htype]
    simpa [htype, hphase] using routeAndRecord_of_ok cfg hroute

theorem hands_over_change (hphase : w.phase = .listed floor)
    (hnew : targetWatchEventAtOrBeforeFloor e.1 floor = false)
    (hchange : selectedChange cfg e.1 = some (u, event)) : HandsOverSince cfg floor w e := by
  intro _
  have htype : e.1.type ≠ .error := by
    intro htype
    simp [selectedChange, htype, operationForWatchEvent] at hchange
  simp only [hnew, Bool.false_eq_true, if_false, noteFor, endsSession, hchange]
  rw [streamStep_past_floor cfg hphase hnew htype]
  obtain ⟨dedup, ⟨hunchanged, hroute⟩ | ⟨hunchanged, haccepted, hroute⟩ |
    ⟨hunchanged, hrefused, err, hroute⟩⟩ := route_cases cfg hchange e.2 w
  · simpa [htype, hunchanged, hphase] using routeAndRecord_of_ok cfg hroute
  · simpa [htype, hunchanged, haccepted, hphase] using routeAndRecord_of_ok cfg hroute
  · simpa [htype, hunchanged, hrefused] using routeAndRecord_of_error cfg hroute

theorem hands_over (floor : String) (w : TargetWatch B D X) (e : WatchEvent B × Answers B) :
    HandsOverSince cfg floor w e := by
  intro hphase
  cases hfloor : targetWatchEventAtOrBeforeFloor e.1 floor with
  | true => simp [streamStep, handleEvent, hphase, hfloor]
  | false =>
    have hstep : HandsOverSince cfg floor w e := by
      cases hchange : selectedChange cfg e.1 with
      | none => exact hands_over_no_change cfg hphase hfloor hchange
      | some change => exact hands_over_change cfg hphase hfloor hchange
    simpa [hfloor] using hstep hphase

/-! ## 4. The whole session -/

/-- The note that an event past the floor leaves: none unless it is a selected change. -/
def NoteOf (ev : WatchEvent B) (note : Option (WatchNote B D)) : Prop :=
  match selectedChange cfg ev with
  | none => note = none
  | some (u, event) =>
    note = some (.routed u event) ∨ note = some (.skipped u event) ∨ note = some (.routeFailed u event)

theorem noteOf_noteFor (w : TargetWatch B D X) (e : WatchEvent B × Answers B) :
    NoteOf cfg e.1 (noteFor cfg w e) := by
  unfold NoteOf noteFor
  split
  · rfl
  · simp only
    split_ifs
    · exact .inr (.inl rfl)
    · exact .inl rfl
    · exact .inr (.inr rfl)

def newer (floor : String) (events : List (WatchEvent B × Answers B)) : List (WatchEvent B) :=
  (events.map Prod.fst).filter (fun ev => !targetWatchEventAtOrBeforeFloor ev floor)

theorem newer_append (floor : String) (events events' : List (WatchEvent B × Answers B)) :
    newer floor (events ++ events') = newer floor events ++ newer floor events' := by
  rw [newer, newer, newer, List.map_append, List.filter_append]

theorem waiting_stays (events : List (WatchEvent B × Answers B))
    (hphase : w.phase = .waiting) : events.foldl (streamStep cfg) w = w := by
  induction events with
  | nil => rfl
  | cons e events ih =>
    have hsame : streamStep cfg w e = w := by simp [streamStep, handleEvent, hphase]
    rw [List.foldl_cons, hsame]
    exact ih

/-- The events of a session that were handled: all of them, or those up to the one past the list's
    version that ended it. -/
def HandledUntilEnd (floor : String) (w : TargetWatch B D X)
    (handled rest : List (WatchEvent B × Answers B)) :
    Prop :=
  ((handled.foldl (streamStep cfg) w).phase = .listed floor ∧ rest = []) ∨
    (handled.foldl (streamStep cfg) w).phase = .waiting ∧ ∃ before e, handled = before ++ [e] ∧
      targetWatchEventAtOrBeforeFloor e.1 floor = false ∧
      endsSession cfg (before.foldl (streamStep cfg) w) e = true

/-- The notes of a session are those of the events past the floor, in their order, up to the event
    that ended it. -/
theorem session_notes (floor : String) (events : List (WatchEvent B × Answers B))
    (w : TargetWatch B D X) (hphase : w.phase = .listed floor) :
    ∃ handled rest notes, events = handled ++ rest ∧ HandledUntilEnd cfg floor w handled rest ∧
      List.Forall₂ (NoteOf cfg) (newer floor handled) notes ∧
      (events.foldl (streamStep cfg) w).trace = (notes.filterMap id).reverse ++ w.trace := by
  -- on the events, as long as the session lasts
  induction events generalizing w with
  | nil => exact ⟨[], [], [], rfl, .inl ⟨hphase, rfl⟩, .nil, rfl⟩
  | cons e events ih =>
    -- a step after which the session goes on
    have hgoes : ∀ note : List (Option (WatchNote B D)),
        List.Forall₂ (NoteOf cfg) (newer floor [e]) note →
        (streamStep cfg w e).trace = (note.filterMap id).reverse ++ w.trace →
        (streamStep cfg w e).phase = .listed floor →
        ∃ handled rest notes, e :: events = handled ++ rest ∧ HandledUntilEnd cfg floor w handled rest ∧
          List.Forall₂ (NoteOf cfg) (newer floor handled) notes ∧
          ((e :: events).foldl (streamStep cfg) w).trace = (notes.filterMap id).reverse ++ w.trace := by
      intro note hnote htrace hlisted
      obtain ⟨handled, rest, notes, rfl, hhandled, hnotes, hrun⟩ := ih _ hlisted
      refine ⟨e :: handled, rest, note ++ notes, rfl, ?_, ?_, ?_⟩
      · rcases hhandled with hover | ⟨hwaiting, before, last, rfl, hends⟩
        · exact .inl hover
        · exact .inr ⟨hwaiting, e :: before, last, rfl, hends⟩
      · rw [← List.singleton_append, newer_append]
        exact List.rel_append hnote hnotes
      · rw [List.foldl_cons, hrun, htrace]
        simp
    have hstep := hands_over cfg floor w e hphase
    cases hfloor : targetWatchEventAtOrBeforeFloor e.1 floor with
    | true =>
      simp only [hfloor, if_true] at hstep
      exact hgoes [] (by simp [newer, hfloor]) (by simp [hstep]) (by rw [hstep, hphase])
    | false =>
      simp only [hfloor, Bool.false_eq_true, if_false] at hstep
      obtain ⟨htrace, hend⟩ := hstep
      have hnote : List.Forall₂ (NoteOf cfg) (newer floor [e]) [noteFor cfg w e] := by
        simpa [newer, hfloor] using noteOf_noteFor cfg w e
      have htrace : (streamStep cfg w e).trace = ([noteFor cfg w e].filterMap id).reverse ++ w.trace := by
        rw [htrace]
        cases noteFor cfg w e <;> simp
      cases hends : endsSession cfg w e with
      | false =>
        simp only [hends, Bool.false_eq_true, if_false] at hend
        exact hgoes _ hnote htrace hend.1
      | true =>
        simp only [hends, if_true] at hend
        refine ⟨[e], events, _, rfl, .inr ⟨hend.1, [], e, rfl, hfloor, hends⟩, hnote, ?_⟩
        rw [List.foldl_cons, waiting_stays cfg events hend.1, htrace]

/-- The stream behind a list, for every sequence of events: each event past the list's version is
handled once and in order until one of them ends the session, and each one up to it is passed over. -/
theorem list_fallback_hands_over (a : Answers B) (w : TargetWatch B D X) (r : Nat) (hr : r < 2 ^ 64)
    (hlisted : (targetWatchListAndStream cfg a w).phase = .listed (toString r))
    (events : List (WatchEvent B × Answers B)) :
    let start := targetWatchListAndStream cfg a w
    let run := events.foldl (streamStep cfg) start
    AllSteps (streamStep cfg) (HandsOverSince cfg (toString r)) start events ∧
      (∀ e ∈ events, ∀ n < 2 ^ 64, targetWatchEventResourceVersion e.1 = toString n →
        (targetWatchEventAtOrBeforeFloor e.1 (toString r) = true ↔ n ≤ r)) ∧
      ∃ handled rest notes, events = handled ++ rest ∧ HandledUntilEnd cfg (toString r) start handled rest ∧
        List.Forall₂ (NoteOf cfg) (newer (toString r) handled) notes ∧
        run.trace = (notes.filterMap id).reverse ++ start.trace := by
  refine ⟨?_, fun e _ n hn hversion => ?_, ?_⟩
  · exact AllSteps.of_forall (hands_over cfg (toString r)) _ events
  · exact atOrBeforeFloor_iff hn hr hversion
  · exact session_notes cfg (toString r) events _ hlisted

def fallbackAnswers : Answers Nat :=
  { calmAnswers with list := .ok ([⟨"default", "a", "uid-a", "9", [], none, 1⟩], "10") }

def fallbackEvents : List (WatchEvent Nat × Answers Nat) :=
  [(Change.event (.added ⟨"default", "a", "uid-a", "9", [], none, 1⟩), calmAnswers),
    (Change.event (.modified ⟨"default", "a", "uid-a", "11", [], none, 2⟩), calmAnswers),
    (Change.event (.modified ⟨"default", "a", "uid-a", "12", [], none, 2⟩), calmAnswers)]

def fallbackStart (cfg : WatchConfig Nat Nat Nat) : TargetWatch Nat Nat Nat :=
  targetWatchListAndStream cfg fallbackAnswers (declaredWatch none (fun _ => none) [])

def fallbackRun (cfg : WatchConfig Nat Nat Nat) : TargetWatch Nat Nat Nat :=
  fallbackEvents.foldl (streamStep cfg) (fallbackStart cfg)

def routedVersions (w : TargetWatch Nat Nat Nat) : List String :=
  w.trace.reverse.filterMap (fun note => match note with
    | .routed u _ => some u.resourceVersion
    | _ => none)

theorem fallback_routes_the_change : routedVersions (fallbackRun sampleWatchConfig) = ["11"] ∧
      (fallbackRun sampleWatchConfig).cursor = some "12" ∧
      ∃ handled rest notes, fallbackEvents = handled ++ rest ∧
        HandledUntilEnd sampleWatchConfig "10" (fallbackStart sampleWatchConfig) handled rest ∧
        List.Forall₂ (NoteOf sampleWatchConfig) (newer "10" handled) notes ∧
        (fallbackRun sampleWatchConfig).trace =
          (notes.filterMap id).reverse ++ (fallbackStart sampleWatchConfig).trace := by
  have h := list_fallback_hands_over sampleWatchConfig fallbackAnswers
    (declaredWatch none (fun _ => none) []) 10 (by decide) (by decide) fallbackEvents
  exact ⟨by decide, by decide, h.2.2⟩

/-- Changes newer than the list that are not routed: an update whose content the cache knows, and
every change but a deletion in a scope of deletions. -/
theorem fallback_does_not_route_all :
    (newer "10" fallbackEvents).map targetWatchEventResourceVersion = ["11", "12"] ∧
      routedVersions (fallbackRun sampleWatchConfig) = ["11"] ∧
      routedVersions (fallbackRun { sampleWatchConfig with ops := {.delete} }) = [] := by
  decide

end GitopsReverser.Watch
