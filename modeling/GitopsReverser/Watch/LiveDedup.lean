import GitopsReverser.Watch.ReplayObligation

/-!
# LiveDedup — skipped updates change nothing

`skipUnchangedLiveUpdate` compares an update with the last content it stored. The cache follows
what the worker accepted only while every route succeeds and every snapshot repeats what is
cached: it is written before the route, and snapshots do not write it.
-/

namespace GitopsReverser.Watch

open Reasoning

variable {B D X : Type} (cfg : WatchConfig B D X)

/-! ## 1. Accepted and delivered content -/

def lastVersion (uid : String) (objects : List (Unstructured B)) : Option (Unstructured B) :=
  objects.reverse.find? (fun u => u.uid = uid)

/-- The content last accepted for an object, by a live route or by a snapshot. -/
def acceptedContent (uid : String) : List (WatchNote B D) → Option D
  | [] => none
  | .routed u event :: trace => if u.uid = uid then event.object else acceptedContent uid trace
  | .snapshot objects :: _ => (lastVersion uid objects).map cfg.sanitize
  | .routeFailed _ _ :: trace => acceptedContent uid trace
  | .skipped _ _ :: trace => acceptedContent uid trace

/-- The content last delivered for an object, whatever became of it. -/
def deliveredContent (uid : String) : List (WatchNote B D) → Option D
  | [] => none
  | .routed u event :: trace => if u.uid = uid then event.object else deliveredContent uid trace
  | .snapshot objects :: _ => (lastVersion uid objects).map cfg.sanitize
  | .routeFailed u event :: trace => if u.uid = uid then event.object else deliveredContent uid trace
  | .skipped u event :: trace => if u.uid = uid then event.object else deliveredContent uid trace

/-- The last event of the object was refused, so the watch is to deliver it again. -/
def retrying (uid : String) : List (WatchNote B D) → Bool
  | [] => false
  | .routed u _ :: trace => if u.uid = uid then false else retrying uid trace
  | .snapshot _ :: _ => false
  | .routeFailed u _ :: trace => if u.uid = uid then true else retrying uid trace
  | .skipped u _ :: trace => if u.uid = uid then false else retrying uid trace

/-- Every skipped event carries the content accepted before it. -/
def SkipsAccepted : List (WatchNote B D) → Prop
  | [] => True
  | .skipped u event :: trace =>
    (∃ d, event.object = some d ∧ acceptedContent cfg u.uid trace = some d) ∧ SkipsAccepted trace
  | .routed _ _ :: trace => SkipsAccepted trace
  | .routeFailed _ _ :: trace => SkipsAccepted trace
  | .snapshot _ :: trace => SkipsAccepted trace

/-! ## 2. The condition on a step -/

/-- An object of the snapshot that has a cached hash has the content of that hash. -/
def SnapshotAgrees (dedup : String → Option X) (objects : List (Unstructured B)) : Prop :=
  ∀ u x u', dedup (liveContentDedupKey cfg u) = some x → lastVersion u.uid objects = some u' →
    cfg.hash (cfg.sanitize u') = some x

/-- So it is with the replay or list that the step hands over, if it does. -/
def HandedAgrees [DecidableEq X] (w : TargetWatch B D X) (input : WatchInput B) : Prop :=
  ∀ objects, (watchStep cfg w input).trace = .snapshot objects :: w.trace →
    SnapshotAgrees cfg w.dedup objects

/-- The hash tells the content of an event from the content last accepted. -/
def HashTells (w : TargetWatch B D X) (u : Unstructured B) : Prop :=
  ∀ d, acceptedContent cfg u.uid w.trace = some d →
    cfg.hash d = cfg.hash (cfg.sanitize u) → d = cfg.sanitize u

/-- A live creation or update can be hashed and is taken by the queue, and an update is of an
    object that the last snapshot or a later event holds. -/
def LiveAccepted (w : TargetWatch B D X) (ev : WatchEvent B) (a : Answers B) : Prop :=
  w.phase.isLive = true → ∀ u, ev.object = .unstructured u →
    (operationForLiveTargetWatchEvent ev.type u = some .create ∨
      operationForLiveTargetWatchEvent ev.type u = some .update) →
    a.route = .accepted ∧ (cfg.hash (cfg.sanitize u)).isSome = true ∧
    (operationForLiveTargetWatchEvent ev.type u = some .update →
      (w.dedup (liveContentDedupKey cfg u)).isSome = true →
      (acceptedContent cfg u.uid w.trace).isSome = true ∧ HashTells cfg w u)

def KeepsCache [DecidableEq X] (w : TargetWatch B D X) : WatchInput B → Prop
  | .session a => HandedAgrees cfg w (.session a)
  | .event ev a => HandedAgrees cfg w (.event ev a) ∧ LiveAccepted cfg w ev a
  | _ => True

/-- The cache holds hashes of accepted content, and nothing but refused events is outstanding. -/
structure CacheCurrent (w : TargetWatch B D X) : Prop where
  cache : ∀ u x d, w.dedup (liveContentDedupKey cfg u) = some x →
    acceptedContent cfg u.uid w.trace = some d → cfg.hash d = some x
  skips : SkipsAccepted cfg w.trace
  current : ∀ uid, retrying uid w.trace = false →
    acceptedContent cfg uid w.trace = deliveredContent cfg uid w.trace

theorem liveContentDedupKey_eq_iff (u v : Unstructured B) :
    liveContentDedupKey cfg u = liveContentDedupKey cfg v ↔ u.uid = v.uid := by
  unfold liveContentDedupKey
  constructor
  · intro h
    have hlist := congrArg String.toList h
    simp only [String.toList_append] at hlist
    exact String.toList_inj.mp (List.append_cancel_left hlist)
  · intro h
    rw [h]

/-! ## 3. The steps -/

variable {w w' : TargetWatch B D X} {dedup dedup' : String → Option X} {event : GitEvent D}
  {u : Unstructured B}

theorem CacheCurrent.same (h : CacheCurrent cfg w) (htrace : w'.trace = w.trace)
    (hdedup : w'.dedup = w.dedup) : CacheCurrent cfg w' := by
  refine ⟨?_, ?_, ?_⟩
  · rw [htrace, hdedup]
    exact h.cache
  · rw [htrace]
    exact h.skips
  · rw [htrace]
    exact h.current

theorem CacheCurrent.snapshot (h : CacheCurrent cfg w) {objects : List (Unstructured B)}
    (hagrees : SnapshotAgrees cfg w.dedup objects)
    (htrace : w'.trace = .snapshot objects :: w.trace) (hdedup : w'.dedup = w.dedup) :
    CacheCurrent cfg w' := by
  refine ⟨?_, ?_, ?_⟩
  · intro u x d hx hd
    rw [hdedup] at hx
    rw [htrace, acceptedContent] at hd
    -- the snapshot replaces what was accepted, and the cache stays
    obtain ⟨u', hu', rfl⟩ := Option.map_eq_some_iff.mp hd
    exact hagrees u x u' hx hu'
  · rw [htrace]
    exact h.skips
  · intro uid _
    rw [htrace, acceptedContent, deliveredContent]

theorem CacheCurrent.listed {a : Answers B} (h : CacheCurrent cfg w)
    (hagrees : ∀ objects, w'.trace = .snapshot objects :: w.trace → SnapshotAgrees cfg w.dedup objects)
    (hlisted : Listed cfg a w w') : CacheCurrent cfg w' := by
  rcases hlisted with hsame | ⟨items, revision, -, hsnapshot⟩
  · exact h.same cfg hsame.trace hsame.dedup
  · exact h.snapshot cfg (hagrees items hsnapshot.trace) hsnapshot.trace hsnapshot.dedup

theorem skip_spec [DecidableEq X] (h : skipUnchangedLiveUpdate cfg u event dedup = (dedup', true)) :
    dedup' = dedup ∧ event.operation = some .update ∧ ∃ d x, event.object = some d ∧
      cfg.hash d = some x ∧ dedup (liveContentDedupKey cfg u) = some x := by
  unfold skipUnchangedLiveUpdate at h
  simp only at h
  split at h
  · simp at h
  · split at h
    · simp at h
    · rename_i x hx
      split at h
      · rename_i hupdate
        obtain ⟨d, hd, hhash⟩ := Option.bind_eq_some_iff.mp hx
        exact ⟨(congrArg Prod.fst h).symm, hupdate.1, d, x, hd, hhash, hupdate.2⟩
      · simp at h

theorem route_spec [DecidableEq X] (h : skipUnchangedLiveUpdate cfg u event dedup = (dedup', false))
    (hhash : event.operation ≠ some .delete → (event.object.bind cfg.hash).isSome = true) :
    ∃ entry, dedup' = Function.update dedup (liveContentDedupKey cfg u) entry ∧
      entry = if event.operation = some .delete then none else event.object.bind cfg.hash := by
  unfold skipUnchangedLiveUpdate at h
  simp only at h
  split at h
  · rename_i hdel
    exact ⟨none, (congrArg Prod.fst h).symm, by rw [if_pos hdel]⟩
  · rename_i hdel
    obtain ⟨x, hx⟩ := Option.isSome_iff_exists.mp (hhash hdel)
    rw [hx] at h
    simp only at h
    split at h
    · simp at h
    · exact ⟨some x, (congrArg Prod.fst h).symm, by rw [if_neg hdel, hx]⟩

theorem LiveEvent.object_eq {ev : WatchEvent B} (h : LiveEvent cfg ev u event) :
    event.operation = operationForLiveTargetWatchEvent ev.type u ∧
      event.object = if event.operation = some .delete then none else some (cfg.sanitize u) := by
  rw [h.event]
  exact ⟨rfl, rfl⟩

theorem operation_cases (type : EventType) (u : Unstructured B)
    (h : operationForLiveTargetWatchEvent type u ≠ none) :
    operationForLiveTargetWatchEvent type u = some .delete ∨
      operationForLiveTargetWatchEvent type u = some .create ∨
      operationForLiveTargetWatchEvent type u = some .update := by
  unfold operationForLiveTargetWatchEvent at h ⊢
  by_cases hdel : u.deletionTimestamp ≠ none
  · exact Or.inl (if_pos hdel)
  · rw [if_neg hdel] at h ⊢
    cases type <;> simp [operationForWatchEvent] at h ⊢

/-- An event of `u` that is routed, whether it is taken or not, touches only the entry of `u`. -/
theorem CacheCurrent.routed (h : CacheCurrent cfg w) (u : Unstructured B) (event : GitEvent D)
    (entry : Option X)
    (hdedup : w'.dedup = Function.update w.dedup (liveContentDedupKey cfg u) entry)
    (htrace : w'.trace = .routed u event :: w.trace ∨ w'.trace = .routeFailed u event :: w.trace)
    (hentry : ∀ x d, entry = some x → acceptedContent cfg u.uid w'.trace = some d →
      cfg.hash d = some x) : CacheCurrent cfg w' := by
  -- notes about one object say nothing of another
  have hother : ∀ uid, u.uid ≠ uid → acceptedContent cfg uid w'.trace = acceptedContent cfg uid w.trace ∧
      deliveredContent cfg uid w'.trace = deliveredContent cfg uid w.trace ∧
      retrying uid w'.trace = retrying uid w.trace := by
    intro uid huid
    rcases htrace with htrace | htrace <;>
      simp [htrace, acceptedContent, deliveredContent, retrying, huid]
  refine ⟨?_, ?_, ?_⟩
  · intro v x d hx hd
    rw [hdedup] at hx
    by_cases huid : u.uid = v.uid
    · rw [(liveContentDedupKey_eq_iff cfg u v).mpr huid, Function.update_self] at hx
      exact hentry x d hx (huid ▸ hd)
    · have hkey : liveContentDedupKey cfg v ≠ liveContentDedupKey cfg u :=
        fun hk => huid ((liveContentDedupKey_eq_iff cfg v u).mp hk).symm
      rw [Function.update_of_ne hkey] at hx
      rw [(hother v.uid huid).1] at hd
      exact h.cache v x d hx hd
  · rcases htrace with htrace | htrace <;>
    · rw [htrace]
      exact h.skips
  · intro uid hsettled
    by_cases huid : u.uid = uid
    -- a refused event is to be retried, so it claims nothing
    · rcases htrace with htrace | htrace
      · simp [htrace, acceptedContent, deliveredContent, huid]
      · simp [htrace, retrying, huid] at hsettled
    · obtain ⟨haccept, hdel, hretry⟩ := hother uid huid
      rw [haccept, hdel]
      exact h.current uid (hretry ▸ hsettled)

theorem CacheCurrent.skipped [DecidableEq X] (h : CacheCurrent cfg w) (u : Unstructured B)
    (event : GitEvent D)
    (hskip : skipUnchangedLiveUpdate cfg u event w.dedup = (w'.dedup, true))
    (htrace : w'.trace = .skipped u event :: w.trace)
    (hobj : event.object = some (cfg.sanitize u))
    (hpresent : (w.dedup (liveContentDedupKey cfg u)).isSome = true →
      (acceptedContent cfg u.uid w.trace).isSome = true ∧ HashTells cfg w u) : CacheCurrent cfg w' := by
  obtain ⟨hdedup, -, d, x, hd, hx, hcache⟩ := skip_spec cfg hskip
  obtain ⟨haccept, htell⟩ := hpresent (by rw [hcache]; rfl)
  obtain ⟨d', hd'⟩ := Option.isSome_iff_exists.mp haccept
  -- equal hashes, so the accepted content is the content of the event
  have hsame : d' = d := by
    obtain rfl : cfg.sanitize u = d := Option.some.inj (hobj.symm.trans hd)
    exact htell d' hd' ((h.cache u x d' hcache hd').trans hx.symm)
  subst hsame
  refine ⟨?_, ?_, ?_⟩
  · rw [htrace, hdedup]
    exact h.cache
  · rw [htrace]
    exact ⟨⟨d', hd, hd'⟩, h.skips⟩
  · intro uid
    rw [htrace, retrying, acceptedContent, deliveredContent]
    by_cases huid : u.uid = uid
    · subst huid
      simp [hd, hd']
    · simp only [huid, if_false]
      exact h.current uid

theorem CacheCurrent.handled [DecidableEq X] {ev : WatchEvent B} {a : Answers B}
    (h : CacheCurrent cfg w)
    (hlive : w.phase.isLive = true) (hok : LiveAccepted cfg w ev a)
    (heffect : Handled cfg ev a w w') : CacheCurrent cfg w' := by
  cases heffect with
  | ignored hsame => exact h.same cfg hsame.trace hsame.dedup
  | skipped u event hskip hevent hres htrace =>
    obtain ⟨hop, hobj⟩ := hevent.object_eq cfg
    rw [(skip_spec cfg hskip).2.1] at hop hobj
    exact h.skipped cfg u event hskip htrace (hobj.trans (if_neg (by decide)))
      ((hok hlive u hevent.object (Or.inr hop.symm)).2.2 hop.symm)
  -- refused although creations and updates are taken: a deletion, whose hash is gone
  | refused u event hskip hevent hroute hres htrace =>
    have hdelete : event.operation = some .delete := by
      rw [(hevent.object_eq cfg).1]
      rcases operation_cases ev.type u hevent.operation with hdel | hrest
      · exact hdel
      · exact absurd (hok hlive u hevent.object hrest).1 hroute
    obtain ⟨entry, hdedup, hentry⟩ := route_spec cfg hskip (fun hne => absurd hdelete hne)
    rw [if_pos hdelete] at hentry
    refine h.routed cfg u event entry hdedup (Or.inr htrace) (fun x d hx => ?_)
    rw [hentry] at hx
    simp at hx
  | accepted u event hskip hevent hres htrace =>
    obtain ⟨hop, hobj⟩ := hevent.object_eq cfg
    -- accepted: the stored hash is that of the routed content
    have hhash : event.operation ≠ some .delete → (event.object.bind cfg.hash).isSome = true := by
      intro hne
      rw [hobj, if_neg hne]
      rcases operation_cases ev.type u hevent.operation with hdel | hrest
      · exact absurd (hop.trans hdel) hne
      · exact (hok hlive u hevent.object hrest).2.1
    obtain ⟨entry, hdedup, hentry⟩ := route_spec cfg hskip hhash
    refine h.routed cfg u event entry hdedup (Or.inl htrace) (fun x d hx hd => ?_)
    rw [htrace, acceptedContent, if_pos rfl] at hd
    rw [hx, hd] at hentry
    split at hentry
    · simp at hentry
    · exact hentry.symm

/-! ## 4. The run -/

theorem cacheCurrent_step [DecidableEq X] (w : TargetWatch B D X) (input : WatchInput B)
    (hok : KeepsCache cfg w input)
    (h : CacheCurrent cfg w) : CacheCurrent cfg (watchStep cfg w input) := by
  cases watchStep_effect cfg w input with
  | same hsame => exact h.same cfg hsame.trace hsame.dedup
  | opened hlisted => exact h.listed cfg hok hlisted
  | reopened _ hlisted => exact h.listed cfg hok.1 hlisted
  | replayed replay replay' objects rv _ _ hsnapshot =>
    exact h.snapshot cfg (hok.1 objects hsnapshot.trace) hsnapshot.trace hsnapshot.dedup
  | handled hlive hhandled => exact h.handled cfg hlive hok.2 hhandled
  | settled _ htrace hdedup | declared _ htrace hdedup => exact h.same cfg htrace hdedup

/-- Live dedup loses nothing in a run in which every live creation and update can be hashed and
    is taken by the queue, snapshots repeat the cached content of the objects they hold, and
    updates are of objects still held: every skipped update carries the content accepted last,
    and an object without a pending retry has its last delivered content accepted. The hash is not
    to take an update for the content accepted before it. -/
theorem watch_skips_accepted_content [DecidableEq X] (cursor : Option String)
    (inputs : List (WatchInput B))
    (hinputs : AllSteps (watchStep cfg) (KeepsCache cfg) (declaredWatch cursor (fun _ => none) [])
      inputs) :
    let w := inputs.foldl (watchStep cfg) (declaredWatch cursor (fun _ => none) [])
    SkipsAccepted cfg w.trace ∧ ∀ uid, retrying uid w.trace = false →
      acceptedContent cfg uid w.trace = deliveredContent cfg uid w.trace := by
  intro w
  have hinit : CacheCurrent cfg (declaredWatch cursor (fun _ => none) [] : TargetWatch B D X) :=
    ⟨by simp [declaredWatch], trivial, fun _ _ => rfl⟩
  have h : CacheCurrent cfg w := hinputs.invariant (cacheCurrent_step cfg) hinit
  exact ⟨h.skips, h.current⟩

def liveInput (change : Change Nat) (a : Answers Nat) : WatchInput Nat := .event change.event a

def replayOf (n : Nat) : List (WatchInput Nat) :=
  [.session { calmAnswers with cursorFound := false }, liveInput (.added (sampleObject "a" n)) calmAnswers,
    .event (initialEventsBookmark sampleBookmark) calmAnswers]

-- First run: the queue refuses an update, and its redelivery is taken for a repetition.
-- Second run: a replay brings version 2, and the return to the cached version 1 is skipped.
theorem skipped_update_never_accepted :
    let refused := watchFrom none (replayOf 1 ++
      [liveInput (.modified (sampleObject "a" 2)) { calmAnswers with route := .queueFull },
        .session calmAnswers, liveInput (.modified (sampleObject "a" 2)) calmAnswers])
    let replayed := watchFrom none (replayOf 1 ++
      [liveInput (.modified (sampleObject "a" 1)) calmAnswers, .closed] ++ replayOf 2 ++
      [liveInput (.modified (sampleObject "a" 1)) calmAnswers])
    (retrying "uid-a" refused.trace = false ∧
      acceptedContent sampleWatchConfig "uid-a" refused.trace = some 1 ∧
      deliveredContent sampleWatchConfig "uid-a" refused.trace = some 2) ∧
    (retrying "uid-a" replayed.trace = false ∧
      acceptedContent sampleWatchConfig "uid-a" replayed.trace = some 2 ∧
      deliveredContent sampleWatchConfig "uid-a" replayed.trace = some 1) := by
  decide

def repeatedUpdate : List (WatchInput Nat) :=
  [.session calmAnswers, .event (initialEventsBookmark sampleBookmark) calmAnswers,
    liveInput (.added (sampleObject "a" 2)) calmAnswers,
    liveInput (.modified (sampleObject "a" 2)) calmAnswers]

theorem handedAgrees_of_none {w : TargetWatch Nat Nat Nat} {input : WatchInput Nat}
    (h : (watchStep sampleWatchConfig w input).trace.countP (fun note => note matches .snapshot _) =
      w.trace.countP (fun note => note matches .snapshot _)) :
    HandedAgrees sampleWatchConfig w input := by
  intro objects htrace
  rw [htrace] at h
  simp at h

theorem repeated_update_skipped_when_accepted :
    let final := watchFrom none repeatedUpdate
    final.trace.map (fun note => note matches .skipped _ _) = [true, false, false] ∧
    SkipsAccepted sampleWatchConfig final.trace ∧
    acceptedContent sampleWatchConfig "uid-a" final.trace =
      deliveredContent sampleWatchConfig "uid-a" final.trace := by
  have hinputs : AllSteps (watchStep sampleWatchConfig) (KeepsCache sampleWatchConfig)
      (declaredWatch none (fun _ => none) []) repeatedUpdate := by
    -- the first snapshot is handed over with an empty cache, and no other one is
    refine ⟨handedAgrees_of_none (by decide), ⟨?_, ?_⟩, ⟨handedAgrees_of_none (by decide), ?_⟩,
      ⟨handedAgrees_of_none (by decide), ?_⟩, trivial⟩
    · intro objects _ u x u' hcached
      exact absurd hcached (by simp [watchStep, targetWatchReplayAndStream, declaredWatch, startReplay,
        calmAnswers, mark, Phase.isWaiting])
    · exact fun hlive => absurd hlive (by decide)
    · exact fun _ u hu _ => by
        obtain rfl := EventObject.unstructured.inj hu
        exact ⟨rfl, rfl, fun hop => absurd hop (by decide)⟩
    · exact fun _ u hu _ => by
        obtain rfl := EventObject.unstructured.inj hu
        exact ⟨rfl, rfl, fun _ _ => ⟨by decide, fun d _ hhash => Option.some.inj hhash⟩⟩
  obtain ⟨hskips, hcurrent⟩ :=
    watch_skips_accepted_content sampleWatchConfig none repeatedUpdate hinputs
  exact ⟨by decide, hskips, hcurrent "uid-a" (by decide)⟩

end GitopsReverser.Watch
