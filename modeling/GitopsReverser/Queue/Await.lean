import GitopsReverser.Queue.DeletionEvidence

/-!
# Await — one resolver among the goroutines that fill the index

A resolver registers its keys, reads the index, and waits for a signal or the end of its grace.
A stored fact and the wake that follows it are two critical sections, so a run interleaves them
with everything else. What is filed under a key the query reads wakes the query.
-/

namespace GitopsReverser.Queue

open Reasoning

/-! ## 1. The waiting resolver -/

def FactQuery.waiterKeys (q : FactQuery) : List FactWaiterKey :=
  (if q.uid ≠ "" ∧ q.resourceVersion ≠ "" then
    [⟨q.scope, .exact, exactWaiterValue q.uid q.resourceVersion⟩] else []) ++
  (if q.exactCapable then []
    else (if q.uid ≠ "" then [⟨q.scope, .latest, q.uid⟩] else []) ++ [⟨q.scope, .collection, q.ns⟩]) ++
  (if q.resourceVersion ≠ "" then [⟨q.scope, .rv, q.resourceVersion⟩] else []) ++
  (if q.name ≠ "" then [⟨q.scope, .name, nameWaiterValue q.ns q.name⟩] else [])

def FactQuery.wokenBy (q : FactQuery) (keys : List FactWaiterKey) : Bool :=
  keys.any (fun key => q.waiterKeys.contains key)

def FactQuery.conclusive (q : FactQuery) (r : AuthorResolution) : Bool :=
  decide (r.result ≠ .absent) && !q.awaitsBetterEvidence r

/-- Where `Await` stands. `settled` remembers whether a signal was there, or on its way, when
    the wait was given up. -/
inductive Progress where
  | start
  | looking (fallback : AuthorResolution)
  | waiting (fallback : AuthorResolution)
  | resolved (r : AuthorResolution)
  | settled (r : AuthorResolution) (late : Bool)
  deriving DecidableEq, Repr

def Progress.registered : Progress → Bool
  | .looking _ | .waiting _ => true
  | _ => false

/-- `inFlight` are the keys of stored facts whose wake has not run yet. -/
structure AwaitState where
  index : FactIndex
  now : Int
  progress : Progress
  signal : Bool
  inFlight : List (List FactWaiterKey)

inductive AwaitInput where
  | register
  | look
  | takeSignal
  | giveUp
  | store (range : FactIndex → List FactScope) (scope : FactScope) (fact : AuthorFact) (storedAt : Int)
  | wake (keys : List FactWaiterKey)
  | sweep
  | tick (now : Int)

namespace AwaitState

def signalled (q : FactQuery) (s : AwaitState) : Bool := s.signal || s.inFlight.any q.wokenBy

def looked (q : FactQuery) (fallback r : AuthorResolution) : Progress :=
  if r.result = .absent then .waiting fallback
  else if q.awaitsBetterEvidence r then .waiting r
  else .resolved r

def register (s : AwaitState) : AwaitState :=
  match s.progress with
  | .start => { s with progress := .looking {}, signal := false }
  | _ => s

def look (q : FactQuery) (s : AwaitState) : AwaitState :=
  match s.progress with
  | .looking fallback => { s with progress := looked q fallback (s.index.lookup q s.now) }
  | _ => s

def takeSignal (s : AwaitState) : AwaitState :=
  match s.progress, s.signal with
  | .waiting fallback, true => { s with progress := .looking fallback, signal := false }
  | _, _ => s

def giveUp (q : FactQuery) (s : AwaitState) : AwaitState :=
  match s.progress with
  | .waiting fallback => { s with progress := .settled fallback (s.signalled q) }
  | _ => s

/-- `wake`, as far as this waiter goes: a signal is sent without blocking. -/
def wake (q : FactQuery) (keys : List FactWaiterKey) (s : AwaitState) : AwaitState :=
  if keys ∈ s.inFlight then
    { s with
      inFlight := s.inFlight.erase keys
      signal := s.signal || (s.progress.registered && q.wokenBy keys) }
  else s

def step (parse : FactParsers) (q : FactQuery) (s : AwaitState) : AwaitInput → AwaitState
  | .register => s.register
  | .look => s.look q
  | .takeSignal => s.takeSignal
  | .giveUp => s.giveUp q
  | .store range scope fact storedAt =>
    { s with
      index := s.index.store parse range scope fact storedAt
      inFlight := s.inFlight ++ [filledKeys scope fact] }
  | .wake keys => s.wake q keys
  | .sweep => { s with index := s.index.sweep s.now }
  | .tick now => { s with now := now }

def answer (q : FactQuery) (s : AwaitState) : AuthorResolution := s.index.lookup q s.now

end AwaitState

/-! ## 2. What is filed where the query reads wakes it -/

variable {q : FactQuery}

theorem mem_waiterKeys_iff : key ∈ q.waiterKeys ↔ (q.uid ≠ "" ∧ q.resourceVersion ≠ "" ∧
      key = ⟨q.scope, .exact, exactWaiterValue q.uid q.resourceVersion⟩) ∨
    (q.exactCapable = false ∧ q.uid ≠ "" ∧ key = ⟨q.scope, .latest, q.uid⟩) ∨
    (q.exactCapable = false ∧ key = ⟨q.scope, .collection, q.ns⟩) ∨
    (q.resourceVersion ≠ "" ∧ key = ⟨q.scope, .rv, q.resourceVersion⟩) ∨
    (q.name ≠ "" ∧ key = ⟨q.scope, .name, nameWaiterValue q.ns q.name⟩) := by
  unfold FactQuery.waiterKeys
  split_ifs <;> simp_all

theorem wokenBy_eq_false_iff : q.wokenBy keys = false ↔ ∀ key ∈ keys, key ∉ q.waiterKeys := by
  simp [FactQuery.wokenBy]

/-- Two states of a scope that a query cannot tell apart. -/
structure SameTiers (q : FactQuery) (facts facts' : ScopeFacts) : Prop where
  exact : q.uid ≠ "" → q.resourceVersion ≠ "" → facts'.keyed.lookup (.exact q.uid q.resourceVersion) =
      facts.keyed.lookup (.exact q.uid q.resourceVersion)
  latest : q.exactCapable = false → q.uid ≠ "" →
    facts'.keyed.lookup (.latest q.uid) = facts.keyed.lookup (.latest q.uid)
  removal : q.exactCapable = false → q.uid ≠ "" →
    facts'.keyed.lookup (.removal q.uid) = facts.keyed.lookup (.removal q.uid)
  rv : q.resourceVersion ≠ "" →
    facts'.keyed.lookup (.rv q.resourceVersion) = facts.keyed.lookup (.rv q.resourceVersion)
  name : q.name ≠ "" → facts'.keyed.lookup (.name q.ns q.name) = facts.keyed.lookup (.name q.ns q.name)
  uidSet : q.exactCapable = false → ∀ cutoff,
    facts'.matchCollectionUID q cutoff = facts.matchCollectionUID q cutoff
  scope : q.exactCapable = false → ∀ now cutoff window,
    facts'.matchCollectionScope q now cutoff window = facts.matchCollectionScope q now cutoff window

theorem ite_congr_left {α : Type} [Decidable c] {a a' b : α} (h : c → a = a') :
    (if c then a else b) = if c then a' else b := by
  split_ifs with hc
  · exact h hc
  · rfl

theorem SameTiers.resolve {facts facts' : ScopeFacts} (h : SameTiers q facts facts')
    (now cutoff window : Int) :
    facts'.resolve q now cutoff window = facts.resolve q now cutoff window := by
  have hexact : facts'.exactTier q cutoff = facts.exactTier q cutoff :=
    ite_congr_left (fun hc => by rw [ScopeFacts.lookupExact, ScopeFacts.lookupExact, h.exact hc.1 hc.2])
  have hrv : facts'.rvTier q cutoff = facts.rvTier q cutoff :=
    ite_congr_left (fun hc => by rw [ScopeFacts.lookupRV, ScopeFacts.lookupRV, h.rv hc])
  have hname : facts'.nameTier q cutoff = facts.nameTier q cutoff :=
    ite_congr_left (fun hc => by rw [ScopeFacts.lookupName, ScopeFacts.lookupName, h.name hc])
  unfold ScopeFacts.resolve
  rw [hexact, hrv, hname]
  cases hremove : q.exactCapable with
  | true => rfl
  | false =>
    have hsticky : facts'.stickyRemoval q = facts.stickyRemoval q := by
      unfold ScopeFacts.stickyRemoval ScopeFacts.lookupRemovalPointer
      split_ifs with huid
      · rfl
      · rw [h.removal hremove huid]
    have hcollection : facts'.collectionTier q cutoff = facts.collectionTier q cutoff :=
      ite_congr_left (fun _ => by rw [h.uidSet hremove])
    have hlatest : facts'.latestTier q cutoff = facts.latestTier q cutoff := ite_congr_left (fun hc => by
        rw [ScopeFacts.lookupLatest, ScopeFacts.lookupLatest, h.latest hremove hc])
    rw [ScopeFacts.lookupRemoval, ScopeFacts.lookupRemoval, hsticky, hcollection, hlatest, hname,
    h.scope hremove]

theorem sameTiers_putAll
    (hunwoken : ∀ key ∈ fact.keys, ∀ waiter ∈ key.waiterKey q.scope, waiter ∉ q.waiterKeys)
    (facts : ScopeFacts) (now : Int) (seq : Nat) :
    SameTiers q facts (facts.putAll fact now fact.keys seq) := by
  have hlatest : q.exactCapable = false → q.uid ≠ "" → FactKey.latest q.uid ∉ fact.keys := by
    intro hremove huid hmem
    exact hunwoken _ hmem _ rfl (mem_waiterKeys_iff.mpr (.inr (.inl ⟨hremove, huid, rfl⟩)))
  refine ⟨?_, ?_, ?_, ?_, ?_, ?_, ?_⟩
  · intro huid hversion
    refine lookup_putAll_of_notMem (fun hmem => ?_) _ _
    exact hunwoken _ hmem _ rfl (mem_waiterKeys_iff.mpr (.inl ⟨huid, hversion, rfl⟩))
  · intro hremove huid
    exact lookup_putAll_of_notMem (hlatest hremove huid) _ _
  · -- The pointer has no waiter key: a fact that fills it fills the latest tier too.
    intro hremove huid
    refine lookup_putAll_of_notMem (fun hmem => hlatest hremove huid ?_) _ _
    simp only [mem_keys_iff, reduceCtorEq, FactKey.removal.injEq, and_false, or_false, false_or] at hmem
    exact mem_keys_iff.mpr (.inl ⟨hmem.1, .inr (.inl (by rw [hmem.2.2]))⟩)
  · intro hversion
    refine lookup_putAll_of_notMem (fun hmem => ?_) _ _
    exact hunwoken _ hmem _ rfl (mem_waiterKeys_iff.mpr (.inr (.inr (.inr (.inl ⟨hversion, rfl⟩)))))
  · intro hname
    refine lookup_putAll_of_notMem (fun hmem => ?_) _ _
    exact hunwoken _ hmem _ rfl (mem_waiterKeys_iff.mpr (.inr (.inr (.inr (.inr ⟨hname, rfl⟩)))))
  · intro _ cutoff
    rw [ScopeFacts.matchCollectionUID, collections_putAll]
    rfl
  · intro _ now' cutoff window
    rw [ScopeFacts.matchCollectionScope, collections_putAll]
    rfl

theorem sameTiers_putCollection (hunwoken : q.exactCapable = true ∨ c.fact.ns ≠ q.ns) (facts : ScopeFacts) :
    SameTiers q facts (facts.putCollection c) := by
  have hfind : q.exactCapable = false → ∀ (cutoff : Int) {p : IndexedCollection → Bool},
      (∀ c, p c = true → c.covers q cutoff = true) →
      (facts.collections ++ [c]).reverse.find? p = facts.collections.reverse.find? p := by
    intro hremove cutoff p hp
    have hns : c.fact.ns ≠ q.ns := by simpa [hremove] using hunwoken
    -- a collection of another namespace covers nothing that is asked for
    have hmiss : p c = false := by
      refine Bool.eq_false_iff.mpr (fun hpc => ?_)
      have hcover := hp c hpc
      simp [IndexedCollection.covers, hns] at hcover
    rw [List.reverse_append, List.reverse_singleton, List.singleton_append,
      List.find?_cons_of_neg (by simp [hmiss])]
  refine ⟨fun _ _ => rfl, fun _ _ => rfl, fun _ _ => rfl, fun _ => rfl, fun _ => rfl, ?_, ?_⟩
  · intro hremove cutoff
    refine congrArg (Option.map _) (hfind hremove cutoff ?_)
    intro c hc
    exact (Bool.and_eq_true _ _ ▸ hc).1
  · intro hremove now cutoff window
    refine congrArg (Option.map _) (hfind hremove cutoff ?_)
    intro c hc
    simp only [Bool.and_eq_true] at hc
    exact hc.1.1

theorem lookup_filed_scope (parse : FactParsers) (i : FactIndex) (scope : FactScope)
    (fact : AuthorFact) (now : Int) (scope' : FactScope) :
    (i.filed parse scope fact now).scopeFor scope' =
      if scope' = scope then (file parse (i.scopeFor scope) i.seq fact now).1
      else i.scopeFor scope' := by
  rw [FactIndex.scopeFor, FactIndex.filed, lookup_insert_ite]
  split_ifs <;> rfl

/-- A fact whose filing changes what the query is answered fills one of its keys. -/
theorem woken_of_filing {i : FactIndex}
    (h : (i.filed parse scope fact storedAt).lookup q now ≠ i.lookup q now) :
    q.wokenBy (filledKeys scope fact) = true := by
  by_contra hwoken
  have hunwoken := wokenBy_eq_false_iff.mp (Bool.not_eq_true _ ▸ hwoken)
  refine h ?_
  rw [FactIndex.lookup_eq, FactIndex.lookup_eq, lookup_filed_scope]
  refine congrArg (Option.getD · _) ?_
  split_ifs with hscope
  · subst hscope
    refine SameTiers.resolve ?_ _ _ _
    unfold filledKeys at hunwoken
    unfold file
    split_ifs at hunwoken ⊢
    · refine sameTiers_putCollection ?_ _
      by_contra hread
      obtain ⟨hremove, hns⟩ := not_or.mp hread
      refine hunwoken _ (List.mem_singleton_self _) (mem_waiterKeys_iff.mpr (.inr (.inr (.inl ?_))))
      exact ⟨by simpa using hremove, by rw [← not_not.mp hns]; rfl⟩
    · refine sameTiers_putAll (fun key hkey waiter hwaiter => hunwoken waiter ?_) _ _ _
      exact List.mem_filterMap.mpr ⟨key, hkey, hwaiter⟩
  · rfl

/-! ## 3. A signal is never lost -/

namespace AwaitState

variable {q : FactQuery} {s : AwaitState} {parse : FactParsers}

theorem signalled_wake (keys : List FactWaiterKey) (hregister : s.progress.registered = true)
    (h : s.signalled q = true) :
    (s.wake q keys).signalled q = true := by
  unfold wake
  split_ifs with hmem
  · simp only [signalled, hregister, Bool.true_and, Bool.or_eq_true, List.any_eq_true] at h ⊢
    rcases h with h | ⟨woken, hwoken, hread⟩
    · exact .inl (.inl h)
    · by_cases heq : woken = keys
      · exact .inl (.inr (heq ▸ hread))
      · exact .inr ⟨woken, (List.mem_erase_of_ne heq).mpr hwoken, hread⟩
  · exact h

theorem signalled_store (h : s.signalled q = true ∨ q.wokenBy (filledKeys scope fact) = true) :
    (s.step parse q (.store range scope fact storedAt)).signalled q = true := by
  simp only [step, signalled, List.any_append, List.any_cons, List.any_nil, Bool.or_false,
    Bool.or_eq_true] at h ⊢
  exact or_assoc.mp h

theorem signalled_step (hinput : input = .takeSignal → s.signal = false)
    (hregister : s.progress.registered = true)
    (h : s.signalled q = true) : (s.step parse q input).signalled q = true := by
  cases input with
  | takeSignal =>
    show s.takeSignal.signalled q = true
    unfold takeSignal
    split
    · rename_i hsignal
      rw [hinput rfl] at hsignal
      cases hsignal
    · exact h
  | register =>
    show s.register.signalled q = true
    unfold register
    split
    · rename_i hstate
      rw [hstate] at hregister
      cases hregister
    · exact h
  | look =>
    show (s.look q).signalled q = true
    unfold look
    split <;> exact h
  | giveUp =>
    show (s.giveUp q).signalled q = true
    unfold giveUp
    split <;> exact h
  | store range scope fact storedAt => exact signalled_store (.inl h)
  | wake keys => exact signalled_wake keys hregister h
  | sweep | tick now => exact h

theorem progress_store (parse : FactParsers) (q : FactQuery) (s : AwaitState)
    (range : FactIndex → List FactScope) (scope : FactScope) (fact : AuthorFact) (storedAt : Int) :
    (s.step parse q (.store range scope fact storedAt)).progress = s.progress := by
  simp only [step]

theorem progress_step (parse : FactParsers) (q : FactQuery) (s : AwaitState) (input : AwaitInput) :
    (s.step parse q input).progress = s.progress ∨
    (s.progress = .start ∧ (s.step parse q input).progress = .looking {}) ∨
    (∃ fallback, s.progress = .looking fallback ∧
      (s.step parse q input).progress = looked q fallback (s.answer q)) ∨
    (∃ fallback, s.progress = .waiting fallback ∧ (s.step parse q input).progress = .looking fallback) ∨
    (∃ fallback, s.progress = .waiting fallback ∧
      (s.step parse q input).progress = .settled fallback (s.signalled q)) := by
  cases input with
  | register =>
    simp only [step, register]
    split
    · exact .inr (.inl ⟨‹_›, rfl⟩)
    · exact .inl rfl
  | look =>
    simp only [step, look]
    split
    · exact .inr (.inr (.inl ⟨_, ‹_›, rfl⟩))
    · exact .inl rfl
  | takeSignal =>
    simp only [step, takeSignal]
    split
    · exact .inr (.inr (.inr (.inl ⟨_, ‹_›, rfl⟩)))
    · exact .inl rfl
  | giveUp =>
    simp only [step, giveUp]
    split
    · exact .inr (.inr (.inr (.inr ⟨_, ‹_›, rfl⟩)))
    · exact .inl rfl
  | wake keys =>
    simp only [step, wake]
    split_ifs <;> exact .inl rfl
  | store range scope fact storedAt => exact .inl (progress_store parse q s range scope fact storedAt)
  | sweep | tick now => exact .inl (by simp only [step])

theorem looked_cases (q : FactQuery) (fallback r : AuthorResolution) :
    (∃ held, looked q fallback r = .waiting held) ∨ looked q fallback r = .resolved r := by
  unfold looked
  split_ifs
  · exact .inl ⟨_, rfl⟩
  · exact .inl ⟨_, rfl⟩
  · exact .inr rfl

def returned (s : AwaitState) : Prop := s.progress ≠ .start ∧ s.progress.registered = false

theorem returned_step (h : s.returned) (input : AwaitInput) : (s.step parse q input).returned := by
  obtain ⟨hstate, hregister⟩ := h
  rcases progress_step parse q s input with hsame | ⟨hp, -⟩ | ⟨_, hp, -⟩ | ⟨_, hp, -⟩ | ⟨_, hp, -⟩
  · exact ⟨hsame ▸ hstate, hsame ▸ hregister⟩
  · exact absurd hp hstate
  all_goals
    rw [hp] at hregister
    cases hregister

theorem registered_or_returned (h : s.progress.registered = true) (input : AwaitInput) :
    (s.step parse q input).progress.registered = true ∨ (s.step parse q input).returned := by
  rcases progress_step parse q s input with hsame | ⟨hp, -⟩ | ⟨f, -, hn⟩ | ⟨_, -, hn⟩ | ⟨_, -, hn⟩
  · exact .inl (hsame ▸ h)
  · rw [hp] at h
    cases h
  · rcases looked_cases q f (s.answer q) with ⟨held, hl⟩ | hl
    · exact .inl (by rw [hn, hl]; rfl)
    · exact .inr ⟨by rw [hn, hl]; simp, by rw [hn, hl]; rfl⟩
  · exact .inl (by rw [hn]; rfl)
  · exact .inr ⟨by rw [hn]; simp, by rw [hn]; rfl⟩

/-- As long as the resolver is registered and receives no signal, the signal is due. -/
theorem signalled_run {inputs : List AwaitInput} (hinput : ∀ input ∈ inputs, input ≠ .takeSignal)
    (hregister : s.progress.registered = true) (h : s.signalled q = true)
    (hend : (inputs.foldl (step parse q) s).progress.registered = true) :
    (inputs.foldl (step parse q) s).signalled q = true := by
  induction inputs generalizing s with
  | nil => exact h
  | cons input inputs ih =>
    have hrest : ∀ i ∈ inputs, i ≠ .takeSignal :=
      fun i hi => hinput i (List.mem_cons_of_mem input hi)
    rcases registered_or_returned hregister input with hnext | hreturn
    · exact ih hrest hnext
        (signalled_step (fun hi => absurd hi (hinput input List.mem_cons_self)) hregister h) hend
    · have hlast : (inputs.foldl (step parse q) (s.step parse q input)).returned :=
        List.foldlRecOn inputs _ hreturn (fun _ hs i _ => returned_step hs i)
      rw [List.foldl_cons, hlast.2] at hend
      cases hend

/-- Nothing is returned for want of a signal: while the resolver waits one is due, and what it
    returned is conclusive or was returned with a signal due. -/
def Heeded (q : FactQuery) (s : AwaitState) : Prop :=
  match s.progress with
  | .start | .looking _ => True
  | .waiting _ => s.signalled q = true
  | .resolved r => q.conclusive r = true
  | .settled r late => q.conclusive r = true ∨ late = true

theorem looked_of_conclusive (h : q.conclusive r = true) : looked q fallback r = .resolved r := by
  simp only [FactQuery.conclusive, Bool.and_eq_true, decide_eq_true_eq, Bool.not_eq_true'] at h
  rw [looked, if_neg h.1, if_neg (by simp [h.2])]

theorem Heeded.step (h : s.Heeded q) (hanswer : q.conclusive (s.answer q) = true) (input : AwaitInput) :
    (s.step parse q input).Heeded q := by
  unfold Heeded at h ⊢
  rcases progress_step parse q s input with hsame | ⟨-, hn⟩ | ⟨f, -, hn⟩ | ⟨_, -, hn⟩ | ⟨_, hp, hn⟩
  · rw [hsame]
    cases hp : s.progress with
    | waiting fallback =>
      rw [hp] at h
      refine signalled_step (fun hi => ?_) (by rw [hp]; rfl) h
      -- Receiving a signal that is there would have moved the resolver.
      by_contra hsignal
      rw [Bool.not_eq_false] at hsignal
      rw [hi, AwaitState.step, takeSignal, hp, hsignal] at hsame
      cases hsame
    | start | looking fallback => trivial
    | resolved r | settled r late =>
      rw [hp] at h
      exact h
  · rw [hn]
    trivial
  · rw [hn, looked_of_conclusive hanswer]
    exact hanswer
  · rw [hn]
    trivial
  · rw [hp] at h
    rw [hn]
    exact .inr h

/-- A resolver that has not returned is on its way to the answer: looking returns it, a signal that
    is received leads to that look, and the wake that is still to run sends the signal. -/
structure OnItsWay (parse : FactParsers) (q : FactQuery) (s : AwaitState) : Prop where
  start : s.progress = .start →
    ((s.step parse q .register).step parse q .look).progress = .resolved (s.answer q)
  looking : ∀ fallback, s.progress = .looking fallback →
    (s.step parse q .look).progress = .resolved (s.answer q)
  received : ∀ fallback, s.progress = .waiting fallback → s.signal = true →
    ((s.step parse q .takeSignal).step parse q .look).progress = .resolved (s.answer q)
  woken : ∀ fallback, s.progress = .waiting fallback → s.signal = false → ∃ keys ∈ s.inFlight,
    (((s.step parse q (.wake keys)).step parse q .takeSignal).step parse q .look).progress =
      .resolved (s.answer q)

theorem Heeded.onItsWay (h : s.Heeded q) (hconclusive : q.conclusive (s.answer q) = true) :
    s.OnItsWay parse q := by
  have hlooked : ∀ fallback, looked q fallback (s.answer q) = .resolved (s.answer q) :=
    fun _ => looked_of_conclusive hconclusive
  have hreceived : ∀ (t : AwaitState) (fallback), t.progress = .waiting fallback →
      t.signal = true → t.answer q = s.answer q →
      ((t.step parse q .takeSignal).step parse q .look).progress = .resolved (s.answer q) := by
    intro t fallback hwaiting hsignal hanswer
    simp only [AwaitState.step, takeSignal, hwaiting, hsignal, look]
    exact (congrArg _ hanswer).trans (hlooked fallback)
  refine ⟨fun hstart => ?_, fun fallback hlooking => ?_, fun fallback hwaiting hsignal =>
    hreceived s fallback hwaiting hsignal rfl, fun fallback hwaiting hsignal => ?_⟩
  · simp only [AwaitState.step, register, hstart, look]
    exact hlooked {}
  · simp only [AwaitState.step, look, hlooking]
    exact hlooked fallback
  · -- a signal is due and not in the channel: some wake of it has not run
    simp only [Heeded, hwaiting, signalled, hsignal, Bool.false_or, List.any_eq_true] at h
    obtain ⟨keys, hkeys, hwoken⟩ := h
    refine ⟨keys, hkeys, hreceived _ fallback ?_ ?_ ?_⟩
    · simp [AwaitState.step, wake, hkeys, hwaiting]
    · simp [AwaitState.step, wake, hkeys, hwaiting, hwoken, Progress.registered]
    · simp [AwaitState.step, wake, hkeys, answer]

/-! ## 4. Every interleaving -/

def run (parse : FactParsers) (q : FactQuery) (cfg : FactIndexConfig) (now : Int)
    (inputs : List AwaitInput) : AwaitState :=
  inputs.foldl (step parse q) ⟨newFactIndex cfg, now, .start, false, []⟩

theorem run_append (parse : FactParsers) (q : FactQuery) (cfg : FactIndexConfig) (now : Int)
    (inputs more : List AwaitInput) :
    run parse q cfg now (inputs ++ more) = more.foldl (step parse q) (run parse q cfg now inputs) :=
  List.foldl_append

/-- The filing of the fact, before anything is evicted for it, changes what the query is answered. -/
def filingChanges (parse : FactParsers) (q : FactQuery) (s : AwaitState) (scope : FactScope)
    (fact : AuthorFact) (storedAt : Int) : Prop :=
  (s.index.filed parse scope fact storedAt).lookup q s.now ≠ s.answer q
  deriving Decidable

/-- In every interleaving, a fact whose filing changes the answer leaves a signal due to a
    registered resolver until it receives one, and as long as the answer is conclusive the
    resolver returns it when it heeds that signal, and does not return less for want of one. -/
theorem filing_is_never_missed (parse : FactParsers) (q : FactQuery) (cfg : FactIndexConfig)
    (now : Int) (before after : List AwaitInput) (range : FactIndex → List FactScope)
    (scope : FactScope) (fact : AuthorFact) (storedAt : Int)
    (hchanges : (run parse q cfg now before).filingChanges parse q scope fact storedAt) :
    ((run parse q cfg now before).progress.registered = true → (∀ input ∈ after, input ≠ .takeSignal) →
      (run parse q cfg now (before ++ [.store range scope fact storedAt] ++ after)).progress.registered
        = true →
      (run parse q cfg now (before ++ [.store range scope fact storedAt] ++ after)).signalled q
        = true) ∧
    (¬ (run parse q cfg now before).returned →
      AllSteps (step parse q) (fun s _ => q.conclusive (s.answer q) = true)
        (run parse q cfg now (before ++ [.store range scope fact storedAt])) after →
      (run parse q cfg now (before ++ [.store range scope fact storedAt] ++ after)).Heeded q ∧
      (q.conclusive ((run parse q cfg now
          (before ++ [.store range scope fact storedAt] ++ after)).answer q) = true →
        (run parse q cfg now
          (before ++ [.store range scope fact storedAt] ++ after)).OnItsWay parse q)) := by
  rw [run_append _ _ _ _ (before ++ _), run_append _ _ _ _ before]
  -- what came before matters only through the state it leaves
  generalize run parse q cfg now before = s at hchanges
  have hdue : (s.step parse q (.store range scope fact storedAt)).signalled q = true :=
    signalled_store (.inr (woken_of_filing hchanges))
  have hprogress := progress_store parse q s range scope fact storedAt
  constructor
  · intro hregistered hafter hend
    refine signalled_run hafter ?_ hdue hend
    rw [List.foldl_cons, List.foldl_nil, hprogress]
    exact hregistered
  · intro hreturned hconclusive
    have hstored : Heeded q (s.step parse q (.store range scope fact storedAt)) := by
      unfold Heeded
      rw [hprogress]
      cases hp : s.progress with
      | start | looking fallback => trivial
      | waiting fallback => exact hdue
      | resolved r | settled r late => exact absurd ⟨by rw [hp]; simp, by rw [hp]; rfl⟩ hreturned
    have hheeded := hconclusive.invariant
      (fun t input ht hheeded => hheeded.step ht input) hstored
    exact ⟨hheeded, hheeded.onItsWay⟩

/-! The cart was edited, then its collection was deleted; the resolver of its removal waits. -/

def deployments : FactScope := ⟨"default", "apps/deployments"⟩

def edited (uid : String) : AuthorFact :=
  { ns := "shop", uid := uid, author := "bob", verb := "update" }

def wholeCollectionDeleted : AuthorFact :=
  { ns := "shop", author := "alice", verb := "deletecollection" }

def storing (fact : AuthorFact) : AwaitInput := .store (fun i => i.scopes.keys) deployments fact second

def waking (fact : AuthorFact) : AwaitInput := .wake (filledKeys deployments fact)

def waitsOnEdit : List AwaitInput :=
  [storing (edited "u-1"), waking (edited "u-1"), .register, .look]

theorem removal_wakes_the_resolver :
    let stored := run plainParsers cartRemoved ⟨0, 0, 0, 0⟩ second
      (waitsOnEdit ++ [storing objectDeleted] ++ [waking objectDeleted])
    let looked := (stored.step plainParsers cartRemoved .takeSignal).step plainParsers cartRemoved .look
    looked.progress = .resolved (stored.answer cartRemoved) ∧
      stored.answer cartRemoved = ⟨objectDeleted, .deleteSticky⟩ := by
  intro stored looked
  have hheeds := (filing_is_never_missed plainParsers cartRemoved ⟨0, 0, 0, 0⟩ second waitsOnEdit
    [waking objectDeleted] (fun i => i.scopes.keys) deployments objectDeleted second
    (by decide +kernel)).2 (by unfold returned; decide +kernel) (by decide +kernel)
  exact ⟨(hheeds.2 (by decide +kernel)).received ⟨edited "u-1", .latest⟩ (by decide +kernel)
    (by decide +kernel), by decide +kernel⟩

/-- The fact of another object takes the place of the cart's last edit. The delete of the
    collection, there all the time, is what `Lookup` now answers; nobody tells the resolver. And a
    resolver whose grace ends with the signal in its channel returns the edit it holds. -/
theorem eviction_not_signalled_and_signal_not_taken :
    let before := waitsOnEdit ++ [storing wholeCollectionDeleted, waking wholeCollectionDeleted,
      .takeSignal, .look]
    let cfg : FactIndexConfig := ⟨0, 2, 0, 0⟩
    let s := run plainParsers cartRemoved cfg second before
    let s' := run plainParsers cartRemoved cfg second (before ++ [storing (edited "u-2")])
    let final := run plainParsers cartRemoved cfg second
      (before ++ [storing (edited "u-2"), waking (edited "u-2"), .giveUp])
    let raced := run plainParsers cartRemoved cfg second
      (waitsOnEdit ++ [storing objectDeleted, waking objectDeleted, .giveUp])
    (s.progress.registered = true ∧ s'.answer cartRemoved ≠ s.answer cartRemoved ∧
      s'.signalled cartRemoved = false ∧
      final.progress = .settled ⟨edited "u-1", .latest⟩ false ∧
      final.answer cartRemoved = ⟨wholeCollectionDeleted, .deleteCollectionScope⟩ ∧
      cartRemoved.conclusive (final.answer cartRemoved) = true) ∧
    raced.progress = .settled ⟨edited "u-1", .latest⟩ true ∧
      raced.answer cartRemoved = ⟨objectDeleted, .deleteSticky⟩ := by
  decide +kernel

end AwaitState

end GitopsReverser.Queue
