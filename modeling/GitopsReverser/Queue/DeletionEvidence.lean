import GitopsReverser.Queue.FactIndex

/-!
# DeletionEvidence — a removal asks who deleted, not who wrote

The index never loses the removal pointer of an object before the object's latest fact, and the
ladder of a removal prefers what is about the deletion. The exact tier is read ahead of that
ladder: it is the one place where a write answers although a deletion is on record.
-/

namespace GitopsReverser.Queue

open Reasoning

/-! ## 1. What a scope holds -/

def FactKey.Holds : FactKey → AuthorFact → Prop
  | .removal _, fact => isRemovalVerb fact.verb = true
  | .name _ object, _ => object ≠ ""
  | _, _ => True

/-- The references of a scope are in the order of their sequence numbers, none is newer than
    `seq`, and every entry has one. -/
structure Indexed (seq : Nat) (facts : ScopeFacts) : Prop where
  holds : ∀ key entry, facts.keyed.lookup key = some entry → key.Holds entry.fact
  collected : ∀ c ∈ facts.collections, equalFold c.fact.verb deleteCollectionVerb = true
  increasing : facts.order.Pairwise (fun a b => a.seq < b.seq)
  used : ∀ ref ∈ facts.order, ref.seq ≤ seq
  referenced : ∀ key entry, facts.keyed.lookup key = some entry → ⟨some key, entry.seq⟩ ∈ facts.order

/-- A latest fact about a deletion has its removal pointer, which is newer. -/
def Pointed (facts : ScopeFacts) : Prop :=
  ∀ uid entry, facts.keyed.lookup (.latest uid) = some entry → isRemovalVerb entry.fact.verb = true →
      ∃ pointer, facts.keyed.lookup (.removal uid) = some pointer ∧ entry.seq < pointer.seq

structure Kept (seq : Nat) (facts : ScopeFacts) : Prop where
  indexed : Indexed seq facts
  pointed : Pointed facts

theorem kept_new (seq : Nat) : Kept seq newScopeFacts := by
  refine ⟨⟨?_, ?_, ?_, ?_, ?_⟩, ?_⟩ <;> simp [newScopeFacts, Pointed]

variable {facts : ScopeFacts} {order : List FactRef} {seq : Nat} {fact : AuthorFact} {key : FactKey}
  {now : Int} {i : FactIndex} {q : FactQuery} {cutoff : Int}

theorem Indexed.mono (h : Indexed seq facts) (hle : seq ≤ seq') : Indexed seq' facts :=
  { h with used := fun ref href => (h.used ref href).trans hle }

theorem Kept.mono (h : Kept seq facts) (hle : seq ≤ seq') :
    Kept seq' facts := ⟨h.indexed.mono hle, h.pointed⟩

/-! ## 2. Filing a fact -/

theorem increasing_append (h : order.Pairwise (fun a b => a.seq < b.seq))
    (hused : ∀ ref ∈ order, ref.seq ≤ seq) (key : Option FactKey) :
    List.Pairwise (fun a b : FactRef => a.seq < b.seq) (order ++ [⟨key, seq + 1⟩]) := by
  refine List.pairwise_append.mpr ⟨h, List.pairwise_singleton _ _, ?_⟩
  intro ref href last hlast
  rw [List.mem_singleton.mp hlast]
  exact Nat.lt_succ_of_le (hused ref href)

theorem used_append (hused : ∀ ref ∈ order, ref.seq ≤ seq)
    (key : Option FactKey) : ∀ ref ∈ order ++ [⟨key, seq + 1⟩], ref.seq ≤ seq + 1 := by
  intro ref href
  rcases List.mem_append.mp href with href | href
  · exact (hused ref href).trans (Nat.le_succ seq)
  · rw [List.mem_singleton.mp href]

theorem Indexed.put (h : Indexed seq facts) (hhold : key.Holds fact) (now : Int) :
    Indexed (seq + 1) (facts.put key ⟨fact, now, seq + 1⟩) := by
  have hlook : ∀ {key' entry}, (facts.put key ⟨fact, now, seq + 1⟩).keyed.lookup key' = some entry →
      (key' = key ∧ entry = ⟨fact, now, seq + 1⟩) ∨ facts.keyed.lookup key' = some entry := by
    intro key' entry hentry
    rw [ScopeFacts.put, lookup_insert_ite] at hentry
    split_ifs at hentry with hkey
    · exact .inl ⟨hkey, (Option.some.inj hentry).symm⟩
    · exact .inr hentry
  refine ⟨?_, h.collected, increasing_append h.increasing h.used _, used_append h.used _, ?_⟩
  · intro key' entry hentry
    rcases hlook hentry with ⟨rfl, rfl⟩ | hold
    · exact hhold
    · exact h.holds key' entry hold
  · intro key' entry hentry
    rcases hlook hentry with ⟨rfl, rfl⟩ | hold
    · exact List.mem_append_right _ (List.mem_singleton_self _)
    · exact List.mem_append_left _ (h.referenced key' entry hold)

theorem Indexed.putAll (hhold : ∀ key ∈ keys, key.Holds fact)
    (h : Indexed seq facts) : Indexed (seq + keys.length) (facts.putAll fact now keys seq) := by
  induction keys generalizing seq facts with
  | nil => exact h
  | cons key keys ih =>
    have hput := h.put (hhold key List.mem_cons_self) now
    have hrest := ih (fun k hk => hhold k (List.mem_cons_of_mem key hk)) hput
    rw [List.length_cons, Nat.add_comm keys.length 1, ← Nat.add_assoc]
    exact hrest

theorem mem_keys_iff : key ∈ fact.keys ↔
    (fact.uid ≠ "" ∧ (fact.resourceVersion ≠ "" ∧ key = .exact fact.uid fact.resourceVersion ∨
      key = .latest fact.uid ∨ isRemovalVerb fact.verb = true ∧ key = .removal fact.uid)) ∨
    (fact.uid = "" ∧ fact.resourceVersion ≠ "" ∧ key = .rv fact.resourceVersion) ∨
    (fact.uid = "" ∧ fact.resourceVersion = "" ∧ fact.name ≠ "" ∧ key = .name fact.ns fact.name) := by
  unfold AuthorFact.keys
  split_ifs <;> simp_all

theorem holds_of_mem_keys (h : key ∈ fact.keys) : key.Holds fact := by
  rcases mem_keys_iff.mp h with ⟨-, ⟨-, rfl⟩ | rfl | ⟨hverb, rfl⟩⟩ | ⟨-, -, rfl⟩ | ⟨-, -, hname, rfl⟩
  · trivial
  · trivial
  · exact hverb
  · trivial
  · exact hname

theorem lookup_putAll_of_notMem (h : key ∉ keys) (seq : Nat) (facts : ScopeFacts) :
    (facts.putAll fact now keys seq).keyed.lookup key = facts.keyed.lookup key := by
  induction keys generalizing seq facts with
  | nil => rfl
  | cons k keys ih =>
    obtain ⟨hne, hrest⟩ := List.ne_and_not_mem_of_not_mem_cons h
    rw [ScopeFacts.putAll, ih hrest, ScopeFacts.put, AList.lookup_insert_ne hne]

theorem collections_putAll (keys : List FactKey) (seq : Nat)
    (facts : ScopeFacts) : (facts.putAll fact now keys seq).collections = facts.collections := by
  induction keys generalizing seq facts with
  | nil => rfl
  | cons k keys ih => exact ih _ _

theorem putAll_append (keys keys' : List FactKey) (seq : Nat)
    (facts : ScopeFacts) : facts.putAll fact now (keys ++ keys') seq =
      (facts.putAll fact now keys seq).putAll fact now keys' (seq + keys.length) := by
  induction keys generalizing seq facts with
  | nil => rfl
  | cons k keys ih =>
    rw [List.cons_append, ScopeFacts.putAll, ih, List.length_cons, Nat.add_comm keys.length 1,
      ← Nat.add_assoc]
    rfl

theorem Pointed.congr (h : Pointed facts)
    (hlatest : ∀ uid, facts'.keyed.lookup (.latest uid) = facts.keyed.lookup (.latest uid))
    (hremove : ∀ uid, facts'.keyed.lookup (.removal uid) = facts.keyed.lookup (.removal uid)) :
    Pointed facts' := by
  intro uid entry hentry hverb
  rw [hlatest] at hentry
  rw [hremove]
  exact h uid entry hentry hverb

theorem Pointed.putAll (h : Pointed facts) (fact : AuthorFact) (now : Int)
    (seq : Nat) : Pointed (facts.putAll fact now fact.keys seq) := by
  intro uid entry hentry hverb
  by_cases hfact : fact.uid ≠ "" ∧ uid = fact.uid
  · obtain ⟨huid, rfl⟩ := hfact
    rw [AuthorFact.keys, if_pos huid, putAll_append, putAll_append] at hentry ⊢
    -- the last two keys put are the latest entry and, for a removal, its pointer
    generalize facts.putAll fact now _ seq = before at hentry ⊢
    by_cases hremove : isRemovalVerb fact.verb = true
    · simp only [hremove, if_true, ScopeFacts.putAll, ScopeFacts.put, lookup_insert_ite,
        reduceCtorEq, if_false, Option.some.injEq] at hentry ⊢
      subst hentry
      exact ⟨_, rfl, by simp⟩
    · simp only [hremove, if_true, if_false, ScopeFacts.putAll, ScopeFacts.put, lookup_insert_ite,
        Option.some.injEq, reduceCtorEq] at hentry
      subst hentry
      exact absurd hverb hremove
  · have hlatest : FactKey.latest uid ∉ fact.keys := by
      simp only [mem_keys_iff]
      rintro (⟨huid, ⟨-, hkey⟩ | hkey | ⟨-, hkey⟩⟩ | ⟨-, -, hkey⟩ | ⟨-, -, -, hkey⟩) <;> cases hkey
      exact hfact ⟨huid, rfl⟩
    have hpoint : FactKey.removal uid ∉ fact.keys := by
      simp only [mem_keys_iff]
      rintro (⟨huid, ⟨-, hkey⟩ | hkey | ⟨-, hkey⟩⟩ | ⟨-, -, hkey⟩ | ⟨-, -, -, hkey⟩) <;> cases hkey
      exact hfact ⟨huid, rfl⟩
    rw [lookup_putAll_of_notMem hlatest] at hentry
    rw [lookup_putAll_of_notMem hpoint]
    exact h uid entry hentry hverb

theorem Indexed.putCollection (h : Indexed seq facts)
    (hverb : equalFold fact.verb deleteCollectionVerb = true) (now : Int) :
    Indexed (seq + 1) (facts.putCollection (newIndexedCollection parse fact now (seq + 1))) := by
  refine ⟨h.holds, ?_, increasing_append h.increasing h.used _, used_append h.used _, ?_⟩
  · intro c hc
    rcases List.mem_append.mp hc with hc | hc
    · exact h.collected c hc
    · rw [List.mem_singleton.mp hc]
      exact hverb
  · intro key entry hentry
    exact List.mem_append_left _ (h.referenced key entry hentry)

theorem Kept.file (h : Kept seq facts) (parse : FactParsers) (fact : AuthorFact) (now : Int) :
    Kept (Queue.file parse facts seq fact now).2 (Queue.file parse facts seq fact now).1 := by
  unfold Queue.file
  split_ifs with hverb
  · exact ⟨h.indexed.putCollection hverb now, h.pointed.congr (fun _ => rfl) (fun _ => rfl)⟩
  · exact ⟨h.indexed.putAll (fun key => holds_of_mem_keys), h.pointed.putAll fact now seq⟩

theorem le_file_seq (parse : FactParsers) (facts : ScopeFacts) (seq : Nat) (fact : AuthorFact)
    (now : Int) : seq ≤ (file parse facts seq fact now).2 := by
  unfold file
  split_ifs
  · exact Nat.le_succ seq
  · exact Nat.le_add_right _ _

/-! ## 3. Evicting and sweeping -/

theorem remove_cases (h : facts.remove ref = some facts') :
    (∃ key entry, ref.key = some key ∧ facts.keyed.lookup key = some entry ∧
      entry.seq = ref.seq ∧ facts' = { facts with keyed := facts.keyed.erase key }) ∨
    (ref.key = none ∧ facts' =
      { facts with collections := facts.collections.eraseP (fun c => c.seq = ref.seq) }) := by
  unfold ScopeFacts.remove at h
  split at h
  · rename_i key hkey
    split at h
    · rename_i entry hentry
      split_ifs at h with hseq
      exact .inl ⟨key, entry, hkey, hentry, hseq, (Option.some.inj h).symm⟩
    · cases h
  · rename_i hkey
    split_ifs at h
    exact .inr ⟨hkey, (Option.some.inj h).symm⟩

theorem remove_of_lookup (h : facts.keyed.lookup key = some entry) :
    facts.remove ⟨some key, entry.seq⟩ = some { facts with keyed := facts.keyed.erase key } := by
  simp [ScopeFacts.remove, h]

theorem Indexed.skip
    (h : Indexed seq { facts with order := ref :: rest }) (hstale : facts.remove ref = none) :
    Indexed seq { facts with order := rest } := by
  refine ⟨h.holds, h.collected, (List.pairwise_cons.mp h.increasing).2,
    fun r hr => h.used r (List.mem_cons_of_mem ref hr), ?_⟩
  intro key entry hentry
  rcases List.mem_cons.mp (h.referenced key entry hentry) with href | href
  · have hlive : facts.remove ⟨some key, entry.seq⟩ = some _ := remove_of_lookup hentry
    rw [← href, hlive] at hstale
    cases hstale
  · exact href

/-- The entry of the oldest reference can go. Were it the pointer of a latest fact that stays,
    the reference of that fact would be older still. -/
theorem Kept.evict
    (h : Kept seq { facts with order := ref :: rest }) (hlive : facts.remove ref = some facts')
    (count : Int) : Kept seq { facts' with order := rest, count := count } := by
  obtain ⟨hfirst, hincreasing⟩ := List.pairwise_cons.mp h.indexed.increasing
  have hused : ∀ r ∈ rest, r.seq ≤ seq := fun r hr => h.indexed.used r (List.mem_cons_of_mem ref hr)
  rcases remove_cases hlive with ⟨key, old, hkey, hold, hseq, rfl⟩ | ⟨hkey, rfl⟩
  · have hstand : ∀ {k entry}, (facts.keyed.erase key).lookup k = some entry →
        k ≠ key ∧ facts.keyed.lookup k = some entry := by
      intro k entry hentry
      rw [lookup_erase_ite] at hentry
      split_ifs at hentry with hk
      exact ⟨hk, hentry⟩
    have hrest : ∀ {k entry}, k ≠ key → facts.keyed.lookup k = some entry →
        ⟨some k, entry.seq⟩ ∈ rest := by
      intro k entry hk hentry
      rcases List.mem_cons.mp (h.indexed.referenced k entry hentry) with href | href
      · rw [← href] at hkey
        exact absurd (Option.some.inj hkey) hk
      · exact href
    refine ⟨⟨fun k entry hentry => h.indexed.holds k entry (hstand hentry).2, h.indexed.collected,
      hincreasing, hused, fun k entry hentry => hrest (hstand hentry).1 (hstand hentry).2⟩, ?_⟩
    intro uid entry hentry hverb
    obtain ⟨hne, hentry⟩ := hstand hentry
    obtain ⟨pointer, hpoint, hlt⟩ := h.pointed uid entry hentry hverb
    refine ⟨pointer, ?_, hlt⟩
    rw [AList.lookup_erase_ne]
    · exact hpoint
    · intro heq
      rw [heq, hold] at hpoint
      cases hpoint
      -- the evicted reference is the oldest, and a pointer is as young as its entry
      have hafter : ref.seq < entry.seq := hfirst _ (hrest hne hentry)
      omega
  · refine ⟨⟨h.indexed.holds, fun c hc => h.indexed.collected c (List.mem_of_mem_eraseP hc),
      hincreasing, hused, fun k entry hentry => ?_⟩, h.pointed⟩
    rcases List.mem_cons.mp (h.indexed.referenced k entry hentry) with href | href
    · rw [← href] at hkey
      cases hkey
    · exact href

theorem Kept.evictFrom
    (h : Kept seq { facts with order := order }) : Kept seq (facts.evictFrom order).2 := by
  induction order with
  | nil => exact h
  | cons ref rest ih =>
    rw [ScopeFacts.evictFrom]
    cases hlive : facts.remove ref with
    | none => exact ih ⟨h.indexed.skip hlive, h.pointed⟩
    | some facts' => exact h.evict hlive _

theorem Kept.evictDownTo (h : Kept seq facts) (limit : Int)
    (fuel : Nat) : Kept seq (facts.evictDownTo limit fuel) := by
  induction fuel generalizing facts with
  | zero => exact h
  | succ fuel ih =>
    have hevict : Kept seq facts.evictOldest.2 := h.evictFrom
    rw [ScopeFacts.evictDownTo]
    split_ifs
    · split
      · rename_i heq
        rw [heq] at hevict
        exact ih hevict
      · rename_i heq
        rw [heq] at hevict
        exact hevict
    · exact h

theorem Kept.sweep (h : Kept seq facts) (cutoff : Int) : Kept seq (facts.sweep cutoff) := by
  have hstand : ∀ {key entry},
      (keepEntries (ScopeFacts.unswept cutoff) facts.keyed).lookup key = some entry →
        facts.keyed.lookup key = some entry :=
    fun hentry => ((lookup_keepEntries_iff _ _ _ _).mp hentry).1
  refine ⟨⟨fun key entry hentry => h.indexed.holds key entry (hstand hentry),
    fun c hc => h.indexed.collected c (List.mem_of_mem_filter hc),
    h.indexed.increasing.sublist List.filter_sublist,
    fun ref href => h.indexed.used ref (List.mem_of_mem_filter href), ?_⟩, ?_⟩
  · intro key entry hentry
    refine List.mem_filter.mpr ⟨h.indexed.referenced key entry (hstand hentry), ?_⟩
    exact Option.isSome_of_eq_some (remove_of_lookup hentry)
  · intro uid entry hentry hverb
    obtain ⟨pointer, hpoint, hlt⟩ := h.pointed uid entry (hstand hentry) hverb
    exact ⟨pointer, (lookup_keepEntries_iff _ _ _ _).mpr ⟨hpoint, rfl⟩, hlt⟩

/-! ## 4. Every state of the index -/

def FactIndex.Kept (i : FactIndex) : Prop :=
  ∀ scope facts, i.scopes.lookup scope = some facts → Queue.Kept i.seq facts

theorem FactIndex.kept_new (cfg : FactIndexConfig) : (newFactIndex cfg).Kept := by
  intro scope facts h
  simp [newFactIndex] at h

theorem FactIndex.Kept.scopeFor (h : i.Kept) (scope : FactScope) :
    Queue.Kept i.seq (i.scopeFor scope) := by
  unfold FactIndex.scopeFor
  cases hfact : i.scopes.lookup scope with
  | none => exact Queue.kept_new i.seq
  | some facts => exact h scope facts hfact

theorem FactIndex.Kept.insert (h : i.Kept)
    (hfact : Queue.Kept i.seq facts) : { i with scopes := i.scopes.insert scope facts }.Kept := by
  intro scope' facts' hlook
  rw [lookup_insert_ite] at hlook
  split_ifs at hlook with heq
  · exact Option.some.inj hlook ▸ hfact
  · exact h scope' facts' hlook

theorem FactIndex.Kept.putScope (h : i.Kept) (scope : FactScope)
    (hfact : Queue.Kept i.seq facts) : (i.putScope scope facts).Kept := by
  unfold FactIndex.putScope
  split_ifs
  · intro scope' facts' hlook
    rw [lookup_erase_ite] at hlook
    split_ifs at hlook
    exact h scope' facts' hlook
  · exact h.insert hfact

theorem FactIndex.lookup_larger
    (h : ∀ p ∈ largest, i.scopes.lookup p.1 = some p.2) (scope : FactScope) :
    ∀ p ∈ i.larger largest scope, i.scopes.lookup p.1 = some p.2 := by
  intro p hp
  unfold FactIndex.larger at hp
  split at hp
  · exact h p hp
  · rename_i hscope
    cases hp
    exact hscope
  · rename_i hscope
    split_ifs at hp
    · cases hp
      exact hscope
    · exact h p hp

theorem FactIndex.lookup_largestScope (h : i.largestScope range = some (scope, facts)) :
    i.scopes.lookup scope = some facts := by
  have hfold := List.foldlRecOn
    (motive := fun largest => ∀ p ∈ largest, i.scopes.lookup p.1 = some p.2) range i.larger
    (b := none) (by simp) (fun _ hlarger scope _ => lookup_larger hlarger scope)
  exact hfold (scope, facts) h

theorem FactIndex.Kept.evictFromLargestScope (h : i.Kept)
    (range : List FactScope) : (i.evictFromLargestScope range).2.Kept := by
  unfold FactIndex.evictFromLargestScope
  split
  · exact h
  · rename_i scope facts hlarge
    have hevict : Queue.Kept i.seq facts.evictOldest.2 :=
      (h scope facts (lookup_largestScope hlarge)).evictFrom
    split
    · rename_i heq
      rw [heq] at hevict
      exact FactIndex.Kept.putScope (i := { i with total := i.total - 1 }) h scope hevict
    · rename_i heq
      rw [heq] at hevict
      exact h.insert hevict

theorem FactIndex.Kept.evictDownTo (h : i.Kept) (range : FactIndex → List FactScope)
    (fuel : Nat) : (i.evictDownTo range fuel).Kept := by
  induction fuel generalizing i with
  | zero => exact h
  | succ fuel ih =>
    have hevict := h.evictFromLargestScope (range i)
    rw [FactIndex.evictDownTo]
    split_ifs
    · split
      · rename_i heq
        rw [heq] at hevict
        exact ih hevict
      · rename_i heq
        rw [heq] at hevict
        exact hevict
    · exact h

theorem FactIndex.Kept.filed (h : i.Kept) (parse : FactParsers) (scope : FactScope)
    (fact : AuthorFact) (now : Int) : (i.filed parse scope fact now).Kept := by
  have hfile := (h.scopeFor scope).file parse fact now
  have hle := le_file_seq parse (i.scopeFor scope) i.seq fact now
  intro scope' facts hfact
  rw [FactIndex.filed, lookup_insert_ite] at hfact
  split_ifs at hfact
  · exact Option.some.inj hfact ▸ hfile
  · exact (h scope' facts hfact).mono hle

theorem FactIndex.Kept.store (h : i.Kept) (parse : FactParsers) (range : FactIndex → List FactScope)
    (scope : FactScope) (fact : AuthorFact) (now : Int) :
    (i.store parse range scope fact now).Kept := by
  have hfile := h.filed parse scope fact now
  refine FactIndex.Kept.evictDownTo ?_ range _
  exact FactIndex.Kept.putScope (i := { i.filed parse scope fact now with total := _ }) hfile scope
    ((hfile.scopeFor scope).evictDownTo _ _)

theorem FactIndex.Kept.sweep (h : i.Kept) (now : Int) : (i.sweep now).Kept := by
  intro scope facts hfact
  have hsweep := ((lookup_keepEntries_iff _ _ _ _).mp hfact).1
  rw [lookup_mapValues] at hsweep
  obtain ⟨before, hbefore, rfl⟩ := Option.map_eq_some_iff.mp hsweep
  exact (h scope before hbefore).sweep _

/-- What reaches the index: an entry of a stream, or the sweep. -/
inductive IndexInput where
  | apply (range : FactIndex → List FactScope) (entry : FactEntry) (now : Int)
  | sweep (now : Int)

def indexStep (parse : FactParsers) (i : FactIndex) : IndexInput → FactIndex
  | .apply range entry now => i.apply parse range entry now
  | .sweep now => i.sweep now

theorem FactIndex.Kept.step (h : i.Kept) (parse : FactParsers)
    (input : IndexInput) : (indexStep parse i input).Kept := by
  cases input with
  | sweep now => exact h.sweep now
  | apply range entry now =>
    exact List.foldlRecOn entry.facts _ h (fun i hi fact _ => hi.store parse range _ fact _)

theorem FactIndex.kept_run (parse : FactParsers) (cfg : FactIndexConfig)
    (inputs : List IndexInput) : (inputs.foldl (indexStep parse) (newFactIndex cfg)).Kept :=
  List.foldlRecOn inputs _ (FactIndex.kept_new cfg) (fun _ hi input _ => hi.step parse input)

/-! ## 5. What a removal is answered -/

/-- Unexpired evidence about the deletion of the object. -/
def DeletionEvidence (facts : ScopeFacts) (q : FactQuery) (cutoff : Int) : Prop :=
  (∃ pointer, facts.keyed.lookup (.removal q.uid) = some pointer) ∨
  (∃ c ∈ facts.collections, c.covers q cutoff = true ∧ c.namesUID q.uid = true) ∨
  (∃ fact, facts.lookupLatest q.uid cutoff = some fact ∧ isRemovalVerb fact.verb = true) ∨
  (∃ fact, facts.lookupName q.ns q.name cutoff = some fact ∧ isRemovalVerb fact.verb = true)

/-- The exact tier holds a write, while a collection's uid set or the name tier holds the
    deletion and no removal pointer is there to be read first. -/
structure Shadowed (facts : ScopeFacts) (q : FactQuery) (cutoff : Int) : Prop where
  unpointed : facts.stickyRemoval q = none
  write : ∃ r, facts.exactTier q cutoff = some r ∧ r.aboutRemoval = false
  deletion : (∃ r, facts.collectionTier q cutoff = some r) ∨
    ∃ r, facts.nameTier q cutoff = some r ∧ r.aboutRemoval = true

/-- A write is the answer only without evidence about the deletion. -/
def Outranks (facts : ScopeFacts) (q : FactQuery) (cutoff : Int) (answer : Option AuthorResolution) :
    Prop :=
  ∀ r, answer = some r → r.aboutRemoval = false → ¬ DeletionEvidence facts q cutoff

theorem stickyRemoval_eq (huid : q.uid ≠ "") : facts.stickyRemoval q =
      (facts.keyed.lookup (.removal q.uid)).map (fun e => ⟨e.fact, .deleteSticky⟩) := by
  rw [ScopeFacts.stickyRemoval, if_neg huid, ScopeFacts.lookupRemovalPointer, Option.map_map]
  rfl

theorem Indexed.stickyRemoval (h : Indexed seq facts) (hr : facts.stickyRemoval q = some r) :
    r.aboutRemoval = true := by
  unfold ScopeFacts.stickyRemoval ScopeFacts.lookupRemovalPointer at hr
  split_ifs at hr
  obtain ⟨fact, hfact, rfl⟩ := Option.map_eq_some_iff.mp hr
  obtain ⟨entry, hentry, rfl⟩ := Option.map_eq_some_iff.mp hfact
  exact h.holds _ entry hentry

theorem matchCollectionUID_isSome_iff : (∃ fact, facts.matchCollectionUID q cutoff = some fact) ↔
      ∃ c ∈ facts.collections, c.covers q cutoff = true ∧ c.namesUID q.uid = true := by
  rw [← Option.isSome_iff_exists, ScopeFacts.matchCollectionUID, Option.isSome_map, List.find?_isSome]
  simp

theorem collectionTier_iff (huid : q.uid ≠ "") : (∃ r, facts.collectionTier q cutoff = some r) ↔
      ∃ c ∈ facts.collections, c.covers q cutoff = true ∧ c.namesUID q.uid = true := by
  rw [← matchCollectionUID_isSome_iff, ScopeFacts.collectionTier, if_pos huid]
  simp

theorem Indexed.collectionTier (h : Indexed seq facts)
    (hr : facts.collectionTier q cutoff = some r) : r.aboutRemoval = true := by
  unfold ScopeFacts.collectionTier ScopeFacts.matchCollectionUID at hr
  split_ifs at hr
  obtain ⟨fact, hfact, rfl⟩ := Option.map_eq_some_iff.mp hr
  obtain ⟨c, hc, rfl⟩ := Option.map_eq_some_iff.mp hfact
  have hmem : c ∈ facts.collections := List.mem_reverse.mp (List.mem_of_find?_eq_some hc)
  simp [AuthorResolution.aboutRemoval, isRemovalVerb, h.collected c hmem]

theorem Indexed.nameTier_iff (h : Indexed seq facts) :
    (∃ r, facts.nameTier q cutoff = some r ∧ r.aboutRemoval = true) ↔
      ∃ fact, facts.lookupName q.ns q.name cutoff = some fact ∧ isRemovalVerb fact.verb = true := by
  by_cases hname : q.name = ""
  · have hnone : facts.keyed.lookup (.name q.ns q.name) = none := by
      refine Option.eq_none_iff_forall_ne_some.mpr (fun entry hentry => ?_)
      exact h.holds _ entry hentry hname
    rw [ScopeFacts.lookupName, hnone, ScopeFacts.nameTier, if_neg (not_not.mpr hname)]
    simp [ScopeFacts.liveFact]
  · simp [ScopeFacts.nameTier, hname, AuthorResolution.aboutRemoval]

theorem Kept.latest_pointed (h : Kept seq facts) (hlatest : facts.lookupLatest q.uid cutoff = some fact)
    (hverb : isRemovalVerb fact.verb = true) :
    ∃ pointer, facts.keyed.lookup (.removal q.uid) = some pointer := by
  obtain ⟨entry, hentry, rfl⟩ := Option.map_eq_some_iff.mp hlatest
  obtain ⟨pointer, hpoint, -⟩ := h.pointed q.uid entry (Option.eq_some_of_filter_eq_some hentry) hverb
  exact ⟨pointer, hpoint⟩

/-- Below the pointer, what is left of the evidence is a collection that names the object, or the
    name tier. -/
theorem Kept.evidence_iff (h : Kept seq facts) (huid : q.uid ≠ "")
    (hsticky : facts.stickyRemoval q = none) :
    DeletionEvidence facts q cutoff ↔ (∃ r, facts.collectionTier q cutoff = some r) ∨
      ∃ r, facts.nameTier q cutoff = some r ∧ r.aboutRemoval = true := by
  have hpoint : ¬ ∃ pointer, facts.keyed.lookup (.removal q.uid) = some pointer := by
    rw [stickyRemoval_eq huid, Option.map_eq_none_iff] at hsticky
    simp [hsticky]
  rw [collectionTier_iff huid, h.indexed.nameTier_iff]
  constructor
  · rintro (hp | hcollection | ⟨fact, hlater, hverb⟩ | hname)
    · exact absurd hp hpoint
    · exact .inl hcollection
    · exact absurd (h.latest_pointed hlater hverb) hpoint
    · exact .inr hname
  · rintro (hcollection | hname)
    · exact .inr (.inl hcollection)
    · exact .inr (.inr (.inr hname))

/-- The ladder of a removal answers with the deletion when it holds one. -/
theorem Indexed.lookupRemoval (h : Indexed seq facts)
    (hevidence : (∃ r, facts.collectionTier q cutoff = some r) ∨
      ∃ r, facts.nameTier q cutoff = some r ∧ r.aboutRemoval = true) :
    ∃ r, facts.lookupRemoval q now cutoff window = some r ∧ r.aboutRemoval = true := by
  unfold ScopeFacts.lookupRemoval
  cases hcollection : facts.collectionTier q cutoff with
  | some r => exact ⟨r, rfl, h.collectionTier hcollection⟩
  | none =>
    rw [Option.none_or]
    cases hlatest : (facts.latestTier q cutoff).filter (·.aboutRemoval) with
    | some r => exact ⟨r, rfl, (Option.filter_eq_some_iff.mp hlatest).2⟩
    | none =>
      rcases hevidence with ⟨r, hr⟩ | ⟨r, hname, hverb⟩
      · rw [hcollection] at hr
        cases hr
      · exact ⟨r, by simp [hname, Option.filter, hverb], hverb⟩

theorem Kept.outranks_iff (h : Kept seq facts) (hremove : q.exactCapable = false)
    (huid : q.uid ≠ "") (now cutoff window : Int) :
    Outranks facts q cutoff (facts.resolve q now cutoff window) ↔ ¬ Shadowed facts q cutoff := by
  unfold Outranks ScopeFacts.resolve
  rw [hremove]
  simp only [Bool.false_eq_true, if_false]
  cases hsticky : facts.stickyRemoval q with
  | some pointer =>
    have hverb := h.indexed.stickyRemoval hsticky
    constructor
    · intro _ hsha
      rw [hsha.unpointed] at hsticky
      cases hsticky
    · intro _ r hr hwrite
      cases hr
      rw [hverb] at hwrite
      cases hwrite
  | none =>
    rw [Option.none_or, h.evidence_iff huid hsticky]
    constructor
    · intro hout hsha
      obtain ⟨r, hexact, hwrite⟩ := hsha.write
      exact hout r (by rw [hexact]; rfl) hwrite hsha.deletion
    · intro hclean r hr hwrite hevidence
      cases hexact : facts.exactTier q cutoff with
      | some exact =>
        rw [hexact, Option.some_or] at hr
        cases hr
        exact hclean ⟨hsticky, ⟨_, hexact, hwrite⟩, hevidence⟩
      | none =>
        -- no exact write stands before the removal, which then answers
        obtain ⟨answer, hanswer, hverb⟩ := h.indexed.lookupRemoval hevidence
        rw [hexact, Option.none_or, hanswer, Option.some_or] at hr
        cases hr
        rw [hverb] at hwrite
        cases hwrite

/-! ## 6. Every state, every removal -/

namespace FactIndex

/-- `Lookup` answers a write only without unexpired evidence about the deletion. -/
def DeletionOutranks (i : FactIndex) (q : FactQuery) (now : Int) : Prop :=
  (i.lookup q now).result ≠ .absent → isRemovalVerb (i.lookup q now).fact.verb = false →
    ¬ DeletionEvidence (i.scopeFor q.scope) q (now - i.ttl)

def ExactWriteShadows (i : FactIndex) (q : FactQuery) (now : Int) : Prop :=
  Shadowed (i.scopeFor q.scope) q (now - i.ttl)

theorem resolve_new (q : FactQuery) (now cutoff window : Int) :
    newScopeFacts.resolve q now cutoff window = none := by
  simp [newScopeFacts, ScopeFacts.resolve, ScopeFacts.stickyRemoval, ScopeFacts.lookupRemovalPointer,
    ScopeFacts.exactTier, ScopeFacts.lookupExact, ScopeFacts.lookupRemoval, ScopeFacts.collectionTier,
    ScopeFacts.matchCollectionUID, ScopeFacts.latestTier, ScopeFacts.lookupLatest,
    ScopeFacts.nameTier, ScopeFacts.lookupName, ScopeFacts.matchCollectionScope, ScopeFacts.rvTier,
    ScopeFacts.lookupRV, ScopeFacts.liveFact]

theorem lookup_eq (i : FactIndex) (q : FactQuery) (now : Int) : i.lookup q now =
      ((i.scopeFor q.scope).resolve q now (now - i.ttl) i.collectionWindow).getD {} := by
  unfold FactIndex.lookup FactIndex.scopeFor
  cases i.scopes.lookup q.scope with
  | none => rw [Option.getD_none, resolve_new, Option.getD_none]
  | some facts => rfl

theorem result_ne_absent (h : facts.resolve q now cutoff window = some r) : r.result ≠ .absent := by
  simp only [ScopeFacts.resolve, ScopeFacts.lookupRemoval, ScopeFacts.stickyRemoval,
    ScopeFacts.exactTier, ScopeFacts.collectionTier, ScopeFacts.latestTier, ScopeFacts.nameTier,
    ScopeFacts.rvTier, Option.or_eq_some_iff, Option.ite_none_left_eq_some,
    Option.ite_none_right_eq_some, Option.map_eq_some_iff, Option.filter_eq_some_iff] at h
  grind

theorem deletionOutranks_iff_outranks (i : FactIndex) (q : FactQuery) (now : Int) :
    i.DeletionOutranks q now ↔ Outranks (i.scopeFor q.scope) q (now - i.ttl)
      ((i.scopeFor q.scope).resolve q now (now - i.ttl) i.collectionWindow) := by
  unfold DeletionOutranks Outranks
  rw [lookup_eq]
  cases hr : (i.scopeFor q.scope).resolve q now (now - i.ttl) i.collectionWindow with
  | none => simp
  | some r =>
    have hres := result_ne_absent hr
    simp [hres, AuthorResolution.aboutRemoval]

/-- In every state that entries and sweeps reach, a removal is answered with a write although a
    deletion is on record exactly when the exact tier shadows the record. -/
theorem deletion_outranks_iff_not_shadowed (parse : FactParsers) (cfg : FactIndexConfig)
    (inputs : List IndexInput) (q : FactQuery) (now : Int) (hremoval : q.exactCapable = false)
    (huid : q.uid ≠ "") :
    (inputs.foldl (indexStep parse) (newFactIndex cfg)).DeletionOutranks q now ↔
      ¬ (inputs.foldl (indexStep parse) (newFactIndex cfg)).ExactWriteShadows q now := by
  have hkept := kept_run parse cfg inputs
  generalize inputs.foldl (indexStep parse) (newFactIndex cfg) = i at hkept ⊢
  rw [deletionOutranks_iff_outranks]
  exact (hkept.scopeFor q.scope).outranks_iff hremoval huid now _ _

end FactIndex

/-! A finalizer patch at the resource version of the deletion, after the collection's delete. -/

def plainParsers : FactParsers := ⟨fun _ => none, fun _ => none⟩

def collectionDeleted : AuthorFact :=
  { ns := "shop", author := "alice", verb := "deletecollection", uids := ["u-1"] }

def finalizerPatched : AuthorFact :=
  { ns := "shop", uid := "u-1", name := "cart", author := "controller", verb := "patch",
    resourceVersion := "7" }

def objectDeleted : AuthorFact :=
  { ns := "shop", uid := "u-1", name := "cart", author := "alice", verb := "delete",
    resourceVersion := "7" }

def cartRemoved : FactQuery where
  auditRoute := "default"
  group := "apps"
  resource := "deployments"
  uid := "u-1"
  resourceVersion := "7"
  ns := "shop"
  labels := ∅
  name := "cart"
  exactCapable := false

def delivered (facts : List AuthorFact) : IndexInput :=
  .apply (fun i => i.scopes.keys) ⟨"default", "apps", "deployments", "1000-0", facts⟩ (2 * second)

theorem finalizer_patch_hides_collection_delete :
    ¬ ([delivered [collectionDeleted, finalizerPatched]].foldl (indexStep plainParsers)
      (newFactIndex ⟨0, 0, 0, 0⟩)).DeletionOutranks cartRemoved (2 * second) := by
  intro h
  refine h (by decide +kernel) (by decide +kernel) (.inr (.inl ?_))
  decide +kernel

theorem object_delete_outranks_finalizer_patch :
    ([delivered [objectDeleted, finalizerPatched]].foldl (indexStep plainParsers)
      (newFactIndex ⟨0, 0, 0, 0⟩)).DeletionOutranks cartRemoved (2 * second) := by
  refine (FactIndex.deletion_outranks_iff_not_shadowed plainParsers _ _ cartRemoved _ rfl (by decide)).mpr ?_
  intro h
  exact absurd h.unpointed (by decide +kernel)

end GitopsReverser.Queue
