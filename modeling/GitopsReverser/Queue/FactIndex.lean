import GitopsReverser.Reasoning.Accumulate
import GitopsReverser.Reasoning.Runs

/-!
# FactIndex — who wrote, and who deleted, an object

The in-memory index that joins watch events with audit facts: the structures a fact is filed
under, the caps and the sweep that bound them, and the tiers a lookup reads. Times and
durations are nanoseconds; the clock is an argument wherever the source reads it.
-/

namespace GitopsReverser.Queue

open Reasoning

/-! ## 1. Facts and queries -/

structure AuthorFact where
  ns : String := ""
  uid : String := ""
  name : String := ""
  author : String := ""
  verb : String := ""
  resourceVersion : String := ""
  stageTimestamp : String := ""
  labelSelector : String := ""
  uids : List String := []
  deriving DecidableEq, Repr

/-- `strings.EqualFold` against a word of ASCII letters that no other letter folds to. -/
def equalFold (s word : String) : Bool :=
  decide (s.toList.map Char.toLower = word.toList.map Char.toLower)

def deleteCollectionVerb : String := "deletecollection"

def isRemovalVerb (verb : String) : Bool :=
  equalFold verb "delete" || equalFold verb deleteCollectionVerb

structure FactScope where
  route : String
  groupResource : String
  deriving DecidableEq, Repr

def groupResourceKey (group resource : String) : String :=
  if group = "" then resource else group ++ "/" ++ resource

abbrev Labels := Dict String String

structure FactQuery where
  auditRoute : String
  group : String
  resource : String
  uid : String
  resourceVersion : String
  ns : String
  labels : Labels
  name : String
  exactCapable : Bool

def FactQuery.scope (q : FactQuery) : FactScope :=
  ⟨q.auditRoute, groupResourceKey q.group q.resource⟩

inductive AttributionResult where
  | deleteSticky
  | exact
  | latest
  | resourceVersion
  | deleteCollectionBodyUID
  | name
  | deleteCollectionScope
  | absent
  deriving DecidableEq, Repr

structure AuthorResolution where
  fact : AuthorFact := {}
  result : AttributionResult := .absent
  deriving DecidableEq, Repr

def FactQuery.awaitsBetterEvidence (q : FactQuery) (resolution : AuthorResolution) : Bool :=
  if q.exactCapable || resolution.result = .absent then false
  else
    match resolution.result with
    | .deleteSticky | .deleteCollectionBodyUID | .deleteCollectionScope => false
    | _ => !isRemovalVerb resolution.fact.verb

/-! ## 2. The structures of one scope -/

/-- The key of an entry in one of the keyed structures: `exact`, `latest`, `removals`, `rvOnly`
    and `byName` are one map here. -/
inductive FactKey where
  | exact (uid rv : String)
  | latest (uid : String)
  | removal (uid : String)
  | rv (rv : String)
  | name (ns name : String)
  deriving DecidableEq, Repr

structure IndexedFact where
  fact : AuthorFact
  storedAt : Int
  seq : Nat

/-- `stage` is missing for the zero time, `uids` when the response carried no body. -/
structure IndexedCollection where
  fact : AuthorFact
  storedAt : Int
  seq : Nat
  stage : Option Int
  selector : Option (Labels → Bool)
  invalidSelector : Bool
  uids : Option (List String)

/-- `factRef`; a reference without a key names a collection by its sequence number. -/
structure FactRef where
  key : Option FactKey
  seq : Nat
  deriving DecidableEq, Repr

structure ScopeFacts where
  keyed : Dict FactKey IndexedFact
  collections : List IndexedCollection
  order : List FactRef
  count : Int

def newScopeFacts : ScopeFacts := ⟨∅, [], [], 0⟩

/-- The parsers of `labels.Parse` and `time.Parse(time.RFC3339Nano, …)`. -/
structure FactParsers where
  selector : String → Option (Labels → Bool)
  time : String → Option Int

def parseStageTimestamp (parse : FactParsers) (stamp : String) : Option Int :=
  if stamp = "" then none else parse.time stamp

def newIndexedCollection (parse : FactParsers) (fact : AuthorFact) (now : Int) (seq : Nat) :
    IndexedCollection where
  fact := fact
  storedAt := now
  seq := seq
  stage := parseStageTimestamp parse fact.stageTimestamp
  selector := if fact.labelSelector = "" then none else parse.selector fact.labelSelector
  invalidSelector := fact.labelSelector ≠ "" && (parse.selector fact.labelSelector).isNone
  uids := if fact.uids = [] then none else some fact.uids

namespace ScopeFacts

def put (facts : ScopeFacts) (key : FactKey) (entry : IndexedFact) : ScopeFacts :=
  { facts with
    keyed := facts.keyed.insert key entry
    count := if key ∈ facts.keyed then facts.count else facts.count + 1
    order := facts.order ++ [⟨some key, entry.seq⟩] }

def putCollection (facts : ScopeFacts) (entry : IndexedCollection) : ScopeFacts :=
  { facts with
    collections := facts.collections ++ [entry]
    count := facts.count + 1
    order := facts.order ++ [⟨none, entry.seq⟩] }

def remove (facts : ScopeFacts) (ref : FactRef) : Option ScopeFacts :=
  match ref.key with
  | some key =>
    match facts.keyed.lookup key with
    | some entry =>
      if entry.seq = ref.seq then some { facts with keyed := facts.keyed.erase key } else none
    | none => none
  | none =>
    if facts.collections.any (fun c => c.seq = ref.seq) then
      some { facts with collections := facts.collections.eraseP (fun c => c.seq = ref.seq) }
    else none

def live (facts : ScopeFacts) (ref : FactRef) : Bool := (facts.remove ref).isSome

def evictFrom (facts : ScopeFacts) : List FactRef → Bool × ScopeFacts
  | [] => (false, { facts with order := [] })
  | ref :: rest =>
    match facts.remove ref with
    | some facts => (true, { facts with order := rest, count := facts.count - 1 })
    | none => facts.evictFrom rest

def evictOldest (facts : ScopeFacts) : Bool × ScopeFacts := facts.evictFrom facts.order

/-- The first loop of `enforceCaps`; every eviction uses up a reference, which bounds it. -/
def evictDownTo (limit : Int) : Nat → ScopeFacts → ScopeFacts
  | 0, facts => facts
  | fuel + 1, facts =>
    if facts.count > limit then
      match facts.evictOldest with
      | (true, facts) => facts.evictDownTo limit fuel
      | (false, facts) => facts
    else facts

def compact (facts : ScopeFacts) : ScopeFacts :=
  { facts with order := facts.order.filter facts.live }

/-- The entries `sweep` leaves: a removal pointer has no horizon. -/
def unswept (cutoff : Int) : FactKey → IndexedFact → Bool
  | .removal _, _ => true
  | _, entry => decide (cutoff ≤ entry.storedAt)

def sweep (facts : ScopeFacts) (cutoff : Int) : ScopeFacts :=
  let keyed := keepEntries (unswept cutoff) facts.keyed
  let collections := facts.collections.filter (fun c => decide (cutoff ≤ c.storedAt))
  compact
    { facts with
      keyed := keyed
      collections := collections
      count := facts.count - (facts.keyed.entries.length - keyed.entries.length : Int)
        - (facts.collections.length - collections.length : Int) }

def empty (facts : ScopeFacts) : Bool := decide (facts.count = 0)

/-! ## 3. Reading one scope -/

def liveFact (entry : Option IndexedFact) (cutoff : Int) : Option AuthorFact :=
  (entry.filter (fun e => decide (cutoff ≤ e.storedAt))).map (·.fact)

def lookupExact (facts : ScopeFacts) (uid rv : String) (cutoff : Int) : Option AuthorFact :=
  liveFact (facts.keyed.lookup (.exact uid rv)) cutoff

def lookupLatest (facts : ScopeFacts) (uid : String) (cutoff : Int) : Option AuthorFact :=
  liveFact (facts.keyed.lookup (.latest uid)) cutoff

/-- No cutoff: the pointer's horizon is a count rather than a clock. -/
def lookupRemovalPointer (facts : ScopeFacts) (uid : String) : Option AuthorFact :=
  (facts.keyed.lookup (.removal uid)).map (·.fact)

def lookupRV (facts : ScopeFacts) (rv : String) (cutoff : Int) : Option AuthorFact :=
  liveFact (facts.keyed.lookup (.rv rv)) cutoff

def lookupName (facts : ScopeFacts) (ns name : String) (cutoff : Int) : Option AuthorFact :=
  liveFact (facts.keyed.lookup (.name ns name)) cutoff

end ScopeFacts

namespace IndexedCollection

def covers (c : IndexedCollection) (q : FactQuery) (cutoff : Int) : Bool :=
  decide (cutoff ≤ c.storedAt) && decide (c.fact.ns = q.ns)

def namesUID (c : IndexedCollection) (uid : String) : Bool :=
  match c.uids with
  | none => false
  | some uids => uids.contains uid

def inWindow (c : IndexedCollection) (now window : Int) : Bool :=
  decide (now ≤ c.stage.getD c.storedAt + window)

def selects (c : IndexedCollection) (labels : Labels) : Bool :=
  if c.invalidSelector then false
  else
    match c.selector with
    | none => true
    | some selector => selector labels

end IndexedCollection

namespace ScopeFacts

def matchCollectionUID (facts : ScopeFacts) (q : FactQuery) (cutoff : Int) : Option AuthorFact :=
  (facts.collections.reverse.find? (fun c => c.covers q cutoff && c.namesUID q.uid)).map (·.fact)

def matchCollectionScope (facts : ScopeFacts) (q : FactQuery) (now cutoff window : Int) :
    Option AuthorFact :=
  (facts.collections.reverse.find?
    (fun c => c.covers q cutoff && c.inWindow now window && c.selects q.labels)).map (·.fact)

def stickyRemoval (facts : ScopeFacts) (q : FactQuery) : Option AuthorResolution :=
  if q.uid = "" then none else (facts.lookupRemovalPointer q.uid).map (⟨·, .deleteSticky⟩)

def exactTier (facts : ScopeFacts) (q : FactQuery) (cutoff : Int) : Option AuthorResolution :=
  if q.uid ≠ "" ∧ q.resourceVersion ≠ "" then
    (facts.lookupExact q.uid q.resourceVersion cutoff).map (⟨·, .exact⟩)
  else none

def nameTier (facts : ScopeFacts) (q : FactQuery) (cutoff : Int) : Option AuthorResolution :=
  if q.name ≠ "" then (facts.lookupName q.ns q.name cutoff).map (⟨·, .name⟩) else none

def rvTier (facts : ScopeFacts) (q : FactQuery) (cutoff : Int) : Option AuthorResolution :=
  if q.resourceVersion ≠ "" then
    (facts.lookupRV q.resourceVersion cutoff).map (⟨·, .resourceVersion⟩)
  else none

def collectionTier (facts : ScopeFacts) (q : FactQuery) (cutoff : Int) : Option AuthorResolution :=
  if q.uid ≠ "" then
    (facts.matchCollectionUID q cutoff).map (⟨·, .deleteCollectionBodyUID⟩)
  else none

def latestTier (facts : ScopeFacts) (q : FactQuery) (cutoff : Int) : Option AuthorResolution :=
  if q.uid ≠ "" then (facts.lookupLatest q.uid cutoff).map (⟨·, .latest⟩) else none

end ScopeFacts

def AuthorResolution.aboutRemoval (resolution : AuthorResolution) : Bool :=
  isRemovalVerb resolution.fact.verb

namespace ScopeFacts

/-- A latest fact about a write is held back until the name tier was asked. -/
def lookupRemoval (facts : ScopeFacts) (q : FactQuery) (now cutoff window : Int) :
    Option AuthorResolution :=
  (facts.collectionTier q cutoff).or <|
  ((facts.latestTier q cutoff).filter (·.aboutRemoval)).or <|
  ((facts.nameTier q cutoff).filter (·.aboutRemoval)).or <|
  (facts.latestTier q cutoff).or <|
  (facts.matchCollectionScope q now cutoff window).map (⟨·, .deleteCollectionScope⟩)

def resolve (facts : ScopeFacts) (q : FactQuery) (now cutoff window : Int) : Option AuthorResolution :=
  (if q.exactCapable then none else facts.stickyRemoval q).or <|
  (facts.exactTier q cutoff).or <|
  (if q.exactCapable then none else facts.lookupRemoval q now cutoff window).or <|
  (facts.rvTier q cutoff).or <|
  facts.nameTier q cutoff

end ScopeFacts

/-! ## 4. The index -/

structure FactIndexConfig where
  ttl : Int
  maxFactsPerType : Int
  maxFactsTotal : Int
  collectionWindow : Int

structure FactIndex where
  ttl : Int
  maxPerType : Int
  maxTotal : Int
  collectionWindow : Int
  scopes : Dict FactScope ScopeFacts
  total : Int
  seq : Nat

def second : Int := 1000000000

def defaultAttributionFactTTL : Int := 10 * 60 * second
def defaultFactIndexMaxFactsPerType : Int := 4096
def defaultFactIndexMaxFactsTotal : Int := 65536
def defaultFactCollectionWindow : Int := 30 * second

def newFactIndex (cfg : FactIndexConfig) : FactIndex where
  ttl := if cfg.ttl ≤ 0 then defaultAttributionFactTTL else cfg.ttl
  maxPerType :=
    if cfg.maxFactsPerType ≤ 0 then defaultFactIndexMaxFactsPerType else cfg.maxFactsPerType
  maxTotal := if cfg.maxFactsTotal ≤ 0 then defaultFactIndexMaxFactsTotal else cfg.maxFactsTotal
  collectionWindow :=
    if cfg.collectionWindow ≤ 0 then defaultFactCollectionWindow else cfg.collectionWindow
  scopes := ∅
  total := 0
  seq := 0

/-- The structures a waiter key can belong to; a removal pointer has none of its own. -/
inductive WaiterKind where
  | exact
  | latest
  | rv
  | name
  | collection
  deriving DecidableEq, Repr

structure FactWaiterKey where
  scope : FactScope
  kind : WaiterKind
  value : String
  deriving DecidableEq, Repr

def exactWaiterValue (uid rv : String) : String := uid ++ "\x00" ++ rv

def nameWaiterValue (ns name : String) : String := ns ++ "\x00" ++ name

def FactKey.waiterKey (scope : FactScope) : FactKey → Option FactWaiterKey
  | .exact uid version => some ⟨scope, .exact, exactWaiterValue uid version⟩
  | .latest uid => some ⟨scope, .latest, uid⟩
  | .removal _ => none
  | .rv version => some ⟨scope, .rv, version⟩
  | .name ns object => some ⟨scope, .name, nameWaiterValue ns object⟩

def AuthorFact.keys (fact : AuthorFact) : List FactKey :=
  if fact.uid ≠ "" then
    (if fact.resourceVersion ≠ "" then [.exact fact.uid fact.resourceVersion] else []) ++
      [.latest fact.uid] ++
      (if isRemovalVerb fact.verb then [.removal fact.uid] else [])
  else if fact.resourceVersion ≠ "" then [.rv fact.resourceVersion]
  else if fact.name ≠ "" then [.name fact.ns fact.name]
  else []

def ScopeFacts.putAll (fact : AuthorFact) (now : Int) : List FactKey → Nat → ScopeFacts → ScopeFacts
  | [], _, facts => facts
  | key :: keys, seq, facts => putAll fact now keys (seq + 1) (facts.put key ⟨fact, now, seq + 1⟩)

def file (parse : FactParsers) (facts : ScopeFacts) (seq : Nat) (fact : AuthorFact) (now : Int) :
    ScopeFacts × Nat :=
  if equalFold fact.verb deleteCollectionVerb then
    (facts.putCollection (newIndexedCollection parse fact now (seq + 1)), seq + 1)
  else (facts.putAll fact now fact.keys seq, seq + fact.keys.length)

def filledKeys (scope : FactScope) (fact : AuthorFact) : List FactWaiterKey :=
  if equalFold fact.verb deleteCollectionVerb then [⟨scope, .collection, fact.ns⟩]
  else fact.keys.filterMap (·.waiterKey scope)

namespace FactIndex

def scopeFor (i : FactIndex) (scope : FactScope) : ScopeFacts :=
  (i.scopes.lookup scope).getD newScopeFacts

def putScope (i : FactIndex) (scope : FactScope) (facts : ScopeFacts) : FactIndex :=
  { i with scopes := if facts.empty then i.scopes.erase scope else i.scopes.insert scope facts }

def larger (i : FactIndex) (largest : Option (FactScope × ScopeFacts)) (scope : FactScope) :
    Option (FactScope × ScopeFacts) :=
  match i.scopes.lookup scope, largest with
  | none, _ => largest
  | some facts, none => some (scope, facts)
  | some facts, some (_, most) => if facts.count > most.count then some (scope, facts) else largest

def largestScope (i : FactIndex) (range : List FactScope) : Option (FactScope × ScopeFacts) :=
  range.foldl i.larger none

def evictFromLargestScope (i : FactIndex) (range : List FactScope) : Bool × FactIndex :=
  match i.largestScope range with
  | none => (false, i)
  | some (scope, facts) =>
    match facts.evictOldest with
    | (true, facts) => (true, { i with total := i.total - 1 }.putScope scope facts)
    | (false, facts) => (false, { i with scopes := i.scopes.insert scope facts })

/-- The second loop of `enforceCaps`; `range` gives the order of each pass over the map. -/
def evictDownTo (range : FactIndex → List FactScope) : Nat → FactIndex → FactIndex
  | 0, i => i
  | fuel + 1, i =>
    if i.total > i.maxTotal then
      match i.evictFromLargestScope (range i) with
      | (true, i) => i.evictDownTo range fuel
      | (false, i) => i
    else i

def references (i : FactIndex) : Nat := (i.scopes.entries.map (fun e => e.2.order.length)).sum

def enforceCaps (range : FactIndex → List FactScope) (i : FactIndex) (scope : FactScope)
    (facts : ScopeFacts) : FactIndex :=
  let kept := facts.evictDownTo i.maxPerType facts.order.length
  let i := { i with total := i.total - (facts.count - kept.count) }.putScope scope kept
  i.evictDownTo range i.references

def filed (parse : FactParsers) (i : FactIndex) (scope : FactScope) (fact : AuthorFact)
    (now : Int) : FactIndex :=
  let before := i.scopeFor scope
  let (facts, seq) := file parse before i.seq fact now
  { i with
    scopes := i.scopes.insert scope facts
    total := i.total + (facts.count - before.count)
    seq := seq }

def store (parse : FactParsers) (range : FactIndex → List FactScope) (i : FactIndex)
    (scope : FactScope) (fact : AuthorFact) (now : Int) : FactIndex :=
  let i := i.filed parse scope fact now
  i.enforceCaps range scope (i.scopeFor scope)

def sweep (i : FactIndex) (now : Int) : FactIndex :=
  let swept := mapValues (fun facts => facts.sweep (now - i.ttl)) i.scopes
  { i with
    scopes := keepEntries (fun _ facts => !facts.empty) swept
    total := i.total - ((i.scopes.entries.map (fun e => e.2.count)).sum -
        (swept.entries.map (fun e => e.2.count)).sum) }

def lookup (i : FactIndex) (q : FactQuery) (now : Int) : AuthorResolution :=
  match i.scopes.lookup q.scope with
  | none => {}
  | some facts => (facts.resolve q now (now - i.ttl) i.collectionWindow).getD {}

end FactIndex

/-! ## 5. Delivery -/

/-- The part of a position before the first dash, read as `strconv.ParseUint` reads it with its
    error ignored: zero for what is no number, the largest value past the range. -/
def streamMillis (id : String) : Nat :=
  let digits := id.toList.takeWhile (· ≠ '-')
  if digits = [] ∨ ¬ digits.all Char.isDigit then 0
  else min (digits.foldl (fun n c => n * 10 + (c.toNat - '0'.toNat)) 0) (2 ^ 64 - 1)

def entryAppendTime (id : String) (now : Int) : Int :=
  let millis := streamMillis id
  if millis = 0 ∨ millis > 2 ^ 63 - 1 then now
  else if (millis : Int) * 1000000 > now then now
  else millis * 1000000

structure FactEntry where
  auditRoute : String
  group : String
  resource : String
  id : String
  facts : List AuthorFact

def FactEntry.scope (entry : FactEntry) : FactScope :=
  ⟨entry.auditRoute, groupResourceKey entry.group entry.resource⟩

def FactIndex.apply (parse : FactParsers) (range : FactIndex → List FactScope) (i : FactIndex)
    (entry : FactEntry) (now : Int) : FactIndex :=
  entry.facts.foldl
    (fun i fact => i.store parse range entry.scope fact (entryAppendTime entry.id now)) i

end GitopsReverser.Queue
