import GitopsReverser.Reasoning.Runs

/-!
# FactStream — the in-memory fact transport, and one follower of one stream

A stream is a ring of entries with increasing positions. Retention drops the oldest, on every
publish to any stream. The follower keeps a cursor, and infers from its `behind` mark and the
oldest surviving position that entries were dropped before it read them. Next to the state stands
what has happened: all that was published, delivered and reported.
-/

namespace GitopsReverser.Queue

open Reasoning

/-! ## 1. Rings -/

/-- A position `<millis>-<seq>`, in the order of `compareStreamIDs`. -/
abbrev StreamID := ℕ ×ₗ ℕ

variable {Raw Facts : Type}

structure MemFactEntry (Raw : Type) where
  id : StreamID
  time : Int
  raw : Raw
  deriving DecidableEq

/-- `last` is the position given last: `lastMillis` and `lastSeq`. -/
structure MemFactRing (Raw : Type) where
  entries : List (MemFactEntry Raw)
  last : StreamID
  deriving DecidableEq

/-- `MemoryFactStreamConfig` with its defaults filled in; no positive `maxLen` is no cap. -/
structure MemFactConfig where
  ttl : Int
  maxLen : Int
  readCount : Nat
  readCount_pos : 0 < readCount

def unixMilli (now : Int) : Nat := (now / 1000000).toNat

/-- A clock that has not moved on, or stepped back, takes the next sequence number. -/
def nextID (last : StreamID) (now : Int) : StreamID :=
  if (ofLex last).1 < unixMilli now then toLex (unixMilli now, 0)
  else toLex ((ofLex last).1, (ofLex last).2 + 1)

/-- `memFactRing.trim`: what is older than the horizon, then what is beyond the cap. -/
def trim (cfg : MemFactConfig) (now : Int) (entries : List (MemFactEntry Raw)) :
    List (MemFactEntry Raw) :=
  let aged := (entries.takeWhile (fun e => e.time < now - cfg.ttl)).length
  let excess := if 0 < cfg.maxLen then entries.length - aged - cfg.maxLen.toNat else 0
  entries.drop (aged + excess)

/-! ## 2. A stream and its follower -/

structure FactStreamGap where
  cursor : StreamID
  firstSurviving : StreamID
  deriving DecidableEq

/-- The stream, the `followState` of its follower, and the record of what has happened. -/
structure Following (Raw Facts : Type) where
  ring : Option (MemFactRing Raw)
  cursor : StreamID
  behind : Bool
  reportedGap : Option StreamID
  published : List (MemFactEntry Raw)
  delivered : List (StreamID × Facts)
  gaps : List FactStreamGap
  deriving DecidableEq

def followFrom (start : StreamID) : Following Raw Facts := ⟨none, start, false, none, [], [], []⟩

inductive StreamAct (Raw : Type) where
  | publish (raw : Raw) (now : Int)
  /-- A publish on another stream, which ages this one too. -/
  | elsewhere (now : Int)
  | next
  deriving DecidableEq

variable (cfg : MemFactConfig) (decode : Raw → Option Facts)

namespace Following

def entries (s : Following Raw Facts) : List (MemFactEntry Raw) :=
  s.ring.elim [] MemFactRing.entries

def nextPosition (s : Following Raw Facts) (now : Int) : StreamID :=
  nextID (s.ring.elim (toLex (0, 0)) MemFactRing.last) now

def stored (s : Following Raw Facts) : StreamAct Raw → List (MemFactEntry Raw)
  | .publish raw now => s.entries ++ [⟨s.nextPosition now, now, raw⟩]
  | _ => s.entries

end Following

/-- What retention leaves of it; the stream that is published to is trimmed twice. -/
def StreamAct.retain : StreamAct Raw → List (MemFactEntry Raw) → List (MemFactEntry Raw)
  | .publish _ now => fun entries => trim cfg now (trim cfg now entries)
  | .elsewhere now => trim cfg now
  | .next => id

/-- When an entry came in on this stream. -/
def StreamAct.publishedAt : StreamAct Raw → Option Int
  | .publish _ now => some now
  | _ => none

namespace Following

def keepRing (last : StreamID) (entries : List (MemFactEntry Raw)) : Option (MemFactRing Raw) :=
  if entries.isEmpty then none else some ⟨entries, last⟩

def gapIfTrimmedPast (s : Following Raw Facts) : Option FactStreamGap :=
  match s.entries.head? with
  | none => none
  | some oldest =>
    if s.behind ∧ s.cursor < oldest.id ∧ s.reportedGap ≠ some oldest.id then
      some ⟨s.cursor, oldest.id⟩
    else none

def readable (s : Following Raw Facts) : List (MemFactEntry Raw) :=
  (s.entries.filter (fun e => s.cursor < e.id)).take cfg.readCount

/-- `memFactSubscription.collect` of this stream. An entry that does not decode is passed over. -/
def collect (s : Following Raw Facts) : Following Raw Facts :=
  let reported := s.gapIfTrimmedPast.elim s.reportedGap (fun gap => some gap.firstSurviving)
  let gaps := s.gaps ++ s.gapIfTrimmedPast.toList
  match (s.readable cfg).getLast? with
  | none => { s with behind := false, reportedGap := reported, gaps := gaps }
  | some last =>
    { s with
      cursor := last.id
      behind := decide (cfg.readCount ≤ (s.readable cfg).length)
      reportedGap := if reported.any (fun gap => gap ≤ last.id) then none else reported
      gaps := gaps
      delivered := s.delivered ++
        (s.readable cfg).filterMap (fun e => (decode e.raw).map (fun facts => (e.id, facts))) }

def step (s : Following Raw Facts) (a : StreamAct Raw) : Following Raw Facts :=
  let kept := a.retain cfg (s.stored a)
  match a with
  | .publish raw now =>
    { s with
      ring := keepRing (s.nextPosition now) kept
      published := s.published ++ [⟨s.nextPosition now, now, raw⟩] }
  | .elsewhere _ => { s with ring := s.ring.bind (fun r => keepRing r.last kept) }
  | .next => s.collect cfg decode

end Following

/-! ## 3. Retention and the follower -/

/-- Retention and the clock leave the follower able to tell what it lost. -/
structure Paced (s : Following Raw Facts) (a : StreamAct Raw) : Prop where
  /-- An unread entry is dropped only under a follower that is marked behind. -/
  dropped : ∀ e ∈ s.stored a, e ∉ a.retain cfg (s.stored a) → s.cursor < e.id → s.behind = true
  /-- A read that finds the ring gone has missed nothing. -/
  found : a = .next → s.ring = none → ∀ e ∈ s.published, e.id ≤ s.cursor
  /-- A follower marked behind is not read after retention dropped just what it had read. -/
  passed : a = .next → s.behind = true → ∀ o, s.entries.head? = some o → s.cursor < o.id →
    ∃ e ∈ s.published, e ∉ s.entries ∧ s.cursor < e.id
  /-- A ring that is created anew starts past all earlier positions. -/
  renewed : s.ring = none → ∀ now ∈ a.publishedAt, ∀ e ∈ s.published, e.id < s.nextPosition now

instance [DecidableEq Raw] (s : Following Raw Facts) (a : StreamAct Raw) :
    Decidable (Paced cfg s a) :=
  decidable_of_iff
    ((∀ e ∈ s.stored a, e ∉ a.retain cfg (s.stored a) → s.cursor < e.id → s.behind = true) ∧
      (a = .next → s.ring.isNone → ∀ e ∈ s.published, e.id ≤ s.cursor) ∧
      (a = .next → s.behind = true → ∀ o ∈ s.entries.head?, s.cursor < o.id →
        ∃ e ∈ s.published, e ∉ s.entries ∧ s.cursor < e.id) ∧
      (s.ring.isNone → ∀ now ∈ a.publishedAt, ∀ e ∈ s.published, e.id < s.nextPosition now))
    ⟨fun h => ⟨h.1, by simpa using h.2.1, h.2.2.1, by simpa using h.2.2.2⟩,
      fun h => ⟨h.dropped, by simpa using h.found, h.passed, by simpa using h.renewed⟩⟩

/-- The ring is the end of what was published; before it lies what was read or lost. -/
structure Tracked (start : StreamID) (s : Following Raw Facts) : Prop where
  sorted : s.published.Pairwise (fun e e' => e.id < e'.id)
  ring : ∃ old, s.published = old ++ s.entries ∧ ∀ e ∈ old, s.cursor < e.id → s.behind = true
  stands : ∀ r, s.ring = some r → r.entries ≠ []
  last : ∀ r, s.ring = some r → ∀ e ∈ s.published, e.id ≤ r.last
  clear : s.reportedGap = none
  started : start ≤ s.cursor
  cursor : s.cursor = start ∨ ∃ e ∈ s.published, s.cursor = e.id
  accounted : ∀ e ∈ s.published, start < e.id → e.id ≤ s.cursor → ∀ facts,
    decode e.raw = some facts → (e.id, facts) ∈ s.delivered ∨
      ∃ gap ∈ s.gaps, gap.cursor < e.id ∧ e.id < gap.firstSurviving
  inOrder : s.delivered.Pairwise (fun d d' => d.1 < d'.1)
  delivered : ∀ d ∈ s.delivered, start < d.1 ∧ d.1 ≤ s.cursor ∧
    ∃ e ∈ s.published, e.id = d.1 ∧ decode e.raw = some d.2
  lost : ∀ gap ∈ s.gaps, ∃ e ∈ s.published, gap.cursor < e.id ∧ e.id < gap.firstSurviving ∧
    e.id ≤ s.cursor ∧ e ∉ s.entries ∧ ∀ d ∈ s.delivered, d.1 ≠ e.id

variable {cfg : MemFactConfig} {decode : Raw → Option Facts} {s : Following Raw Facts}
  {a : StreamAct Raw} {start : StreamID}

theorem lt_nextID (last : StreamID) (now : Int) : last < nextID last now := by
  unfold nextID
  rw [Prod.Lex.lt_iff]
  split_ifs with h
  · exact .inl h
  · exact .inr ⟨rfl, Nat.lt_succ_self _⟩

theorem retain_suffix (cfg : MemFactConfig) (a : StreamAct Raw) (l : List (MemFactEntry Raw)) :
    a.retain cfg l <:+ l := by
  cases a with
  | publish raw now => exact (List.drop_suffix _ _).trans (List.drop_suffix _ _)
  | elsewhere now => exact List.drop_suffix _ _
  | next => exact List.suffix_refl l

theorem entries_keepRing (last : StreamID) (entries : List (MemFactEntry Raw)) :
    (Following.keepRing last entries).elim [] MemFactRing.entries = entries := by
  unfold Following.keepRing
  split_ifs with h
  · exact (List.isEmpty_iff.mp h).symm
  · rfl

theorem keepRing_eq_some (h : Following.keepRing last entries = some r) :
    r.last = last ∧ r.entries ≠ [] := by
  unfold Following.keepRing at h
  split_ifs at h with hempty
  cases h
  exact ⟨rfl, by simpa using hempty⟩

theorem Tracked.retained (h : Tracked decode start s) (hp : Paced cfg s a)
    {ring : Option (MemFactRing Raw)}
    (hstored : s.stored a = s.entries ++ added)
    (hsorted : (s.published ++ added).Pairwise (fun e e' => e.id < e'.id))
    (hring : ring.elim [] MemFactRing.entries = a.retain cfg (s.stored a))
    (hlast : ∀ r, ring = some r →
      r.entries ≠ [] ∧ ∀ e ∈ s.published ++ added, e.id ≤ r.last) :
    Tracked decode start { s with ring := ring, published := s.published ++ added } := by
  obtain ⟨old, hold, hloss⟩ := h.ring
  obtain ⟨dropped, hdropped⟩ := retain_suffix cfg a (s.stored a)
  have hlog : s.published ++ added = (old ++ dropped) ++ a.retain cfg (s.stored a) := by
    rw [hold, List.append_assoc, ← hstored, List.append_assoc, hdropped]
  have hgone : ∀ e ∈ dropped, e ∉ a.retain cfg (s.stored a) := by
    intro e he hkept
    rw [hlog] at hsorted
    exact lt_irrefl _
      ((List.pairwise_append.mp hsorted).2.2 e (List.mem_append_right old he) e hkept)
  have hback : ∀ e ∈ added, e.id ≤ s.cursor → start < e.id → False := by
    intro e he hle hlt
    rcases h.cursor with hcursor | ⟨x, hx, hcursor⟩
    · exact absurd (hcursor ▸ hle) (not_le_of_gt hlt)
    · exact absurd (hcursor ▸ hle)
        (not_le_of_gt ((List.pairwise_append.mp hsorted).2.2 x hx e he))
  refine ⟨hsorted, ⟨old ++ dropped, hlog.trans (congrArg _ hring.symm), fun e he hunread => ?_⟩,
    fun r hr => (hlast r hr).1, fun r hr => (hlast r hr).2, h.clear, h.started, ?_, ?_, h.inOrder,
    ?_, ?_⟩
  · rcases List.mem_append.mp he with he | he
    · exact hloss e he hunread
    · exact hp.dropped e (by rw [← hdropped]; exact List.mem_append_left _ he) (hgone e he) hunread
  · rcases h.cursor with hcursor | ⟨x, hx, hcursor⟩
    · exact .inl hcursor
    · exact .inr ⟨x, List.mem_append_left _ hx, hcursor⟩
  · intro e he hlt hle facts hfacts
    rcases List.mem_append.mp he with he | he
    · exact h.accounted e he hlt hle facts hfacts
    · exact (hback e he hle hlt).elim
  · intro d hd
    obtain ⟨hlt, hle, e, he, hid⟩ := h.delivered d hd
    exact ⟨hlt, hle, e, List.mem_append_left _ he, hid⟩
  · intro gap hgap
    obtain ⟨e, he, hafter, hbefore, hle, hout, hfresh⟩ := h.lost gap hgap
    refine ⟨e, List.mem_append_left _ he, hafter, hbefore, hle, fun hkept => ?_, hfresh⟩
    simp only [Following.entries, hring] at hkept
    have hmem := (retain_suffix cfg a (s.stored a)).mem hkept
    rw [hstored] at hmem
    rcases List.mem_append.mp hmem with hmem | hmem
    · exact hout hmem
    · exact lt_irrefl _ ((List.pairwise_append.mp hsorted).2.2 e he e hmem)

theorem Tracked.publish (h : Tracked decode start s) {now : Int} (hp : Paced cfg s (.publish raw now)) :
    Tracked decode start (s.step cfg decode (.publish raw now)) := by
  have hpast : ∀ e ∈ s.published, e.id < s.nextPosition now := by
    cases hring : s.ring with
    | none => exact hp.renewed hring now rfl
    | some r =>
      intro e he
      rw [Following.nextPosition, hring]
      exact lt_of_le_of_lt (h.last r hring e he) (lt_nextID r.last now)
  refine h.retained hp rfl ?_ (entries_keepRing _ _) (fun r hr => ?_)
  · exact List.pairwise_append.mpr ⟨h.sorted, List.pairwise_singleton _ _, fun e he e' he' => by
      rw [List.mem_singleton.mp he']
      exact hpast e he⟩
  · obtain ⟨hlast, hentries⟩ := keepRing_eq_some hr
    refine ⟨hentries, fun e he => ?_⟩
    rw [hlast]
    rcases List.mem_append.mp he with he | he
    · exact (hpast e he).le
    · rw [List.mem_singleton.mp he]

theorem Tracked.elsewhere (h : Tracked decode start s) {now : Int} (hp : Paced cfg s (.elsewhere now)) :
    Tracked decode start (s.step cfg decode (.elsewhere now)) := by
  have hsorted : (s.published ++ ([] : List (MemFactEntry Raw))).Pairwise
      (fun e e' => e.id < e'.id) := by simpa using h.sorted
  have hring : (s.step cfg decode (.elsewhere now)).ring.elim [] MemFactRing.entries =
      (StreamAct.elsewhere now).retain cfg (s.stored (.elsewhere now)) := by
    cases hring : s.ring with
    | none => simp [Following.step, StreamAct.retain, Following.stored, Following.entries, hring, trim]
    | some r =>
      simp only [Following.step, hring, Option.bind_some]
      exact entries_keepRing _ _
  have hstep := h.retained hp (List.append_nil _).symm hsorted hring (fun r hr => ?_)
  · simpa [Following.step] using hstep
  · obtain ⟨r', hring, hkeep⟩ := Option.bind_eq_some_iff.mp hr
    obtain ⟨hlast, hentries⟩ := keepRing_eq_some hkeep
    refine ⟨hentries, fun e he => ?_⟩
    rw [hlast]
    exact h.last r' hring e (by simpa using he)

/-! ## 4. Reading -/

@[simp] theorem entries_collect (s : Following Raw Facts) :
    (s.collect cfg decode).entries = s.entries := by
  unfold Following.collect
  split <;> rfl

@[simp] theorem published_collect (s : Following Raw Facts) :
    (s.collect cfg decode).published = s.published := by
  unfold Following.collect
  split <;> rfl

@[simp] theorem ring_collect (s : Following Raw Facts) :
    (s.collect cfg decode).ring = s.ring := by
  unfold Following.collect
  split <;> rfl

theorem mem_readable (h : e ∈ s.readable cfg) : e ∈ s.entries ∧ s.cursor < e.id := by
  simpa using List.mem_of_mem_take h

theorem readable_none (h : (s.readable cfg).getLast? = none) : ∀ e ∈ s.entries, e.id ≤ s.cursor := by
  have hnil := List.getLast?_eq_none_iff.mp h
  rw [Following.readable, List.take_eq_nil_iff, List.filter_eq_nil_iff] at hnil
  intro e he
  simpa using hnil.resolve_left cfg.readCount_pos.ne' e he

section

variable (hsorted : s.entries.Pairwise (fun e e' => e.id < e'.id))

include hsorted

theorem mem_readable_of_le (hlast : (s.readable cfg).getLast? = some last)
    (he : e ∈ s.entries) (hunread : s.cursor < e.id) (hle : e.id ≤ last.id) :
    e ∈ s.readable cfg := by
  have hmem : e ∈ s.entries.filter (fun e => s.cursor < e.id) := by simp [he, hunread]
  have hfilter := hsorted.filter (fun e => decide (s.cursor < e.id))
  rw [← List.take_append_drop cfg.readCount (s.entries.filter _)] at hmem hfilter
  rcases List.mem_append.mp hmem with hmem | hmem
  · exact hmem
  · have hlt := (List.pairwise_append.mp hfilter).2.2 last (List.mem_of_getLast? hlast) e hmem
    exact absurd hle (not_le_of_gt hlt)

theorem readable_le_last (hlast : (s.readable cfg).getLast? = some last)
    (he : e ∈ s.readable cfg) : e.id ≤ last.id := by
  have hread : (s.readable cfg).Pairwise (fun e e' => e.id < e'.id) :=
    (hsorted.filter _).sublist (List.take_sublist _ _)
  obtain ⟨init, hinit⟩ := List.getLast?_eq_some_iff.mp hlast
  rw [hinit] at hread he
  rcases List.mem_append.mp he with he | he
  · exact ((List.pairwise_append.mp hread).2.2 e he last (by simp)).le
  · rw [List.mem_singleton.mp he]

theorem head_le_of_mem (ho : s.entries.head? = some o) (he : e ∈ s.entries) : o.id ≤ e.id := by
  obtain ⟨rest, hrest⟩ := List.head?_eq_some_iff.mp ho
  rw [hrest] at hsorted he
  rcases List.mem_cons.mp he with heq | hmem
  · rw [heq]
  · exact ((List.pairwise_cons.mp hsorted).1 e hmem).le

/-- A read takes the first unread entries, as many as it may. -/
theorem unread_collect : (s.collect cfg decode).entries.filter
      (fun e => (s.collect cfg decode).cursor < e.id) =
    (s.entries.filter (fun e => s.cursor < e.id)).drop cfg.readCount := by
  rw [entries_collect]
  cases hlast : (s.readable cfg).getLast? with
  | none =>
    have hall := readable_none hlast
    have hnil : s.entries.filter (fun e => s.cursor < e.id) = [] := by simpa using hall
    simp [Following.collect, hlast, hnil]
  | some last =>
    have hmoved := (mem_readable (List.mem_of_getLast? hlast)).2
    have hcursor : (s.collect cfg decode).cursor = last.id := by simp [Following.collect, hlast]
    have hsplit := List.take_append_drop cfg.readCount (s.entries.filter (fun e => s.cursor < e.id))
    have hfilter := hsorted.filter (fun e => decide (s.cursor < e.id))
    rw [← hsplit] at hfilter
    calc s.entries.filter (fun e => (s.collect cfg decode).cursor < e.id)
      _ = (s.entries.filter (fun e => s.cursor < e.id)).filter (fun e => last.id < e.id) := by
        rw [hcursor, List.filter_filter]
        refine List.filter_congr (fun e _ => ?_)
        by_cases hlt : last.id < e.id
        · simp [hlt, hmoved.trans hlt]
        · simp [hlt]
      _ = (s.readable cfg).filter (fun e => last.id < e.id) ++
          ((s.entries.filter (fun e => s.cursor < e.id)).drop cfg.readCount).filter
            (fun e => last.id < e.id) := by
        rw [Following.readable, ← List.filter_append, hsplit]
      _ = (s.entries.filter (fun e => s.cursor < e.id)).drop cfg.readCount := by
        rw [List.filter_eq_nil_iff.mpr, List.nil_append, List.filter_eq_self.mpr]
        · exact fun e he => decide_eq_true
            ((List.pairwise_append.mp hfilter).2.2 last (List.mem_of_getLast? hlast) e he)
        · exact fun e he => by simpa using readable_le_last hsorted hlast he

end

theorem behind_collect (h : (s.entries.filter (fun e => s.cursor < e.id)).length < cfg.readCount) :
    (s.collect cfg decode).behind = false := by
  unfold Following.collect
  split
  · rfl
  · simpa [Following.readable] using h

theorem gapIfTrimmedPast_eq_some (hclear : s.reportedGap = none) :
    s.gapIfTrimmedPast = some gap ↔ s.behind = true ∧
      ∃ o, s.entries.head? = some o ∧ s.cursor < o.id ∧ gap = ⟨s.cursor, o.id⟩ := by
  unfold Following.gapIfTrimmedPast
  cases s.entries.head? with
  | none => simp
  | some o =>
    constructor
    · intro hgap
      dsimp only at hgap
      split_ifs at hgap with hpast
      exact ⟨hpast.1, o, rfl, hpast.2.1, (Option.some.inj hgap).symm⟩
    · rintro ⟨hbehind, o', ho', hpast, rfl⟩
      cases ho'
      exact if_pos ⟨hbehind, hpast, by simp [hclear]⟩

theorem mem_decoded {entries : List (MemFactEntry Raw)} {d : StreamID × Facts}
    (hd : d ∈ entries.filterMap (fun e => (decode e.raw).map (fun facts => (e.id, facts)))) :
    ∃ e ∈ entries, e.id = d.1 ∧ decode e.raw = some d.2 := by
  obtain ⟨e, he, hd⟩ := List.mem_filterMap.mp hd
  obtain ⟨facts, hfacts, rfl⟩ := Option.map_eq_some_iff.mp hd
  exact ⟨e, he, rfl, hfacts⟩

section

variable (h : Tracked decode start s)

include h

theorem Tracked.entries_sorted : s.entries.Pairwise (fun e e' => e.id < e'.id) := by
  obtain ⟨old, hold, -⟩ := h.ring
  have hsorted := h.sorted
  rw [hold] at hsorted
  exact (List.pairwise_append.mp hsorted).2.1

theorem Tracked.gap_of_lost (hentries : s.entries ≠ []) (he : e ∈ s.published)
    (hunread : s.cursor < e.id) (hout : e ∉ s.entries) :
    ∃ gap, s.gapIfTrimmedPast = some gap ∧ gap.cursor < e.id ∧ e.id < gap.firstSurviving := by
  obtain ⟨old, hold, hloss⟩ := h.ring
  have hsorted := h.sorted
  rw [hold] at he hsorted
  have he := (List.mem_append.mp he).resolve_right hout
  have hlt := (List.pairwise_append.mp hsorted).2.2 e he _ (List.head_mem hentries)
  exact ⟨⟨s.cursor, _⟩, (gapIfTrimmedPast_eq_some h.clear).mpr
    ⟨hloss e he hunread, _, List.head?_eq_some_head hentries, hunread.trans hlt, rfl⟩, hunread, hlt⟩

theorem Tracked.caughtUp (hp : Paced cfg s .next) (hnone : (s.readable cfg).getLast? = none) :
    Tracked decode start (s.collect cfg decode) := by
  have hall := readable_none hnone
  have hgap : s.gapIfTrimmedPast = none := by
    rw [Option.eq_none_iff_forall_ne_some]
    intro gap hgap
    obtain ⟨-, o, ho, hpast, -⟩ := (gapIfTrimmedPast_eq_some h.clear).mp hgap
    exact absurd (hall o (List.mem_of_head? ho)) (not_le_of_gt hpast)
  have hcollect : s.collect cfg decode = { s with behind := false } := by
    simp [Following.collect, hnone, hgap]
  obtain ⟨old, hold, -⟩ := h.ring
  rw [hcollect]
  refine ⟨h.sorted, ⟨old, hold, fun e he hunread => ?_⟩, h.stands, h.last, h.clear, h.started,
    h.cursor, h.accounted, h.inOrder, h.delivered, h.lost⟩
  have hpublished : e ∈ s.published := hold ▸ List.mem_append_left _ he
  cases hring : s.ring with
  | none => exact absurd (hp.found rfl hring e hpublished) (not_le_of_gt hunread)
  | some r =>
    -- what follows it in the ring would be unread too
    obtain ⟨x, hx⟩ := List.exists_mem_of_ne_nil _ (h.stands r hring)
    have hx : x ∈ s.entries := by rwa [Following.entries, hring]
    have hsorted := h.sorted
    rw [hold] at hsorted
    have hlt := (List.pairwise_append.mp hsorted).2.2 e he x hx
    exact absurd (hall x hx) (not_le_of_gt (hunread.trans hlt))

theorem Tracked.collect_eq {last : MemFactEntry Raw}
    (hlast : (s.readable cfg).getLast? = some last)
    (hfirst : ∀ o, s.entries.head? = some o → o.id ≤ last.id) :
    s.collect cfg decode = { s with
      cursor := last.id
      behind := decide (cfg.readCount ≤ (s.readable cfg).length)
      gaps := s.gaps ++ s.gapIfTrimmedPast.toList
      delivered := s.delivered ++ (s.readable cfg).filterMap (fun e =>
        (decode e.raw).map (fun facts => (e.id, facts))) } := by
  -- the gap that is reported lies before the entry that is read
  simp only [Following.collect, hlast]
  cases hgap : s.gapIfTrimmedPast with
  | none => simp [h.clear]
  | some gap =>
    obtain ⟨-, o, ho, -, rfl⟩ := (gapIfTrimmedPast_eq_some h.clear).mp hgap
    simp [hfirst o ho, h.clear]

theorem Tracked.advanced (hp : Paced cfg s .next) {last : MemFactEntry Raw}
    (hlast : (s.readable cfg).getLast? = some last) :
    Tracked decode start (s.collect cfg decode) := by
  obtain ⟨old, hold, -⟩ := h.ring
  have hsorted := h.sorted
  rw [hold] at hsorted
  obtain ⟨-, hentries, hbefore⟩ := List.pairwise_append.mp hsorted
  obtain ⟨hread, hmoved⟩ := mem_readable (List.mem_of_getLast? hlast)
  have hfirst : ∀ o, s.entries.head? = some o → o.id ≤ last.id :=
    fun o ho => head_le_of_mem hentries ho hread
  have hpublished : ∀ e ∈ s.entries, e ∈ s.published :=
    fun e he => hold ▸ List.mem_append_right _ he
  have hcollect := h.collect_eq hlast hfirst
  rw [hcollect]
  refine ⟨h.sorted, ⟨old, hold, fun e he hunread => ?_⟩, h.stands, h.last, h.clear,
    h.started.trans hmoved.le, .inr ⟨last, hpublished last hread, rfl⟩, ?_, ?_, ?_, ?_⟩
  · exact absurd (hbefore e he last hread) (not_lt_of_gt hunread)
  · intro e he hlt hle facts hfacts
    by_cases hseen : e.id ≤ s.cursor
    · rcases h.accounted e he hlt hseen facts hfacts with hd | ⟨gap, hgap, hcovers⟩
      · exact .inl (List.mem_append_left _ hd)
      · exact .inr ⟨gap, List.mem_append_left _ hgap, hcovers⟩
    · have hunread := lt_of_not_ge hseen
      by_cases hin : e ∈ s.entries
      · refine .inl (List.mem_append_right _ (List.mem_filterMap.mpr ⟨e, ?_, by simp [hfacts]⟩))
        exact mem_readable_of_le hentries hlast hin hunread hle
      · obtain ⟨gap, hgap, hcovers⟩ := h.gap_of_lost (List.ne_nil_of_mem hread) he hunread hin
        exact .inr ⟨gap, by simp [hgap], hcovers⟩
  · refine List.pairwise_append.mpr ⟨h.inOrder, ?_, fun d hd d' hd' => ?_⟩
    · have hread : (s.readable cfg).Pairwise (fun e e' => e.id < e'.id) :=
        (hentries.filter _).sublist (List.take_sublist _ _)
      refine hread.filterMap _ (fun e e' hlt d hd d' hd' => ?_)
      obtain ⟨facts, -, rfl⟩ := Option.map_eq_some_iff.mp hd
      obtain ⟨facts', -, rfl⟩ := Option.map_eq_some_iff.mp hd'
      exact hlt
    · obtain ⟨e, he, hid, -⟩ := mem_decoded hd'
      rw [← hid]
      exact lt_of_le_of_lt (h.delivered d hd).2.1 (mem_readable he).2
  · intro d hd
    rcases List.mem_append.mp hd with hd | hd
    · obtain ⟨hlt, hle, hfrom⟩ := h.delivered d hd
      exact ⟨hlt, hle.trans hmoved.le, hfrom⟩
    · obtain ⟨e, he, hid, hfacts⟩ := mem_decoded hd
      obtain ⟨hmem, hunread⟩ := mem_readable he
      rw [← hid]
      exact ⟨lt_of_le_of_lt h.started hunread, readable_le_last hentries hlast he, e,
        hpublished e hmem, rfl, hfacts⟩
  · intro gap hgap
    rcases List.mem_append.mp hgap with hgap | hgap
    · obtain ⟨e, he, hafter, hbefore, hle, hout, hfresh⟩ := h.lost gap hgap
      refine ⟨e, he, hafter, hbefore, hle.trans hmoved.le, hout, fun d hd => ?_⟩
      rcases List.mem_append.mp hd with hd | hd
      · exact hfresh d hd
      · obtain ⟨x, hx, hid, -⟩ := mem_decoded hd
        rw [← hid]
        exact (lt_of_le_of_lt hle (mem_readable hx).2).ne'
    · obtain ⟨hbehind, o, ho, hpast, rfl⟩ :=
        (gapIfTrimmedPast_eq_some h.clear).mp (Option.mem_toList.mp hgap)
      obtain ⟨e, he, hout, hunread⟩ := hp.passed rfl hbehind o ho hpast
      have hgone : e ∈ old := (List.mem_append.mp (hold ▸ he)).resolve_right hout
      have hlt := hbefore e hgone o (List.mem_of_head? ho)
      refine ⟨e, he, hunread, hlt, hlt.le.trans (hfirst o ho), hout, fun d hd => ?_⟩
      rcases List.mem_append.mp hd with hd | hd
      · exact (lt_of_le_of_lt (h.delivered d hd).2.1 hunread).ne
      · obtain ⟨x, hx, hid, -⟩ := mem_decoded hd
        rw [← hid]
        exact (hbefore e hgone x (mem_readable hx).1).ne'

theorem Tracked.collect (hp : Paced cfg s .next) : Tracked decode start (s.collect cfg decode) := by
  cases hlast : (s.readable cfg).getLast? with
  | none => exact h.caughtUp hp hlast
  | some last => exact h.advanced hp hlast

theorem Tracked.step (hp : Paced cfg s a) : Tracked decode start (s.step cfg decode a) := by
  cases a with
  | publish raw now => exact h.publish hp
  | elsewhere now => exact h.elsewhere hp
  | next => exact h.collect hp

/-- A read may be followed by a read. -/
theorem Tracked.paced_collect (hp : Paced cfg s .next) : Paced cfg (s.collect cfg decode) .next where
  dropped _ he hout := absurd he hout
  found _ hring e he := by
    rw [ring_collect] at hring
    rw [published_collect] at he
    have hentries : s.readable cfg = [] := by simp [Following.readable, Following.entries, hring]
    simpa [Following.collect, hentries] using hp.found rfl hring e he
  passed _ _ o ho hpast := by
    rw [entries_collect] at ho
    refine absurd ?_ (not_le_of_gt hpast)
    cases hlast : (s.readable cfg).getLast? with
    | none => simpa [Following.collect, hlast] using readable_none hlast o (List.mem_of_head? ho)
    | some last =>
      have hread := (mem_readable (List.mem_of_getLast? hlast)).1
      simpa [Following.collect, hlast] using head_le_of_mem h.entries_sorted ho hread
  renewed _ _ hpublished := by cases hpublished

/-- Reads in a row leave nothing unread, once they may take more than is there. -/
theorem Tracked.drained (hp : Paced cfg s .next) (reads : Nat)
    (hreads : (s.entries.filter (fun e => s.cursor < e.id)).length < reads * cfg.readCount) :
    Tracked decode start ((Following.collect cfg decode)^[reads] s) ∧
      ∀ e ∈ s.published, e ∈ ((Following.collect cfg decode)^[reads] s).published ∧
        e.id ≤ ((Following.collect cfg decode)^[reads] s).cursor := by
  induction reads generalizing s with
  | zero => omega
  | succ reads ih =>
    have hread := h.collect hp
    have hunread : ((s.collect cfg decode).entries.filter
        (fun e => (s.collect cfg decode).cursor < e.id)).length =
          (s.entries.filter (fun e => s.cursor < e.id)).length - cfg.readCount := by
      rw [unread_collect h.entries_sorted, List.length_drop]
    rw [Nat.succ_mul] at hreads
    rw [Function.iterate_succ_apply]
    by_cases hmore : reads = 0
    · -- the last read: nothing is left in the ring, and nothing was lost before it
      subst hmore
      have hbehind : (s.collect cfg decode).behind = false := behind_collect (by omega)
      have hnil := List.filter_eq_nil_iff.mp (List.length_eq_zero_iff.mp (hunread.trans (by omega)))
      obtain ⟨old, hold, hloss⟩ := hread.ring
      refine ⟨hread, fun e he => ⟨by simpa using he, ?_⟩⟩
      have he : e ∈ old ++ (s.collect cfg decode).entries := by rwa [← hold, published_collect]
      rcases List.mem_append.mp he with he | he
      · exact le_of_not_gt fun hlt => by simpa [hbehind] using hloss e he hlt
      · simpa using hnil e he
    · have hpos : 0 < reads * cfg.readCount :=
        Nat.mul_pos (Nat.pos_of_ne_zero hmore) cfg.readCount_pos
      simpa using ih hread (h.paced_collect hp) (by omega)

end

/-- Over any paced interleaving, entries are delivered in order, each once; what was published past
    the start of the follow and lies behind the cursor was delivered or is in a reported gap, and
    reading on brings the cursor past all of it; and every gap stands for an entry lost unread. -/
theorem paced_follow_exact (start : StreamID) (acts : List (StreamAct Raw))
    (h : AllSteps (Following.step cfg decode) (Paced cfg) (followFrom start) acts) :
    let s := acts.foldl (Following.step cfg decode) (followFrom start)
    s.delivered.Pairwise (fun d d' => d.1 < d'.1) ∧
    (∀ d ∈ s.delivered, start < d.1 ∧ ∃ e ∈ s.published, e.id = d.1 ∧ decode e.raw = some d.2) ∧
    (∀ e ∈ s.published, start < e.id → e.id ≤ s.cursor → ∀ facts, decode e.raw = some facts →
      (e.id, facts) ∈ s.delivered ∨
        ∃ gap ∈ s.gaps, gap.cursor < e.id ∧ e.id < gap.firstSurviving) ∧
    (∀ gap ∈ s.gaps, ∃ e ∈ s.published, gap.cursor < e.id ∧ e.id < gap.firstSurviving ∧
      e ∉ s.entries ∧ ∀ d ∈ s.delivered, d.1 ≠ e.id) ∧
    ∀ reads, s.entries.length < reads * cfg.readCount → Paced cfg s .next →
      let s' := (Following.collect cfg decode)^[reads] s
      ∀ e ∈ s.published, start < e.id → ∀ facts, decode e.raw = some facts →
        (e.id, facts) ∈ s'.delivered ∨
          ∃ gap ∈ s'.gaps, gap.cursor < e.id ∧ e.id < gap.firstSurviving := by
  intro s
  have htracked : Tracked decode start s := by
    refine h.invariant (P := Tracked decode start) (fun s a hp hs => hs.step hp) ?_
    refine ⟨.nil, ⟨[], rfl, ?_⟩, ?_, ?_, rfl, le_rfl, .inl rfl, ?_, .nil, ?_, ?_⟩ <;>
      simp [followFrom]
  refine ⟨htracked.inOrder, fun d hd => ?_, htracked.accounted, fun gap hgap => ?_,
    fun reads hreads hp => ?_⟩
  · obtain ⟨hstart, -, hfrom⟩ := htracked.delivered d hd
    exact ⟨hstart, hfrom⟩
  · obtain ⟨e, he, hafter, hbefore, -, hout, hfresh⟩ := htracked.lost gap hgap
    exact ⟨e, he, hafter, hbefore, hout, hfresh⟩
  · intro s' e he hlt facts hfacts
    obtain ⟨hdrained, hpast⟩ := htracked.drained hp reads
      (lt_of_le_of_lt (List.length_filter_le _ _) hreads)
    exact hdrained.accounted e (hpast e he).1 hlt (hpast e he).2 facts hfacts

/-- An hour of retention, for so many entries. -/
def smallRing (maxLen : Int) (readCount : Nat) (h : 0 < readCount) : MemFactConfig :=
  ⟨3600000000000, maxLen, readCount, h⟩

/-- Reads of one entry fall behind: the second entry is trimmed unread, the fourth goes with its
    ring, and the fifth comes on a new one. -/
def laggingReads : List (StreamAct Nat) :=
  [.publish 1 1000000, .publish 2 2000000, .next, .publish 3 3000000, .publish 4 4000000, .next,
    .elsewhere 7200000000000, .publish 5 7200001000000]

theorem lagging_follower_told_its_gaps :
    let s := laggingReads.foldl (Following.step (smallRing 2 1 one_pos) some)
      (followFrom (toLex (0, 0)))
    let s' := (Following.collect (smallRing 2 1 one_pos) some)^[2] s
    (toLex (7200001, 0), 5) ∈ s'.delivered ∧ (toLex (4, 0), 4) ∉ s'.delivered ∧
      ∃ gap ∈ s'.gaps, gap.cursor < toLex (4, 0) ∧ toLex (4, 0) < gap.firstSurviving := by
  have hpaced : AllSteps (Following.step (smallRing 2 1 one_pos) some)
      (Paced (smallRing 2 1 one_pos)) (followFrom (toLex (0, 0))) laggingReads := by
    decide +kernel
  have hread := (paced_follow_exact (toLex (0, 0)) laggingReads hpaced).2.2.2.2 2
    (by decide +kernel) (by decide +kernel)
  have hfourth := hread ⟨toLex (4, 0), 4000000, 4⟩ (by decide +kernel) (by decide +kernel) 4 rfl
  have hfifth := hread ⟨toLex (7200001, 0), 7200001000000, 5⟩ (by decide +kernel)
    (by decide +kernel) 5 rfl
  exact ⟨hfifth.resolve_right (by decide +kernel), by decide +kernel,
    hfourth.resolve_left (by decide +kernel)⟩

/-- Two entries come in between two reads and the ring holds one: the first is gone, and the
    follower that had read everything is not marked behind. -/
theorem caught_up_follower_misses_entry :
    let s := ([.publish 1 1000000, .next, .publish 2 2000000, .publish 3 3000000, .next] :
      List (StreamAct Nat)).foldl (Following.step (smallRing 1 512 (by decide)) some)
        (followFrom (toLex (0, 0)))
    ⟨toLex (2, 0), 2000000, 2⟩ ∈ s.published ∧ s.delivered = [(toLex (1, 0), 1), (toLex (3, 0), 3)] ∧
      s.cursor = toLex (3, 0) ∧ (s.collect (smallRing 1 512 (by decide)) some).gaps = [] := by
  decide +kernel

end GitopsReverser.Queue
