import GitopsReverser.Flush.PlainEvents

/-!
# Coalescing — one event per path, or every event

An open window keeps the last event of every path. Whole-object events of one resource overwrite
each other, so flushing what the window keeps leaves the documents that flushing every event would
leave. A delete that the prune mode suppresses overwrites nothing; it still takes the place of the
upsert before it.
-/

namespace GitopsReverser.Flush

open Reasoning Manifest
open Git (Path PruneMode OpenWindow windowPathKey addEntry)

/-! ## 1. The window -/

/-- An event on its way to Git: what the window reads of it, and what the writer does. -/
structure LiveEvent where
  header : Git.Event
  event : Event

def LiveEvent.key (e : LiveEvent) : Path := windowPathKey e.header

def orderedEvents (events : List LiveEvent) : List LiveEvent := coalesce LiveEvent.key events

theorem addEntry_map (e : LiveEvent) (kept : List LiveEvent) :
    addEntry e.key e.header (kept.map (fun e => (e.key, e.header))) =
      (coalesceInto LiveEvent.key e kept).map (fun e => (e.key, e.header)) := by
  induction kept with
  | nil => rfl
  | cons a rest ih =>
    rw [List.map_cons, addEntry, coalesceInto, ih]
    split
    · rename_i hkey
      rw [List.map_cons, hkey]
    · rfl

theorem orderedEvents_add {window : OpenWindow} (hnew : window.entries = []) (events : List LiveEvent) :
    ((events.map LiveEvent.header).foldl OpenWindow.add window).orderedEvents =
      (orderedEvents events).map LiveEvent.header := by
  suffices hentry : ((events.map LiveEvent.header).foldl OpenWindow.add window).entries =
      (orderedEvents events).map (fun e => (e.key, e.header)) by
    rw [OpenWindow.orderedEvents, hentry, List.map_map]
    rfl
  induction events using List.reverseRecOn with
  | nil => exact hnew
  | append_singleton events e ih =>
    rw [List.map_append, List.foldl_append, orderedEvents, coalesce_append_singleton]
    show addEntry e.key e.header _ = _
    rw [ih, orderedEvents, addEntry_map]

/-! ## 2. Flushing -/

/-- What the flushes of one target share. -/
structure Target where
  tools : Tools
  lookup : Lookup
  policy : Option PlacementPolicy := none
  pruneMode : PruneMode

namespace Target

variable (t : Target)

def scan (folder : Folder) : Setting :=
  newWriteBatch t.tools t.lookup {} folder t.policy t.pruneMode

/-- `plan_flush.go`, `flushEventsToWorktree`: the acceptance gate, then the batch. -/
def flush (folder : Folder) (events : List Event) : Folder :=
  if (t.scan folder).store.Accepted then (t.scan folder).worktree (.events events) folder
  else folder

def flushWindow (folder : Folder) (events : List LiveEvent) : Folder :=
  t.flush folder ((orderedEvents events).map LiveEvent.event)

def flushEach (folder : Folder) (events : List LiveEvent) : Folder :=
  events.foldl (fun folder e => t.flush folder [e.event]) folder

theorem flushEach_cons (folder : Folder) (e : LiveEvent) (rest : List LiveEvent) :
    t.flushEach folder (e :: rest) = t.flushEach (t.flush folder [e.event]) rest := by
  rw [flushEach, List.foldl_cons, flushEach]

def decoded {D : Type} (decode : Document → D) (folder : Folder) : List (Identity × D) :=
  (t.scan folder).held.map (fun x => (x.1, decode x.2))

def takes (folder : Folder) (e : LiveEvent) : Bool :=
  (t.scan folder).takes (({} : Scope).reads t.tools.nameMatch folder) e.event

end Target

/-! ## 3. Windows of whole objects -/

/-- Every event tells a whole object, a path of the window names one resource, and what a document
    of such a resource is called is known. -/
structure PlainWindow (t : Target) (folder : Folder) (ident : ResourceIdentifier → Identity)
    (events : List LiveEvent) : Prop where
  base : ∀ e ∈ events, ∀ e' ∈ events, e.header.path = e'.header.path
  filePath : ∀ e ∈ events, e.header.filePath = toGitPath e.event.identifier
  resource : ∀ e ∈ events, ∀ e' ∈ events, e.key = e'.key → e.event.identifier = e'.event.identifier
  plain : ∀ e ∈ events, PlainEvent t.tools t.lookup e.event (ident e.event.identifier)
  sole : ∀ e ∈ events, ∀ dm ∈ (t.scan folder).store.documents,
    dm.resource = some e.event.identifier → dm.identity = ident e.event.identifier

def LastWord (pruneMode : PruneMode) (events : List LiveEvent) : Prop :=
  pruneMode.orDefault.appliesEventDeletes = true ∨ ∀ e ∈ orderedEvents events, e.event.delete = true →
      ∀ e' ∈ events, e'.key = e.key → e'.event.delete = true
  deriving Decidable

section Flushes

variable {D : Type} {decode : Document → D} {t : Target} {folder : Folder}
  {ident : ResourceIdentifier → Identity} {events : List LiveEvent}

def Named (t : Target) (ident : ResourceIdentifier → Identity) (r : ResourceIdentifier)
    (m : Identity → Set D) : Prop :=
  ∀ id, (m id).Nonempty → servedAs t.lookup id = some r → id = ident r

theorem named_iff (hplain : PlainFolder (t.scan folder)) {r : ResourceIdentifier} :
    Named t ident r (said decode (t.scan folder).shelf) ↔
      ∀ dm ∈ (t.scan folder).store.documents, dm.resource = some r → dm.identity = ident r := by
  constructor
  · intro h dm hdm hr
    obtain ⟨p, i, d, id, hd, hclaim, rfl⟩ :=
      (mem_documents_plain (s := t.scan folder) rfl hplain.files).mp hdm
    rw [modelAt_resource (s := t.scan folder) rfl hplain.files] at hr
    rw [(modelAt_identity (s := t.scan folder) rfl hplain.files p i id).1]
    exact h id ⟨decode d, d, ⟨p, List.mem_of_getElem? hd, hclaim⟩, rfl⟩ hr
  · rintro h id ⟨_, d, ⟨p, hd, hclaim⟩, rfl⟩ hr
    obtain ⟨i, hi⟩ := List.mem_iff_getElem?.mp hd
    have hmod := h _ ((mem_documents_plain (s := t.scan folder) rfl hplain.files).mpr
      ⟨p, i, d, id, hi, hclaim, rfl⟩)
      ((modelAt_resource (s := t.scan folder) rfl hplain.files p i id).trans hr)
    rwa [(modelAt_identity (s := t.scan folder) rfl hplain.files p i id).1] at hmod

theorem Named.applyAt {m : Identity → Set D} {r : ResourceIdentifier} (h : Named t ident r m)
    {e : Event} (he : PlainEvent t.tools t.lookup e (ident e.identifier)) :
    Named t ident r (applyAt (fun e : Event => ident e.identifier)
      (verdict decode t.tools t.pruneMode) m e) := by
  intro id hid hr
  by_cases hsame : id = ident e.identifier
  · subst hsame
    rw [Option.some.inj (he.served.symm.trans hr)]
  · refine h id ?_ hr
    rwa [Reasoning.applyAt, Function.update_of_ne hsame] at hid

variable (hnone : Unattributed t.tools.kustomize) (hwhole : EditsWhole decode t.tools)
include hnone hwhole

theorem flush_plain (batch : List Event) (hplain : PlainFolder (t.scan folder))
    (hevent : ∀ e ∈ batch, PlainEvent t.tools t.lookup e (ident e.identifier))
    (hnodup : (batch.map (fun e => ident e.identifier)).Nodup)
    (htake : ∀ e ∈ batch, (t.scan folder).takes (({} : Scope).reads t.tools.nameMatch folder) e = true)
    (hname : ∀ e ∈ batch, Named t ident e.identifier (said decode (t.scan folder).shelf)) :
    PlainFolder (t.scan (t.flush folder batch)) ∧
      said decode (t.scan (t.flush folder batch)).shelf = batch.foldl
        (applyAt (fun e => ident e.identifier) (verdict decode t.tools t.pruneMode))
        (said decode (t.scan folder).shelf) := by
  obtain ⟨folder', hrun, hafter⟩ := run_plain (s := t.scan folder) rfl hplain hnone hwhole hevent
    hnodup htake (fun e he => (named_iff hplain).mp (hname e he))
  have hflush : t.flush folder batch = folder' := by
    rw [Target.flush, if_pos hplain.accepted, Setting.worktree, hrun]
  rw [hflush]
  exact hafter _ rfl

theorem flushEach_plain (hplain : PlainFolder (t.scan folder))
    (hevent : ∀ e ∈ events, PlainEvent t.tools t.lookup e.event (ident e.event.identifier))
    (hname : ∀ e ∈ events, Named t ident e.event.identifier (said decode (t.scan folder).shelf))
    (hall : AllSteps (fun folder (e : LiveEvent) => t.flush folder [e.event])
      (fun folder e => t.takes folder e = true) folder events) :
    PlainFolder (t.scan (t.flushEach folder events)) ∧
      said decode (t.scan (t.flushEach folder events)).shelf = (events.map LiveEvent.event).foldl
        (applyAt (fun e => ident e.identifier) (verdict decode t.tools t.pruneMode))
        (said decode (t.scan folder).shelf) := by
  induction events generalizing folder with
  | nil => exact ⟨hplain, rfl⟩
  | cons e rest ih =>
    have he := hevent e List.mem_cons_self
    obtain ⟨hplain', hsaid⟩ := flush_plain hnone hwhole [e.event] hplain (by simpa using he)
      (by simp) (List.forall_mem_singleton.mpr hall.1)
      (by simpa using hname e List.mem_cons_self)
    rw [List.foldl_cons, List.foldl_nil] at hsaid
    have hrest := ih hplain' (fun x hx => hevent x (List.mem_cons_of_mem e hx)) (fun x hx => by
        rw [hsaid]
        exact (hname x (List.mem_cons_of_mem e hx)).applyAt he) hall.2
    rw [Target.flushEach_cons, List.map_cons, List.foldl_cons, ← hsaid]
    exact hrest

end Flushes

/-! ## 4. The refinement -/

section Refinement

variable {D : Type} {decode : Document → D} {t : Target} {folder : Folder}
  {ident : ResourceIdentifier → Identity} {events : List LiveEvent}

theorem PlainWindow.key_iff (h : PlainWindow t folder ident events) {e e' : LiveEvent}
    (he : e ∈ events) (he' : e' ∈ events) :
    e.key = e'.key ↔ ident e.event.identifier = ident e'.event.identifier := by
  constructor
  · intro hkey
    rw [h.resource e he e' he' hkey]
  · intro hid
    have hserve := (h.plain e he).served
    rw [hid, (h.plain e' he').served] at hserve
    rw [LiveEvent.key, LiveEvent.key, windowPathKey, windowPathKey, h.base e he e' he',
      h.filePath e he, h.filePath e' he', Option.some.inj hserve]

/-- The event that is kept has the last word over the ones of its identity. -/
theorem PlainWindow.last_word (h : PlainWindow t folder ident events)
    (hlast : LastWord t.pruneMode events) {e : LiveEvent} (he : e ∈ orderedEvents events)
    (hkept : e ∈ coalesce (fun e : LiveEvent => ident e.event.identifier) events) (before : Set D) :
    (events.filter (fun e' => ident e'.event.identifier = ident e.event.identifier)).foldl
        (fun before e' => verdict decode t.tools t.pruneMode e'.event before) before =
      verdict decode t.tools t.pruneMode e.event before := by
  obtain ⟨earlier, hfile⟩ := filter_of_mem_coalesce _ hkept
  have hmem : e ∈ events := (coalesce_spec LiveEvent.key events).2 e he
  rw [hfile, List.foldl_append]
  show verdict decode t.tools t.pruneMode e.event _ = _
  cases hdel : e.event.delete with
  | false => simp [verdict, hdel]
  | true =>
    rcases hlast with happlies | hdelete
    · simp [verdict, hdel, happlies]
    · -- every event before it was a delete as well
      have hearlier : ∀ e' ∈ earlier, e'.event.delete = true := by
        intro e' he'
        have hof : e' ∈ events.filter
            (fun e' => ident e'.event.identifier = ident e.event.identifier) := by
          rw [hfile]
          exact List.mem_append_left _ he'
        obtain ⟨hevent, hsame⟩ := List.mem_filter.mp hof
        exact hdelete e he hdel e' hevent ((h.key_iff hevent hmem).mpr (of_decide_eq_true hsame))
      cases happlies : t.pruneMode.orDefault.appliesEventDeletes with
      | true => simp [verdict, hdel, happlies]
      | false =>
        have hquiet : earlier.foldl
            (fun before e' => verdict decode t.tools t.pruneMode e'.event before) before =
              before := by
          clear hfile
          induction earlier with
          | nil => rfl
          | cons a rest ih =>
            have ha : verdict decode t.tools t.pruneMode a.event before = before := by
              simp [verdict, hearlier a List.mem_cons_self, happlies]
            rw [List.foldl_cons, ha]
            exact ih (fun x hx => hearlier x (List.mem_cons_of_mem a hx))
        rw [hquiet]

theorem mem_decoded (hplain : PlainFolder (t.scan folder)) {id : Identity} {x : D} :
    (id, x) ∈ t.decoded decode folder ↔ x ∈ said decode (t.scan folder).shelf id := by
  simp only [Target.decoded, List.mem_map]
  constructor
  · rintro ⟨⟨id', d⟩, hd, hx⟩
    obtain ⟨rfl, rfl⟩ := Prod.mk.inj hx
    exact ⟨d, (mem_held_plain (s := t.scan folder) rfl hplain.files).mp hd, rfl⟩
  · rintro ⟨d, hd, rfl⟩
    exact ⟨(id, d), (mem_held_plain (s := t.scan folder) rfl hplain.files).mpr hd, rfl⟩

theorem verdicts_again (tools : Tools) (pruneMode : PruneMode) (batch : List Event) (before : Set D) :
    let verdicts := batch.foldl (fun before e => verdict decode tools pruneMode e before)
    verdicts (verdicts before) = verdicts before := by
  induction batch using List.reverseRecOn with
  | nil => rfl
  | append_singleton batch e ih =>
    simp only [List.foldl_append, List.foldl_cons, List.foldl_nil, verdict] at ih ⊢
    -- a verdict that says nothing leaves what the others said
    split_ifs with _ happlies
    · rfl
    · simpa [happlies] using ih
    · rfl

/-- A batch that is flushed again leaves the documents that the first flush left. -/
theorem batch_flushed_again (t : Target) (decode : Document → D) (folder : Folder)
    (ident : ResourceIdentifier → Identity) (batch : List Event)
    (hnone : Unattributed t.tools.kustomize) (hwhole : EditsWhole decode t.tools)
    (hplain : PlainFolder (t.scan folder))
    (hevents : ∀ e ∈ batch, PlainEvent t.tools t.lookup e (ident e.identifier))
    (hnodup : (batch.map (fun e => ident e.identifier)).Nodup)
    (hsole : ∀ e ∈ batch, ∀ dm ∈ (t.scan folder).store.documents,
      dm.resource = some e.identifier → dm.identity = ident e.identifier)
    (htakes : ∀ f ∈ [folder, t.flush folder batch], ∀ e ∈ batch,
      (t.scan f).takes (({} : Scope).reads t.tools.nameMatch f) e = true) (x) :
    x ∈ t.decoded decode (t.flush (t.flush folder batch) batch) ↔
      x ∈ t.decoded decode (t.flush folder batch) := by
  have hnamed : ∀ e ∈ batch, Named t ident e.identifier (said decode (t.scan folder).shelf) :=
    fun e he => (named_iff hplain).mpr (hsole e he)
  obtain ⟨honce, hsaid⟩ := flush_plain hnone hwhole batch hplain hevents hnodup
    (htakes _ (by simp)) hnamed
  obtain ⟨htwice, hsaid'⟩ := flush_plain hnone hwhole batch honce hevents hnodup
    (htakes _ (by simp)) (fun e he => hsaid ▸ List.foldlRecOn batch _ (hnamed e he)
      (fun _ hm e' he' => hm.applyAt (hevents e' he')))
  rw [mem_decoded htwice, mem_decoded honce, hsaid', hsaid, foldl_applyAt, foldl_applyAt]
  exact iff_of_eq (congrArg (x.2 ∈ ·) (verdicts_again _ _ _ _))

end Refinement

/-! ### A config map stored twice, one stored and dropped, one dropped -/

def bodyTools : Tools :=
  { literalTools with editInPlace := fun n _ o _ => .ok (some { n with body := o.json }, []) }

def twinFolder : Folder where
  yaml := ((∅ : Tree).insert "pair.yaml".toList
    [configMapDocument "prod" "x", configMapDocument "prod" "y"]).insert "z.yaml".toList
    [configMapDocument "prod" "z"]

def storeBody (name json : String) : Event where
  identifier := configMapId "prod" name
  object := some ⟨"", "v1", "ConfigMap", "prod", name, json⟩

def dropConfigMap (name : String) : Event where
  identifier := configMapId "prod" name
  object := some (configMap "prod" name)
  delete := true

def mirrorTools : Tools :=
  { bodyTools with marshal := fun o => { identity := identityOfObject o, body := o.json } }

def mirrorTarget (pruneMode : PruneMode) : Target where
  tools := mirrorTools
  lookup := configMapLookup
  pruneMode := pruneMode

def headerAndBody : Document → Option (Identity × String)
  | .node n => some (n.identity, n.body)
  | _ => none

theorem mirrorTools_editsWhole : EditsWhole headerAndBody mirrorTools := by
  intro n dm o authorInto edited edits _ _ _ _ hid h
  cases h
  refine ⟨rfl, ?_⟩
  simp [headerAndBody, editedNode, Tools.plainDocument, mirrorTools, hid]

def configMapIdentity (r : ResourceIdentifier) : Identity := ⟨"v1", "ConfigMap", r.ns, r.name⟩

def live (e : Event) : LiveEvent where
  event := e
  header :=
    { username := "jane", attribution := .resolved, target := ⟨"team", "prod"⟩, path := "prod".toList,
      filePath := toGitPath e.identifier, operation := if e.delete then "DELETE" else "UPDATE",
      object := none }

theorem storeBody_plain {name : String} (json : String) (h : name ≠ "") :
    PlainEvent mirrorTools configMapLookup (storeBody name json)
      (configMapIdentity (storeBody name json).identifier) where
  whole := rfl
  object := by
    rintro _ ⟨⟩
    rfl
  told := fun _ => by simp [storeBody]
  complete := ⟨by simp [configMapIdentity], by simp [configMapIdentity], h⟩
  insensitive := rfl
  served := rfl

theorem dropConfigMap_plain {name : String} (h : name ≠ "") :
    PlainEvent mirrorTools configMapLookup (dropConfigMap name)
      (configMapIdentity (dropConfigMap name).identifier) where
  whole := rfl
  object := by
    rintro _ ⟨⟩
    rfl
  told := (nomatch ·)
  complete := ⟨by simp [configMapIdentity], by simp [configMapIdentity], h⟩
  insensitive := rfl
  served := rfl

def busyWindow : List LiveEvent :=
  [live (storeBody "x" "1"), live (storeBody "w" "3"), live (storeBody "x" "2"),
    live (dropConfigMap "w"), live (dropConfigMap "z")]

theorem twinFolder_plain : PlainFolder ((mirrorTarget .onEvent).scan twinFolder) where
  files := plainFiles_of_entries (by decide +kernel)
  accepted := by decide +kernel

theorem busyWindow_plain :
    PlainWindow (mirrorTarget .onEvent) twinFolder configMapIdentity busyWindow where
  base := by decide +kernel
  filePath := by decide +kernel
  resource := by decide +kernel
  plain := by
    simp only [busyWindow, List.forall_mem_cons, List.not_mem_nil, false_implies, implies_true,
      and_true]
    exact ⟨storeBody_plain _ (by decide), storeBody_plain _ (by decide),
      storeBody_plain _ (by decide), dropConfigMap_plain (by decide), dropConfigMap_plain (by decide)⟩
  sole := by decide +kernel

theorem busy_window_flushed_again :
    let t := mirrorTarget .onEvent
    let once := t.flushWindow twinFolder busyWindow
    ∀ x, x ∈ t.decoded headerAndBody (t.flushWindow once busyWindow) ↔ x ∈ t.decoded headerAndBody once :=
  batch_flushed_again _ headerAndBody twinFolder configMapIdentity _ (fun _ _ _ => rfl)
    mirrorTools_editsWhole twinFolder_plain
    (List.forall_mem_map.mpr (fun e he => busyWindow_plain.plain e ((coalesce_spec _ _).2 e he)))
    (by decide +kernel) (by decide +kernel) (by decide +kernel)

end GitopsReverser.Flush
