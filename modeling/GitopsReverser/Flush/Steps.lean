import GitopsReverser.Flush.Batch

/-!
# Steps — what a batch can write

`Write` lists every way a batch puts bytes into a buffer, with what was checked before. Each
operation is a sequence of such writes (`perform_reaches`), so that a property of whole batches
follows from one case analysis over `Write`.
-/

namespace GitopsReverser.Flush

open Reasoning Manifest
open Git (Path)
open Relation (ReflTransGen)

/-! ## 1. Buffers -/

section Buffers

variable {s : Setting} {b b' : Batch} {p q : Path} {c : Option Content}

theorem current_congr (h : b'.buffers = b.buffers) : s.current b' p = s.current b p := by
  simp only [Setting.current, h]

theorem current_insert (h : b'.buffers = b.buffers.insert p c) :
    s.current b' q = if q = p then c else s.current b q := by
  simp only [Setting.current, h, lookup_insert_ite]
  split_ifs <;> rfl

theorem current_eq_of_insert (h : b'.buffers = b.buffers.insert p c) :
    s.current b' = fun q => if q = p then c else s.current b q :=
  funext (fun _ => current_insert h)

@[simp] theorem current_set : s.current (b.set p c) q = if q = p then c else s.current b q :=
  current_insert rfl

@[simp] theorem current_empty : s.current {} p = s.contentByPath.lookup p := rfl

@[simp] theorem intend_buffers (i : WriteIntent) : (b.intend i).buffers = b.buffers := by
  unfold Batch.intend
  split <;> rfl

@[simp] theorem intend_coldBundles (i : WriteIntent) : (b.intend i).coldBundles = b.coldBundles := by
  unfold Batch.intend
  split <;> rfl

/-- What the batch takes from the store: its documents stand in files that were read, and have
    complete headers. -/
structure StoreSound (s : Setting) : Prop where
  files : ∀ dm ∈ s.store.documents, (s.contentByPath.lookup dm.file).isSome = true
  complete : ∀ dm ∈ s.store.documents, dm.identity.Complete

theorem document_of_fileIsAppendSafe (h : s.store.fileIsAppendSafe p = true) :
    ∃ dm ∈ s.store.documents, dm.file = p := by
  simp only [ManifestStore.fileIsAppendSafe, Bool.and_eq_true, decide_eq_true_eq] at h
  obtain ⟨dm, hdm⟩ := List.exists_mem_of_ne_nil _ h.1
  obtain ⟨hmem, hfile⟩ := List.mem_filter.mp hdm
  exact ⟨dm, hmem, of_decide_eq_true hfile⟩

theorem contentByPath_of_fileIsAppendSafe (hsound : StoreSound s)
    (h : s.store.fileIsAppendSafe p = true) : (s.contentByPath.lookup p).isSome = true := by
  obtain ⟨dm, hdm, rfl⟩ := document_of_fileIsAppendSafe h
  exact hsound.files dm hdm

end Buffers

/-! ## 2. The writes -/

/-- A document rendered for one of the objects, plain or sealed. -/
inductive Built (tools : Tools) (objs : Object → Prop) : Document → Prop where
  | plain {o : Object} (inherited : Bool) (ho : objs o) :
      Built tools objs (tools.plainDocument (Setting.stripNamespace inherited o))
  | sealed {o : Object} (inherited : Bool) (n : Node) (ho : objs o) :
      Built tools objs (sealedDocument (Setting.stripNamespace inherited o) n)

/-- What a batch can put into the buffer of a file. -/
inductive Write (s : Setting) (objs : Object → Prop) (b : Batch) : Path → Option Content → Prop where
  | append {p : Path} {doc : Document} (hsafe : s.store.fileIsAppendSafe p = true)
      (hplain : s.store.fileHoldsEncryptedDocument p = false) (hdoc : Built s.tools objs doc) :
      Write s objs b p (some (appendYAMLDocument ((s.current b p).getD []) doc))
  | cold {p : Path} {docs : Content} (hvalid : validateResolvedPlacementPath p = true)
      (hfree : s.contentByPath.lookup p = none) (hdocs : ∀ d ∈ docs, Built s.tools objs d) :
      Write s objs b p (some docs)
  | whole {p : Path} {doc : Document} (hread : (s.contentByPath.lookup p).isSome = true)
      (hdoc : Built s.tools objs doc)
      (hcount : ∀ cur, s.current b p = some cur → documentCount cur ≤ 1) :
      Write s objs b p (some [doc])
  | edit {p : Path} {cur c : Content} {id : Identity} {i : Nat} {f : Node → Option Node}
      (hcur : s.current b p = some cur) (hidx : currentDocIndex p cur id = some i)
      (hedit : editDocument cur i f = some c) : Write s objs b p (some c)
  | kustomization {p : Path} {cur c : Content}
      {edit : KustomizationFile → Option KustomizationFile} (hcur : s.current b p = some cur)
      (hedit : editKustomization edit cur = some c) : Write s objs b p (some c)
  | erase {p : Path} {cur : Content} {id : Identity} {i : Nat} (hcur : s.current b p = some cur)
      (hidx : currentDocIndex p cur id = some i) : Write s objs b p (deleteDocument cur i)
  | patch (authorInto : Path) (id : Identity) (hid : id.Complete)
      (hfree : ∀ cur, s.current b (Setting.inheritedDeletePatchPath authorInto id) = some cur →
        cur = [Setting.inheritedDeletePatchDocument id]) :
      Write s objs b (Setting.inheritedDeletePatchPath authorInto id)
        (some [Setting.inheritedDeletePatchDocument id])

/-- What an operation does to documents that are there: no object is rendered. `edited` holds of
    the files it may edit in place, `patched` of the overlays and the identities it may author a
    delete for. -/
inductive Rewrite (s : Setting) (edited : Path → Prop) (patched : Path → Identity → Prop)
    (b : Batch) : Path → Option Content → Prop where
  | edit {p : Path} {cur c : Content} {id : Identity} {i : Nat} {f : Node → Option Node}
      (hp : edited p) (hcur : s.current b p = some cur)
      (hidx : currentDocIndex p cur id = some i) (hedit : editDocument cur i f = some c) :
      Rewrite s edited patched b p (some c)
  | kustomization {p : Path} {cur c : Content}
      {edit : KustomizationFile → Option KustomizationFile} (hcur : s.current b p = some cur)
      (hedit : editKustomization edit cur = some c) : Rewrite s edited patched b p (some c)
  | erase {p : Path} {cur : Content} {id : Identity} {i : Nat}
      (hread : (s.contentByPath.lookup p).isSome = true) (hcur : s.current b p = some cur)
      (hidx : currentDocIndex p cur id = some i) : Rewrite s edited patched b p (deleteDocument cur i)
  | patch (authorInto : Path) (id : Identity) (hp : patched authorInto id) (hid : id.Complete)
      (hfree : ∀ cur, s.current b (Setting.inheritedDeletePatchPath authorInto id) = some cur →
        cur = [Setting.inheritedDeletePatchDocument id]) :
      Rewrite s edited patched b (Setting.inheritedDeletePatchPath authorInto id)
        (some [Setting.inheritedDeletePatchDocument id])

theorem Rewrite.write (h : Rewrite s edited patched b p c) : Write s objs b p c := by
  cases h with
  | edit _ hcur hidx hedit => exact .edit hcur hidx hedit
  | kustomization hcur hedit => exact .kustomization hcur hedit
  | erase _ hcur hidx => exact .erase hcur hidx
  | patch authorInto id _ hid hfree => exact .patch authorInto id hid hfree

def Revises (s : Setting) (edited : Path → Prop) (patched : Path → Identity → Prop)
    (b b' : Batch) : Prop :=
  b'.coldBundles = b.coldBundles ∧ ReflTransGen (fun b b' => b'.buffers = b.buffers ∨
    ∃ p c, Rewrite s edited patched b p c ∧ b'.buffers = b.buffers.insert p c) b b'

def Step (s : Setting) (objs : Object → Prop) (b b' : Batch) : Prop :=
  b'.buffers = b.buffers ∨ ∃ p c, Write s objs b p c ∧ b'.buffers = b.buffers.insert p c

def BundlesBuilt (s : Setting) (objs : Object → Prop) (b : Batch) : Prop :=
  ∀ p members, b.coldBundles.lookup p = some members → ∀ m ∈ members, Built s.tools objs m.document

def Reaches (s : Setting) (objs : Object → Prop) (b b' : Batch) : Prop :=
  BundlesBuilt s objs b → BundlesBuilt s objs b' ∧ ReflTransGen (Step s objs) b b'

section Reaching

variable {s : Setting} {objs : Object → Prop} {edited : Path → Prop}
  {patched : Path → Identity → Prop} {b b' b'' : Batch} {p : Path} {c : Option Content}

theorem Reaches.refl : Reaches s objs b b := fun h => ⟨h, .refl⟩

theorem Reaches.trans (h₁ : Reaches s objs b b') (h₂ : Reaches s objs b' b'') :
    Reaches s objs b b'' := by
  intro hb
  obtain ⟨hb', hstep⟩ := h₁ hb
  obtain ⟨hb'', hstep'⟩ := h₂ hb'
  exact ⟨hb'', hstep.trans hstep'⟩

theorem Reaches.bookkeeping (hbuf : b'.buffers = b.buffers) (hcold : b'.coldBundles = b.coldBundles) :
    Reaches s objs b b' := by
  intro hb
  refine ⟨?_, .single (.inl hbuf)⟩
  rwa [BundlesBuilt, hcold]

theorem Reaches.write (h : Write s objs b p c) : Reaches s objs b (b.set p c) :=
  fun hb => ⟨hb, .single (.inr ⟨p, c, h, rfl⟩)⟩

theorem Reaches.foldlM {ι : Type} {f : Batch → ι → Except FlushError Batch} {xs : List ι}
    (h : ∀ x ∈ xs, ∀ b b', f b x = .ok b' → Reaches s objs b b')
    (hrun : xs.foldlM f b = .ok b') : Reaches s objs b b' := by
  induction xs generalizing b with
  | nil =>
    cases hrun
    exact .refl
  | cons x xs ih =>
    rw [List.foldlM_cons] at hrun
    cases hx : f b x with
    | error e =>
      rw [hx] at hrun
      cases hrun
    | ok b₁ =>
      rw [hx] at hrun
      exact (h x (by simp) b b₁ hx).trans (ih (fun y hy => h y (List.mem_cons_of_mem x hy)) hrun)

/-! ### Revising -/

theorem Revises.refl : Revises s edited patched b b := ⟨rfl, .refl⟩

theorem Revises.trans (h₁ : Revises s edited patched b b') (h₂ : Revises s edited patched b' b'') :
    Revises s edited patched b b'' :=
  ⟨h₂.1.trans h₁.1, h₁.2.trans h₂.2⟩

theorem Revises.bookkeeping (hbuf : b'.buffers = b.buffers) (hcold : b'.coldBundles = b.coldBundles) :
    Revises s edited patched b b' :=
  ⟨hcold, .single (.inl hbuf)⟩

theorem Revises.intend (i : WriteIntent) : Revises s edited patched b (b.intend i) :=
  .bookkeeping (intend_buffers i) (intend_coldBundles i)

theorem Revises.rewrite (h : Rewrite s edited patched b p c) : Revises s edited patched b (b.set p c) :=
  ⟨rfl, .single (.inr ⟨p, c, h, rfl⟩)⟩

theorem Revises.put (h : ∀ c, r = some c → Rewrite s edited patched b p (some c)) :
    Revises s edited patched b (b.put p r).1 := by
  cases r with
  | none => exact .refl
  | some c => exact .rewrite (h c rfl)

theorem Revises.foldl {ι : Type} {f : Batch → ι → Batch} {xs : List ι}
    (h : ∀ b, ∀ x ∈ xs, Revises s edited patched b (f b x)) (b : Batch) :
    Revises s edited patched b (xs.foldl f b) := by
  induction xs generalizing b with
  | nil => exact .refl
  | cons x xs ih =>
    exact (h b x (by simp)).trans (ih (fun b y hy => h b y (List.mem_cons_of_mem x hy)) _)

theorem Revises.foldl_fst {ι κ : Type} {f : Batch × κ → ι → Batch × κ}
    (h : ∀ st i, Revises s edited patched st.1 (f st i).1) (xs : List ι) (st : Batch × κ) :
    Revises s edited patched st.1 (xs.foldl f st).1 := by
  induction xs generalizing st with
  | nil => exact .refl
  | cons x xs ih => exact (h st x).trans (ih _)

variable {I : (Path → Option Content) → Prop} {r : Batch × UpsertOutcome} {a : PlanAction}
  {t : Setting.DeleteTarget} {e : Event} {work : Setting.Work}

/-- What every write of a kind keeps holds after any number of them. -/
theorem buffers_invariant {W : Batch → Path → Option Content → Prop}
    (hwrite : ∀ b p c, I (s.current b) → W b p c → I (fun q => if q = p then c else s.current b q))
    (hinit : I (s.current b)) (h : ReflTransGen (fun b b' => b'.buffers = b.buffers ∨
      ∃ p c, W b p c ∧ b'.buffers = b.buffers.insert p c) b b') : I (s.current b') := by
  induction h with
  | refl => exact hinit
  | @tail b₁ b₂ _ hstep ih =>
    rcases hstep with hbuf | ⟨p, c, hw, hbuf⟩
    · have heq : s.current b₂ = s.current b₁ := funext (fun q => current_congr hbuf)
      rw [heq]
      exact ih
    · rw [current_eq_of_insert hbuf]
      exact hwrite b₁ p c ih hw

theorem Revises.reaches (h : Revises s edited patched b b') : Reaches s objs b b' := by
  intro hb
  refine ⟨?_, ReflTransGen.mono ?_ _ _ h.2⟩
  · rwa [BundlesBuilt, h.1]
  · rintro b₁ b₂ (hbuf | ⟨p, c, hw, hbuf⟩)
    · exact .inl hbuf
    · exact .inr ⟨p, c, hw.write, hbuf⟩

/-! ## 3. Operations that revise -/

theorem editKustomizationAt_revises (edit : KustomizationFile → Option KustomizationFile) :
    Revises s edited patched b (s.editKustomizationAt b p edit).1 := by
  refine .put (fun c hc => ?_)
  obtain ⟨cur, hcur, hedit⟩ := Option.bind_eq_some_iff.mp hc
  exact .kustomization hcur hedit

theorem applyOverrideEditsAt_revises (edits : List OverrideEdit) (st : Batch × Bool) :
    Revises s edited patched st.1 (s.applyOverrideEditsAt edits st p).1 := by
  unfold Setting.applyOverrideEditsAt
  dsimp only
  refine Revises.trans ?_ (Revises.foldl_fst ?_ _ _)
  · split
    · exact .refl
    · exact editKustomizationAt_revises _
  · intro st e
    exact editKustomizationAt_revises _

theorem applyOverrideEdits_revises (edits : List OverrideEdit) :
    Revises s edited patched b (s.applyOverrideEdits b edits).1 :=
  .foldl_fst (fun st _ => applyOverrideEditsAt_revises _ st) _ (b, false)

theorem withEntry_revises (placement : PlacementResult) :
    Revises s edited patched b (s.withEntry b placement) := by
  unfold Setting.withEntry
  split
  · exact editKustomizationAt_revises _
  · exact .refl

theorem patchDocument_revises {id : Identity}
    (doc : Option Node) (edits : List OverrideEdit) (hp : edited p)
    (hcur : s.current b p = some cur) (hidx : currentDocIndex p cur id = some i) :
    Revises s edited patched b (s.patchDocument b live p cur i dm doc edits).1 := by
  -- the document, then the override entries, then the bookkeeping
  have hdoc : Revises s edited patched b (b.put p (editDocument cur i (fun _ => doc))).1 :=
    .put (fun c hedit => .edit hp hcur hidx hedit)
  refine hdoc.trans ((applyOverrideEdits_revises edits).trans ?_)
  simp only [Setting.patchDocument]
  split <;> exact .bookkeeping (by simp) (by simp)

theorem patchExisting_revises {id : Identity} {dm : DocumentModel} (hp : edited p)
    (h : s.patchExisting b live p id dm = .ok r) :
    Revises s edited patched b r.1 := by
  unfold Setting.patchExisting at h
  split at h
  · cases h
    exact .refl
  · rename_i cur hcur
    split at h
    · cases h
      exact .refl
    · rename_i i hidx
      split at h
      · split at h
        · cases h
        · cases h
          exact patchDocument_revises _ _ hp hcur hidx
      · cases h
        exact .refl

theorem patchFieldsAt_revises (assignments : List FieldAssignment) (governed : Bool)
    (hp : edited a.file) :
    Revises s edited patched b (s.patchFieldsAt b a assignments governed) := by
  unfold Setting.patchFieldsAt
  split
  · exact .refl
  · rename_i cur hcur
    split
    · exact .refl
    · rename_i i hidx
      split
      · exact .refl
      · rename_i c hedit
        have hb : Revises s edited patched b (b.set a.file (some c)) := .rewrite (.edit hp hcur hidx hedit)
        dsimp only
        split
        · exact hb
        · exact hb.trans (.intend _)

theorem applyFieldPatch_revises (e : Event) (assignments : List FieldAssignment)
    (hp : ∀ a, s.store.planDelete e.identifier = some a → edited a.file) :
    Revises s edited patched b (s.applyFieldPatch b e assignments) := by
  unfold Setting.applyFieldPatch
  split
  · exact .refl
  · rename_i a ha
    split
    · exact patchFieldsAt_revises _ _ (hp a ha)
    · rename_i dm _
      have hroute : Revises s edited patched b (s.routeGovernedFieldAssignments b dm assignments).1 := by
        refine Revises.foldl_fst (fun st a => ?_) assignments (b, [])
        split
        · exact applyOverrideEdits_revises _
        · exact .refl
      dsimp only
      have hnote : Revises s edited patched b (Batch.intend
          { (s.routeGovernedFieldAssignments b dm assignments).1 with putToKustomize := true }
          (Setting.fieldPatchIntent a true)) :=
        hroute.trans (.bookkeeping (by simp) (by simp))
      split
      · exact hnote
      · exact hnote.trans (patchFieldsAt_revises _ _ (hp a ha))

theorem authorInheritedDelete_revises (hp : patched authorInto t.id) (hid : t.id.Complete) :
    Revises s edited patched b (s.authorInheritedDelete b t authorInto) := by
  unfold Setting.authorInheritedDelete
  dsimp only
  split
  · exact .refl
  · rename_i hfree
    refine (Revises.rewrite (.patch authorInto t.id hp hid ?_)).trans ((editKustomizationAt_revises
      (appendPatch (Setting.inheritedDeletePatchName t.id))).trans
        (.bookkeeping (intend_buffers _) (intend_coldBundles _)))
    intro cur hcur
    simpa [hcur] using hfree

theorem deleteAt_revises {cur : Content} {i : Nat}
    (hread : (s.contentByPath.lookup t.file).isSome = true) (hcur : s.current b t.file = some cur)
    (hidx : currentDocIndex t.file cur t.id = some i) :
    Revises s edited patched b (s.deleteAt b t cur i) := by
  unfold Setting.deleteAt
  dsimp only
  generalize hnote : ({ b.intend (Setting.removedIntent t) with
    putToKustomize := (b.intend (Setting.removedIntent t)).putToKustomize ||
      decide (s.kustomizationsListing t.file ≠ []) } : Batch) = noted
  have hbuf : noted.buffers = b.buffers := by rw [← hnote]; simp
  have hcold : noted.coldBundles = b.coldBundles := by rw [← hnote]; simp
  have hwrite : Rewrite s edited patched noted t.file (deleteDocument cur i) :=
    .erase hread ((current_congr hbuf).trans hcur) hidx
  refine (Revises.bookkeeping hbuf hcold).trans ?_
  split
  · rename_i rest hrest
    rw [hrest] at hwrite
    exact .rewrite hwrite
  · rename_i hnone
    rw [hnone] at hwrite
    exact (Revises.rewrite hwrite).trans (.foldl (fun b listing _ => editKustomizationAt_revises _) _)

theorem document_of_planDelete {r : ResourceIdentifier} (h : s.store.planDelete r = some a) :
    ∃ dm ∈ s.store.documents, dm.file = a.file ∧ dm.identity = a.identity := by
  unfold ManifestStore.planDelete at h
  split at h
  · cases h
  · rename_i dm hdm
    split_ifs at h
    cases h
    exact ⟨dm, (List.mem_filter.mp (List.mem_of_getLast? hdm)).1, rfl, rfl⟩

theorem resolveDelete_sound (hsound : StoreSound s) (h : s.resolveDelete e = some t) :
    (s.contentByPath.lookup t.file).isSome = true ∧ t.id.Complete := by
  have hraw : ∀ (id : Identity) (dm : DocumentModel), id.Complete →
      (Setting.rawManifestID id dm).Complete := by
    intro id dm hid
    unfold Setting.rawManifestID
    split <;> exact hid
  unfold Setting.resolveDelete at h
  split at h
  · rename_i dm hdm
    cases h
    obtain ⟨id, -, hfound⟩ := Option.bind_eq_some_iff.mp hdm
    have hmem := List.mem_of_find?_eq_some hfound
    exact ⟨hsound.files dm hmem, hraw _ _ (hsound.complete dm hmem)⟩
  · obtain ⟨a, ha, rfl⟩ := Option.map_eq_some_iff.mp h
    obtain ⟨dm, hdm, hfile, hid⟩ := document_of_planDelete ha
    have hcomplete : a.identity.Complete := hid ▸ hsound.complete dm hdm
    refine ⟨hfile ▸ hsound.files dm hdm, ?_⟩
    dsimp only
    cases s.store.byManifestIdentity a.identity with
    | none => exact hcomplete
    | some dm => exact hraw _ _ hcomplete

theorem applyDelete_revises (hsound : StoreSound s) (e : Event)
    (hp : ∀ t authorInto, s.resolveDelete e = some t →
      s.overlayAuthorKustomization t.file = some authorInto → patched authorInto t.id) :
    Revises s edited patched b (s.applyDelete b e) := by
  unfold Setting.applyDelete
  split
  · exact .refl
  · split
    · exact .refl
    · rename_i t ht
      obtain ⟨hread, hid⟩ := resolveDelete_sound hsound ht
      split
      · exact .refl
      · rename_i cur hcur
        split
        · exact .refl
        · rename_i i hidx
          split
          · rename_i authorInto hauthor
            exact authorInheritedDelete_revises (hp t authorInto ht hauthor) hid
          · exact deleteAt_revises hread hcur hidx

theorem dropDocument_revises {id : Identity} (hread : (s.contentByPath.lookup p).isSome = true) :
    Revises s edited patched b (s.dropDocument b p id) := by
  unfold Setting.dropDocument
  split
  · exact .refl
  · rename_i cur hcur
    split
    · exact .refl
    · rename_i i hidx
      exact .rewrite (.erase hread hcur hidx)

/-! ## 4. What one action does -/

/-- The actions of a batch: an event, or a drop of a resync plan. -/
inductive Action where
  | event (e : Event)
  | drop (a : PlanAction)

namespace Setting

variable (s : Setting)

def act (b : Batch) : Action → Except FlushError Batch
  | .event e => s.applyEvent b e
  | .drop a => .ok (s.dropDocument b a.file a.identity)

def actions : Work → List Action
  | .events events => events.map .event
  | .resync desired inScope => (desiredEvents desired).map .event ++
      (s.store.dropOrphans desired inScope s.pruneMode.orDefault.sweepsOrphans).map .drop

/-- The event writes its object; there is no document with its identity yet. -/
structure Creates (e : Event) (placement : PlacementResult) (doc : Document) : Prop where
  upsert : e.fieldPatch = none ∧ e.delete = false
  unmatched : (manifestIdentity e.object).bind s.store.byManifestIdentity = none
  located : locateNew s.store s.policy (s.placementRequest e) = .ok placement
  built : s.tools.buildContentForWrite (placedEvent e placement) = .ok doc

/-- The event writes its object over the document it is found by. -/
structure Reseals (e : Event) (dm : DocumentModel) (doc : Document) : Prop where
  upsert : e.fieldPatch = none ∧ e.delete = false
  found : (manifestIdentity e.object).bind s.store.byManifestIdentity = some dm
  sensitive : s.tools.isSensitive e.identifier = true
  built : s.tools.buildContentForWrite e = .ok doc

def homes : Action → List Path
  | .drop _ => []
  | .event e =>
    match e.fieldPatch with
    | some _ => ((s.store.planDelete e.identifier).map PlanAction.file).toList
    | none => (((manifestIdentity e.object).bind s.store.byManifestIdentity).map
        DocumentModel.file).toList

/-- The deletes an event may author, by the kustomization of the overlay. -/
def patches : Action → Path → Identity → Prop
  | .drop _, _, _ => False
  | .event e, authorInto, id => e.delete = true ∧ ∃ t, s.resolveDelete e = some t ∧
      s.overlayAuthorKustomization t.file = some authorInto ∧ t.id = id

end Setting

/-- What an action does to the buffers: it writes the document of its object in one of four ways, or
    it revises what is there. -/
inductive Effect (s : Setting) (b : Batch) : Action → Batch → Prop where
  | append {e : Event} {placement : PlacementResult} {doc : Document} {b' : Batch}
      (hnew : s.Creates e placement doc) (happend : placement.append = true)
      (hbuf : b'.buffers = (s.withEntry b placement).buffers.insert placement.path
        (some (appendYAMLDocument ((s.current (s.withEntry b placement) placement.path).getD []) doc)))
      (hcold : b'.coldBundles = b.coldBundles) : Effect s b (.event e) b'
  | cold {e : Event} {placement : PlacementResult} {doc : Document} {b' : Batch}
      {members : List ColdBundleMember} (hnew : s.Creates e placement doc)
      (hfree : s.contentByPath.lookup placement.path = none)
      -- a path that is taken in this batch takes no secret, and none joins one
      (hopen : (s.current (s.withEntry b placement) placement.path).isSome = true →
        s.tools.isSensitive e.identifier = false ∧
          ∀ m ∈ (b.coldBundles.lookup placement.path).getD [], m.sensitive = false)
      (hmembers : members.Perm ((b.coldBundles.lookup placement.path).getD [] ++
        [⟨e.identifier, doc, s.tools.isSensitive e.identifier⟩]))
      (hbuf : b'.buffers = (s.withEntry b placement).buffers.insert placement.path
        (some (members.map ColdBundleMember.document)))
      (hcold : b'.coldBundles = b.coldBundles.insert placement.path members) :
      Effect s b (.event e) b'
  | whole {e : Event} {placement : PlacementResult} {doc : Document} {b' : Batch}
      (hnew : s.Creates e placement doc)
      (hread : (s.contentByPath.lookup placement.path).isSome = true)
      (hcount : ∀ cur, s.current (s.withEntry b placement) placement.path = some cur →
        documentCount cur ≤ 1)
      (hbuf : b'.buffers = (s.withEntry b placement).buffers.insert placement.path (some [doc]))
      (hcold : b'.coldBundles = b.coldBundles) : Effect s b (.event e) b'
  | reseal {e : Event} {dm : DocumentModel} {doc : Document} {b' : Batch} (hfound : s.Reseals e dm doc)
      (hcount : ∀ cur, s.current b dm.file = some cur → documentCount cur ≤ 1)
      (hbuf : b'.buffers = b.buffers.insert dm.file (some [doc]))
      (hcold : b'.coldBundles = b.coldBundles) : Effect s b (.event e) b'
  | revise {a : Action} {b' : Batch} (h : Revises s (· ∈ s.homes a) (s.patches a) b b') : Effect s b a b'

theorem writeWholeFile_cases (h : s.writeWholeFile b e p = .ok r) :
    ∃ doc, s.tools.buildContentForWrite e = .ok doc ∧ ((r.1 = b ∧ r.2.wroteBytes = false) ∨
      ((∀ cur, s.current b p = some cur → documentCount cur ≤ 1) ∧ r.1 = b.set p (some [doc]))) := by
  unfold Setting.writeWholeFile at h
  split at h
  · cases h
  · rename_i doc hdoc
    refine ⟨doc, hdoc, ?_⟩
    split at h
    · rename_i hcur
      cases h
      exact .inr ⟨fun cur hc => absurd (hcur.symm.trans hc) (by simp), rfl⟩
    · rename_i cur hcur
      -- several documents, or the same content: nothing is written
      split_ifs at h with hcount _
      · cases h
        exact .inl ⟨rfl, rfl⟩
      · cases h
        exact .inl ⟨rfl, rfl⟩
      · cases h
        refine .inr ⟨fun cur' hc => ?_, rfl⟩
        rw [hcur, Option.some.injEq] at hc
        rw [← hc]
        exact Nat.not_lt.mp hcount

@[simp] theorem withEntry_coldBundles (placement : PlacementResult) :
    (s.withEntry b placement).coldBundles = b.coldBundles :=
  (withEntry_revises placement : Revises s (fun _ => False) (fun _ _ => False) b _).1

theorem placeNewDocument_effect (hupsert : e.fieldPatch = none ∧ e.delete = false)
    (hunmarked : (manifestIdentity e.object).bind s.store.byManifestIdentity = none)
    (hplace : locateNew s.store s.policy (s.placementRequest e) = .ok placement)
    (h : s.placeNewDocument (s.withEntry b placement) (Setting.placedEvent e placement) placement =
      .ok r) : Effect s b (.event e) r.1 := by
  unfold Setting.placeNewDocument at h
  -- append, skip, join the bundle of a new file, or overwrite
  split_ifs at h with hap hnone hskip
  · unfold Setting.appendNewDocument at h
    split at h
    · cases h
    · rename_i doc hdoc
      cases h
      exact .append ⟨hupsert, hunmarked, hplace, hdoc⟩ hap rfl (withEntry_coldBundles placement)
  · cases h
    exact .revise (withEntry_revises placement)
  · unfold Setting.writeColdBundleMember at h
    split at h
    · cases h
    · rename_i doc hdoc
      cases h
      rw [withEntry_coldBundles] at hskip ⊢
      refine .cold ⟨hupsert, hunmarked, hplace, hdoc⟩ (Option.isNone_iff_eq_none.mp hnone) ?_
        (List.perm_insertionSort _ _) rfl rfl
      intro htake
      simpa [htake, Setting.placedEvent] using hskip
  · obtain ⟨doc, hdoc, ⟨hsame, -⟩ | ⟨hcount, hset⟩⟩ := writeWholeFile_cases h
    · rw [hsame]
      exact .revise (withEntry_revises placement)
    · refine .whole ⟨hupsert, hunmarked, hplace, hdoc⟩ ?_ hcount (by rw [hset]; rfl) ?_
      · simpa [Option.isSome_iff_ne_none] using hnone
      · rw [hset]
        exact withEntry_coldBundles placement

theorem Effect.congr {a : Action} (h : Effect s b a b') (hbuf : b''.buffers = b'.buffers)
    (hcold : b''.coldBundles = b'.coldBundles) : Effect s b a b'' := by
  cases h with
  | append hnew happend hb hc => exact .append hnew happend (hbuf.trans hb) (hcold.trans hc)
  | cold hnew hfree hopen hmem hb hc =>
    exact .cold hnew hfree hopen hmem (hbuf.trans hb) (hcold.trans hc)
  | whole hnew hread hcount hb hc => exact .whole hnew hread hcount (hbuf.trans hb) (hcold.trans hc)
  | reseal hfound hcount hb hc => exact .reseal hfound hcount (hbuf.trans hb) (hcold.trans hc)
  | revise hrev => exact .revise (hrev.trans (.bookkeeping hbuf hcold))

theorem createNew_effect (hupsert : e.fieldPatch = none ∧ e.delete = false)
    (hunmarked : (manifestIdentity e.object).bind s.store.byManifestIdentity = none)
    (h : s.createNew b e = .ok r) : Effect s b (.event e) r.1 := by
  unfold Setting.createNew at h
  split at h
  · cases h
    exact .revise .refl
  · rename_i placement hplaced
    split at h
    · cases h
    · rename_i b₁ outcome hput
      have hplace := placeNewDocument_effect hupsert hunmarked hplaced hput
      split at h
      · cases h
        exact hplace
      · split at h
        · cases h
          exact hplace.congr rfl rfl
        · cases h
          exact hplace.congr (by simp) (by simp)

theorem applyUpsert_effect (hupsert : e.fieldPatch = none ∧ e.delete = false)
    (h : s.applyUpsert b e = .ok r) :
    Effect s b (.event e) r.1 := by
  unfold Setting.applyUpsert at h
  split at h
  · rename_i live id hlive hid
    split at h
    · rename_i hnone
      exact createNew_effect hupsert (by rw [hid]; exact hnone) h
    · rename_i dm hdm
      -- a document that is there is sealed anew as a whole, or edited in place
      have hfound : (manifestIdentity e.object).bind s.store.byManifestIdentity = some dm := by
        rw [hid]
        exact hdm
      split_ifs at h with hsensitive
      · unfold Setting.rewriteSensitive at h
        split at h
        · cases h
        · rename_i b₁ outcome hwrite
          obtain ⟨doc, hdoc, ⟨hsame, hwrote⟩ | ⟨hcount, hset⟩⟩ := writeWholeFile_cases hwrite
          · dsimp only at hsame hwrote
            rw [hwrote] at h
            cases h
            rw [hsame]
            exact .revise .refl
          · dsimp only at hset
            have heffect : Effect s b (.event e) b₁ :=
              .reseal ⟨hupsert, hfound, hsensitive, hdoc⟩ hcount (by rw [hset]; rfl) (by rw [hset]; rfl)
            cases h
            dsimp only
            split
            · exact heffect.congr (by simp) (by simp)
            · exact heffect
      · refine .revise (patchExisting_revises ?_ h)
        simp [Setting.homes, hupsert.1, hfound]
  · rename_i hnone
    refine createNew_effect hupsert ?_ h
    cases hlive : e.object with
    | none => rfl
    | some live =>
      cases hid : manifestIdentity (some live) with
      | none => rfl
      | some id => exact absurd (hlive ▸ hid) (hnone live id hlive)

theorem act_effect {a : Action} (hsound : StoreSound s)
    (hdrop : ∀ d, a = .drop d → (s.contentByPath.lookup d.file).isSome = true)
    (h : s.act b a = .ok b') : Effect s b a b' := by
  cases a with
  | drop d =>
    cases h
    exact .revise (dropDocument_revises (hdrop d rfl))
  | event e =>
    simp only [Setting.act, Setting.applyEvent] at h
    split at h
    · rename_i assignments hpatch
      cases h
      -- a field patch and a delete render no object
      refine .revise (applyFieldPatch_revises e assignments (fun a ha => ?_))
      simp [Setting.homes, hpatch, ha]
    · rename_i hpatch
      split_ifs at h with hdel
      · cases h
        exact .revise (applyDelete_revises hsound e
          (fun t authorInto ht hauthor => ⟨hdel, t, ht, hauthor, rfl⟩))
      · cases hup : s.applyUpsert b e with
        | error err =>
          rw [hup] at h
          cases h
        | ok r =>
          rw [hup] at h
          cases h
          exact applyUpsert_effect ⟨hpatch, by simpa using hdel⟩ hup

/-! ## 5. Whole batches -/

def Setting.Work.objects : Setting.Work → List Object
  | .events es => es.filterMap Event.object
  | .resync desired _ => desired.filterMap DesiredResource.object

theorem foldlM_drops (drops : List PlanAction) (b : Batch) :
    (drops.map Action.drop).foldlM s.act b = .ok (s.dropAll b drops) := by
  induction drops generalizing b with
  | nil => rfl
  | cons a drops ih => exact ih _

theorem foldlM_desiredEvents (desired : List DesiredResource) (b : Batch) :
    ((Setting.desiredEvents desired).map Action.event).foldlM s.act b = s.applyUpserts b desired := by
  rw [List.foldlM_map]
  unfold Setting.applyUpserts
  have hupsert : ∀ e ∈ Setting.desiredEvents desired, e.fieldPatch = none ∧ e.delete = false := by
    intro e he
    obtain ⟨dr, -, hmap⟩ := List.mem_filterMap.mp he
    obtain ⟨o, -, rfl⟩ := Option.map_eq_some_iff.mp hmap
    exact ⟨rfl, rfl⟩
  generalize Setting.desiredEvents desired = events at hupsert
  induction events generalizing b with
  | nil => rfl
  | cons e events ih =>
    obtain ⟨hpatch, hdel⟩ := hupsert e (by simp)
    rw [List.foldlM_cons, List.foldlM_cons]
    have hact : s.act b (.event e) = (s.applyUpsert b e).map Prod.fst := by
      simp [Setting.act, Setting.applyEvent, hpatch, hdel]
    rw [hact]
    cases (s.applyUpsert b e).map Prod.fst with
    | error err => rfl
    | ok b₁ => exact ih b₁ (fun x hx => hupsert x (List.mem_cons_of_mem e hx))

theorem perform_eq (s : Setting) (work : Setting.Work) :
    s.perform work = (s.actions work).foldlM s.act {} := by
  cases work with
  | events events =>
    simp only [Setting.perform, Setting.applyEvents, Setting.actions, List.foldlM_map]
    rfl
  | resync desired inScope =>
    simp only [Setting.perform, Setting.applyResyncPlan, Setting.actions, List.foldlM_append]
    rw [foldlM_desiredEvents]
    cases s.applyUpserts {} desired with
    | error e => rfl
    | ok b => exact (foldlM_drops _ b).symm

theorem drop_read (hsound : StoreSound s)
    (h : Action.drop a ∈ s.actions work) : (s.contentByPath.lookup a.file).isSome = true := by
  cases work with
  | events events =>
    obtain ⟨e, -, he⟩ := List.mem_map.mp h
    cases he
  | resync desired inScope =>
    rcases List.mem_append.mp h with hevent | hdrop
    · obtain ⟨e, -, he⟩ := List.mem_map.mp hevent
      cases he
    · obtain ⟨a', ha', heq⟩ := List.mem_map.mp hdrop
      cases heq
      obtain ⟨dm, hdm, hplan⟩ := List.mem_filterMap.mp ha'
      obtain ⟨-, -, -, rfl⟩ := ManifestStore.planGitOnly_eq_some hplan
      exact hsound.files dm hdm

theorem objects_of_actions (h : Action.event e ∈ s.actions work)
    (ho : e.object = some o) : o ∈ work.objects := by
  cases work with
  | events events =>
    obtain ⟨e', he', heq⟩ := List.mem_map.mp h
    cases heq
    exact List.mem_filterMap.mpr ⟨e, he', ho⟩
  | resync desired inScope =>
    rcases List.mem_append.mp h with hevent | hdrop
    · obtain ⟨e', he', heq⟩ := List.mem_map.mp hevent
      cases heq
      obtain ⟨dr, hdr, hmap⟩ := List.mem_filterMap.mp he'
      obtain ⟨o', ho', rfl⟩ := Option.map_eq_some_iff.mp hmap
      cases ho
      exact List.mem_filterMap.mpr ⟨dr, hdr, ho'⟩
    · obtain ⟨a, -, heq⟩ := List.mem_map.mp hdrop
      cases heq

theorem built_of_buildContentForWrite (hbuild : s.tools.buildContentForWrite e = .ok doc)
    (hobjs : ∀ o ∈ e.object, ∃ o' inherited, objs o' ∧ o = Setting.stripNamespace inherited o') :
    Built s.tools objs doc := by
  unfold Tools.buildContentForWrite at hbuild
  split at hbuild
  · cases hbuild
  · rename_i o ho
    obtain ⟨o', inherited, ho', rfl⟩ := hobjs o ho
    split at hbuild
    · split at hbuild
      · cases hbuild
        exact .sealed inherited _ ho'
      · cases hbuild
    · cases hbuild
      exact .plain inherited ho'

theorem Setting.Creates.rendered
    (h : s.Creates e placement doc) (hobjs : ∀ o ∈ e.object, objs o) : Built s.tools objs doc := by
  refine built_of_buildContentForWrite h.built (fun o ho => ?_)
  obtain ⟨o', ho', rfl⟩ := Option.map_eq_some_iff.mp ho
  exact ⟨o', placement.namespaceInherited, hobjs o' ho', rfl⟩

theorem Effect.reaches {a : Action} (hsound : StoreSound s)
    (hobjs : ∀ e, a = .event e → ∀ o ∈ e.object, objs o) (h : Effect s b a b') :
    Reaches s objs b b' := by
  have hentries (placement : PlacementResult) : Reaches s objs b (s.withEntry b placement) :=
    (withEntry_revises placement : Revises s (fun _ => False) (fun _ _ => False) b _).reaches
  -- the entry of a new document comes first, then the document
  have hentry : ∀ (placement : PlacementResult) {c : Option Content} {b' : Batch},
      Write s objs (s.withEntry b placement) placement.path c →
      b'.buffers = (s.withEntry b placement).buffers.insert placement.path c →
      b'.coldBundles = b.coldBundles → Reaches s objs b b' := by
    intro placement c b' hwrite hbuf hcold
    exact ((hentries placement).trans (.write hwrite)).trans
      (.bookkeeping hbuf (hcold.trans (withEntry_coldBundles placement).symm))
  cases h with
  | append hnew happend hbuf hcold =>
    obtain ⟨-, hsafe, hplace, -⟩ := locateNew_ok hnew.located
    exact hentry _ (.append (hsafe ▸ happend) (hplace happend).2 (hnew.rendered (hobjs _ rfl))) hbuf hcold
  | whole hnew hread hcount hbuf hcold =>
    exact hentry _ (.whole hread (hnew.rendered (hobjs _ rfl)) hcount) hbuf hcold
  | @cold e placement doc _ members hnew hfree hopen hmember hbuf hcold =>
    obtain ⟨hval, -⟩ := locateNew_ok hnew.located
    intro hb
    -- the members are the earlier ones and the new one, in another order
    have hall : ∀ m ∈ members, Built s.tools objs m.document := by
      intro m hm
      rw [hmember.mem_iff, List.mem_append, List.mem_singleton] at hm
      rcases hm with hm | rfl
      · cases hold : b.coldBundles.lookup placement.path with
        | none => simp [hold] at hm
        | some old =>
          rw [hold] at hm
          exact hb _ old hold m hm
      · exact hnew.rendered (hobjs e rfl)
    have hwrite : Write s objs (s.withEntry b placement) placement.path
        (some (members.map ColdBundleMember.document)) := by
      refine .cold hval hfree (fun d hd => ?_)
      obtain ⟨m, hm, rfl⟩ := List.mem_map.mp hd
      exact hall m hm
    refine ⟨?_, ?_⟩
    · intro q ms hq
      rw [hcold] at hq
      by_cases hqp : q = placement.path
      · subst hqp
        have hms : members = ms := by simpa using hq
        rwa [← hms]
      · exact hb q ms (by simpa [AList.lookup_insert_ne hqp] using hq)
    · exact (hentries placement hb).2.trans (.single (.inr ⟨_, _, hwrite, hbuf⟩))
  | @reseal e dm doc _ hfound hcount hbuf hcold =>
    obtain ⟨id, -, hmem⟩ := Option.bind_eq_some_iff.mp hfound.found
    refine (Reaches.write (.whole (hsound.files dm (List.mem_of_find?_eq_some hmem))
      (built_of_buildContentForWrite hfound.built ?_) hcount)).trans (.bookkeeping hbuf hcold)
    exact fun o ho => ⟨o, false, hobjs e rfl o ho, rfl⟩
  | revise hrev => exact hrev.reaches

/-- A batch only writes what `Write` lists. -/
theorem perform_reaches (hsound : StoreSound s) (hobjs : ∀ o ∈ work.objects, objs o)
    (h : s.perform work = .ok b) :
    ReflTransGen (Step s objs) {} b := by
  suffices hreach : Reaches s objs {} b from (hreach (fun p members hp => by simp at hp)).2
  rw [perform_eq] at h
  refine .foldlM (fun a ha b₁ b₂ hstep => ?_) h
  have heffect := act_effect hsound (fun d hd => drop_read hsound (hd ▸ ha)) hstep
  exact heffect.reaches hsound (fun e he o ho => hobjs o (objects_of_actions (he ▸ ha) ho))

/-- The rule for whole batches: what holds before and is kept by every write holds at the end. -/
theorem perform_invariant (objs : Object → Prop) (hsound : StoreSound s)
    (hobjs : ∀ o ∈ work.objects, objs o) (hinit : I s.contentByPath.lookup)
    (hwrite : ∀ b p c, I (s.current b) → Write s objs b p c →
      I (fun q => if q = p then c else s.current b q))
    (h : s.perform work = .ok b) : I (s.current b) :=
  buffers_invariant (b := {}) hwrite hinit (perform_reaches hsound hobjs h)

end Reaching

end GitopsReverser.Flush
