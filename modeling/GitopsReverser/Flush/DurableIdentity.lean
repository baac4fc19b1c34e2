import GitopsReverser.Flush.ResyncDeletion
import GitopsReverser.Reasoning.Runs
import GitopsReverser.Reasoning.Sole

/-!
# DurableIdentity — how many documents one object has

The durable identity of an object leaves out the version it is served under. An upsert looks for its
document by apiVersion and kind, though, so an object that arrives under another version is taken
for a new one, whatever documents of it are there.
-/

namespace GitopsReverser

/-- The versionless identity of `ToGitPath`. -/
structure DurableIdentity where
  group : String
  resource : String
  ns : String
  name : String
  deriving DecidableEq, Repr

def ResourceIdentifier.durable (r : ResourceIdentifier) : DurableIdentity :=
  ⟨r.group, r.resource, r.ns, r.name⟩

end GitopsReverser

namespace GitopsReverser.Flush

open Reasoning Manifest
open Git (Path PruneMode)

/-! ## 1. The documents of an object -/

def managed (tools : Tools) (lookup : Lookup) (scope : Scope) (folder : Folder) : List DocumentModel :=
  (newWriteBatch tools lookup scope folder none .unset).store.documents

def OneDocument (dms : List DocumentModel) : Prop :=
  ∀ k, dms.countP (fun dm => dm.resource.map ResourceIdentifier.durable = some k) ≤ 1

def durableAt (tools : Tools) (lookup : Lookup) (scope : Scope) (folder : Folder) (p : Path)
    (d : Document) : Option DurableIdentity :=
  if scope.reads tools.nameMatch folder p && (scanContext tools lookup scope folder).manages p then
    (documentResource (scanContext tools lookup scope folder) p d).map ResourceIdentifier.durable
  else none

/-- A property of the documents of a file that is read off their records in the index. -/
structure OfRecord (p : Path) (holds : Document → Bool) : Prop where
  same : ∀ d d', (indexDocument p 0 d).1 = (indexDocument p 0 d').1 → holds d = holds d'
  recorded : ∀ d, holds d = true → (indexDocument p 0 d).1 ≠ []

theorem ofRecord_durableAt (tools : Tools) (lookup : Lookup) (scope : Scope) (folder : Folder)
    (p : Path) (k : DurableIdentity) :
    OfRecord p (fun d => decide (durableAt tools lookup scope folder p d = some k)) where
  same := by
    intro d d' h
    have hdurable : durableAt tools lookup scope folder p d = durableAt tools lookup scope folder p d' := by
      simp only [durableAt, documentResource, h]
    simp only [hdurable]
  recorded := by
    intro d hd hnil
    simp [durableAt, documentResource, hnil] at hd

theorem ofRecord_carries (p : Path) (id : Identity) : OfRecord p (carries p id) where
  same := by
    intro d d' h
    simp only [carries, h]
  recorded := by
    intro d hd hnil
    simp [carries, hnil] at hd

section Counting

variable {tools : Tools} {lookup : Lookup} {scope : Scope} {folder : Folder} {k : DurableIdentity}

theorem countP_indexOneFile (hread : scope.reads tools.nameMatch folder f.path = true) :
    (indexOneFile f).1.countP (fun r => decide (((scanContext tools lookup scope folder).materialize
        r).resource.map ResourceIdentifier.durable = some k) &&
        (scanContext tools lookup scope folder).manages r.location.path) =
      f.content.countP (fun d => durableAt tools lookup scope folder f.path d = some k) := by
  -- one document has one record at most
  have hone : ∀ (d : Document) (i : Nat), (indexDocument f.path i d).1.countP
      (fun r => decide (((scanContext tools lookup scope folder).materialize
        r).resource.map ResourceIdentifier.durable = some k) &&
        (scanContext tools lookup scope folder).manages r.location.path) =
      if durableAt tools lookup scope folder f.path d = some k then 1 else 0 := by
    intro d i
    rw [indexDocument_records]
    simp only [durableAt, documentResource, hread, Bool.true_and]
    cases hr : (indexDocument f.path 0 d).1.head? with
    | none => simp
    | some r =>
      have hpath := path_of_head_indexDocument hr
      cases hmanage : (scanContext tools lookup scope folder).manages f.path with
      | false => simp [hmanage]
      | true => simp [hmanage, Context.materialize, hpath, List.countP_cons]
  simp only [indexOneFile, List.flatMap_map]
  -- the induction is on the documents, at any first index
  suffices hall : ∀ (content : Content) (n : Nat), ((content.zipIdx n).flatMap (fun x =>
      (indexDocument f.path x.2 x.1).1)).countP (fun r =>
        decide (((scanContext tools lookup scope folder).materialize
        r).resource.map ResourceIdentifier.durable = some k) &&
        (scanContext tools lookup scope folder).manages r.location.path) =
      content.countP (fun d => durableAt tools lookup scope folder f.path d = some k) from
    hall f.content 0
  intro content
  induction content with
  | nil => simp
  | cons d content ih =>
    intro n
    rw [List.zipIdx_cons, List.flatMap_cons, List.countP_append, hone, ih, List.countP_cons]
    simp only [decide_eq_true_eq]
    omega

theorem countP_managed : (managed tools lookup scope folder).countP
        (fun dm => dm.resource.map ResourceIdentifier.durable = some k) =
      ((scope.scan tools.nameMatch folder).yamlFiles.map (fun f =>
        f.content.countP (fun d => durableAt tools lookup scope folder f.path d = some k))).sum := by
  have hunfollowable : managed tools lookup scope folder =
      ((recordsOf (scope.scan tools.nameMatch folder).yamlFiles).filter
        (fun r => (scanContext tools lookup scope folder).manages r.location.path)).map
        (scanContext tools lookup scope folder).materialize := rfl
  rw [hunfollowable, List.countP_map, List.countP_filter, recordsOf, List.countP_flatMap]
  congr 1
  refine List.map_congr_left (fun f hf => ?_)
  exact countP_indexOneFile (mem_scope_yamlFiles.mp hf).2

theorem oneDocument_iff : OneDocument (managed tools lookup scope folder) ↔
    ∀ k, Sole (fun p => ((folder.yaml.lookup p).getD []).countP
      (fun d => durableAt tools lookup scope folder p d = some k)) := by
  have hfile : ∀ k f, f ∈ (scope.scan tools.nameMatch folder).yamlFiles →
      f.content.countP (fun d => durableAt tools lookup scope folder f.path d = some k) =
        ((folder.yaml.lookup f.path).getD []).countP
          (fun d => durableAt tools lookup scope folder f.path d = some k) := by
    intro k f hf
    rw [(mem_scope_yamlFiles.mp hf).1]
    rfl
  have hmem : ∀ k p, 0 < ((folder.yaml.lookup p).getD []).countP
      (fun d => durableAt tools lookup scope folder p d = some k) →
      ∃ f ∈ (scope.scan tools.nameMatch folder).yamlFiles, f.path = p := by
    intro k p hpos
    obtain ⟨d, hd, hk⟩ := List.countP_pos_iff.mp hpos
    cases hc : folder.yaml.lookup p with
    | none => simp [hc] at hd
    | some c =>
      refine ⟨⟨p, c⟩, mem_scope_yamlFiles.mpr ⟨hc, ?_⟩, rfl⟩
      by_contra hready
      simp [durableAt, hready] at hk
  constructor
  · intro h k
    -- the count over all files is one at most, so one file has it all
    have hsum := h k
    rw [countP_managed] at hsum
    refine ⟨fun p => ?_, fun p q hp hq => ?_⟩
    · by_contra hmany
      obtain ⟨f, hf, rfl⟩ := hmem k p (by omega)
      have hle := List.single_le_sum (fun _ _ => Nat.zero_le _) _ (List.mem_map_of_mem
        (f := fun f : FileContent => f.content.countP
          (fun d => durableAt tools lookup scope folder f.path d = some k)) hf)
      rw [hfile k f hf] at hle
      omega
    · obtain ⟨f, hf, rfl⟩ := hmem k p hp
      obtain ⟨g, hg, rfl⟩ := hmem k q hq
      rw [← hfile k f hf] at hp
      rw [← hfile k g hg] at hq
      rw [eq_of_sum_le_one hsum hf hg hp hq]
  · intro h k
    rw [countP_managed, List.map_congr_left (hfile k)]
    refine (h k).sum_le_one ?_
    exact scan_sorted.imp And.right

end Counting

/-! ## 2. What an event must find -/

def Setting.drops (s : Setting) : Setting.Work → List PlanAction
  | .events _ => []
  | .resync desired inScope =>
    s.store.dropOrphans desired inScope s.pruneMode.orDefault.sweepsOrphans

def Setting.upserts : Setting.Work → List Event
  | .events events => events
  | .resync desired _ => Setting.desiredEvents desired

def swept (drops : List PlanAction) (p : Path) (d : Document) : Bool :=
  drops.any (fun a => decide (a.file = p) && carries p a.identity d)

/-- The identity a document has after the flush, unless the flush sweeps it. -/
def lastingAt (tools : Tools) (catalog : Lookup) (scope : Scope) (folder' : Folder)
    (drops : List PlanAction) (p : Path) (d : Document) : Option DurableIdentity :=
  if swept drops p d then none else durableAt tools catalog scope folder' p d

def Setting.isNew (s : Setting) (e : Event) : Bool :=
  ((manifestIdentity e.object).bind s.store.byManifestIdentity).isNone

def Setting.rendered (s : Setting) (e : Event) : Option (Path × Document) :=
  if e.fieldPatch.isSome || e.delete then none
  else match (manifestIdentity e.object).bind s.store.byManifestIdentity with
    | some dm =>
      if s.tools.isSensitive e.identifier then
        (s.tools.buildContentForWrite e).toOption.map (dm.file, ·)
      else none
    | none =>
      match locateNew s.store s.policy (s.placementRequest e) with
      | .error _ => none
      | .ok placement =>
        (s.tools.buildContentForWrite (Setting.placedEvent e placement)).toOption.map
          (placement.path, ·)

def Setting.authored (s : Setting) (e : Event) : Option (Path × Document) :=
  (s.resolveDelete e).bind (fun t => (s.overlayAuthorKustomization t.file).map (fun authorInto =>
    (Setting.inheritedDeletePatchPath authorInto t.id, Setting.inheritedDeletePatchDocument t.id)))

/-- A document that an event writes is the only one of its identity: a new one is the first, and one
    that is written over another finds no third. A patch is no document. -/
def FindsItsOwn (s : Setting) (lasting : Path → Document → Option DurableIdentity)
    (drops : List PlanAction) (b : Batch) : Action → Prop
  | .drop _ => True
  | .event e =>
    (∀ x ∈ (s.rendered e).toList, (∀ f ∈ s.files b, (s.isNew e = true ∨ f.path ≠ x.1) → ∀ d ∈ f.content,
        lasting x.1 x.2 = none ∨ lasting f.path d ≠ lasting x.1 x.2) ∧
      (s.isNew e = true → ∀ a ∈ drops, a.file = x.1 → carries x.1 a.identity x.2 = false)) ∧
    (e.delete = true → ∀ x ∈ (s.authored e).toList, lasting x.1 x.2 = none)

instance (s : Setting) (lasting : Path → Document → Option DurableIdentity)
    (drops : List PlanAction) (b : Batch) (a : Action) :
    Decidable (FindsItsOwn s lasting drops b a) :=
  match a with
  | .drop _ => instDecidableTrue
  | .event _ => instDecidableAnd

theorem ofRecord_lastingAt (tools : Tools) (catalog : Lookup) (scope : Scope) (folder' : Folder)
    (drops : List PlanAction) (p : Path) (k : DurableIdentity) :
    OfRecord p (fun d => decide (lastingAt tools catalog scope folder' drops p d = some k)) where
  same := by
    intro d d' h
    have hsweep : swept drops p d = swept drops p d' := by simp only [swept, carries, h]
    have hdurable : durableAt tools catalog scope folder' p d =
        durableAt tools catalog scope folder' p d' := by
      simp only [durableAt, documentResource, h]
    have hlasting : lastingAt tools catalog scope folder' drops p d =
        lastingAt tools catalog scope folder' drops p d' := by
      simp only [lastingAt, hsweep, hdurable]
    simp only [hlasting]
  recorded := by
    intro d hd hnil
    simp [lastingAt, durableAt, documentResource, hnil] at hd

theorem mem_files {s : Setting} : f ∈ s.files b ↔ s.current b f.path = some f.content := by
  simp only [Setting.files, List.mem_filterMap, mem_sortPaths, List.mem_dedup, List.mem_append,
    Option.map_eq_some_iff]
  constructor
  · rintro ⟨p, -, c, hc, rfl⟩
    exact hc
  · intro h
    refine ⟨f.path, ?_, f.content, h, rfl⟩
    by_contra hkeys
    rw [not_or] at hkeys
    have hbuf : b.buffers.lookup f.path = none :=
      AList.lookup_eq_none.mpr (fun hm => hkeys.2 (AList.mem_keys.mp hm))
    have hread : s.contentByPath.lookup f.path = none :=
      AList.lookup_eq_none.mpr (fun hm => hkeys.1 (AList.mem_keys.mp hm))
    simp [Setting.current, hbuf, hread] at h

/-! ## 3. Revisions -/

section Revisions

variable {s : Setting} {b b' : Batch} {edited : Path → Prop} {patched : Path → Identity → Prop}
  {p : Path} {c : Option Content} {holds : Document → Bool}

theorem countP_editDocument (hof : OfRecord p holds) {content c : Content}
    (h : editDocument content i f = some c) :
    c.countP holds = content.countP holds := by
  unfold editDocument at h
  split at h
  · rename_i n hn
    split_ifs at h
    obtain ⟨edited, -, rfl⟩ := Option.map_eq_some_iff.mp h
    exact countP_set_same hn (hof.same _ _ rfl)
  · cases h

theorem countP_editKustomization (hof : OfRecord p holds) {content c : Content}
    (h : editKustomization edit content = some c) : c.countP holds = content.countP holds := by
  obtain ⟨n, k, k', hone, -, -, -, rfl⟩ := editKustomization_eq_some h
  rw [List.countP_map]
  refine List.countP_congr (fun d hd => ?_)
  cases hblank : d.isBlank with
  | true => simp [hblank]
  | false =>
    -- the only document that is not blank
    have hmem : d ∈ content.filter (fun d => !d.isBlank) := List.mem_filter.mpr ⟨hd, by rw [hblank]; rfl⟩
    rw [hone, List.mem_singleton] at hmem
    subst hmem
    rw [Function.comp_apply, hblank, if_neg (by simp)]
    rw [hof.same (.node { n with kustomization := some k' }) (.node n) rfl]

/-- A rewrite keeps the count, or erases from a file that was read, or writes a patch where there is
    nothing else. -/
theorem countP_rewrite (hof : OfRecord p holds) (hwrite : Rewrite s edited patched b p c) :
    (c.isSome = true ∧ (c.getD []).countP holds = ((s.current b p).getD []).countP holds) ∨
    ((s.contentByPath.lookup p).isSome = true ∧
      (c.getD []).countP holds ≤ ((s.current b p).getD []).countP holds) ∨
    (∃ authorInto id, patched authorInto id ∧ p = Setting.inheritedDeletePatchPath authorInto id ∧
      c = some [Setting.inheritedDeletePatchDocument id] ∧ s.current b p = none) := by
  cases hwrite with
  | edit _ hcur hidx hedit =>
    refine .inl ⟨rfl, ?_⟩
    rw [hcur]
    exact countP_editDocument hof hedit
  | kustomization hcur hedit =>
    refine .inl ⟨rfl, ?_⟩
    rw [hcur]
    exact countP_editKustomization hof hedit
  | @erase _ cur _ i hread hcur hidx =>
    refine .inr (.inl ⟨hread, ?_⟩)
    rw [hcur]
    cases hrest : deleteDocument cur i with
    | none => simp
    | some rest => exact (deleteDocument_sublist hrest).countP_le
  | patch authorInto id hp hid hfree =>
    -- a delete patch that is there already is the same one
    cases hcur : s.current b (Setting.inheritedDeletePatchPath authorInto id) with
    | none => exact .inr (.inr ⟨authorInto, id, hp, rfl, rfl, rfl⟩)
    | some cur =>
      refine .inl ⟨rfl, ?_⟩
      rw [hfree cur hcur]

theorem countP_revises_le (holds : Path → Document → Bool) (hof : ∀ p, OfRecord p (holds p))
    (hpatch : ∀ authorInto id, patched authorInto id →
      holds (Setting.inheritedDeletePatchPath authorInto id)
        (Setting.inheritedDeletePatchDocument id) = false)
    (hrev : Revises s edited patched b b') (q : Path) :
    ((s.current b' q).getD []).countP (holds q) ≤ ((s.current b q).getD []).countP (holds q) := by
  refine buffers_invariant (s := s) (I := fun cur => ∀ q, ((cur q).getD []).countP (holds q) ≤
      ((s.current b q).getD []).countP (holds q)) ?_ (fun q => Nat.le_refl _) hrev.2 q
  intro b₁ p c hall hwrite q
  dsimp only
  by_cases hqp : q = p
  · subst hqp
    rw [if_pos rfl]
    refine Nat.le_trans ?_ (hall q)
    rcases countP_rewrite (hof q) hwrite with ⟨-, heq⟩ | ⟨-, hle⟩ | ⟨authorInto, id, hp, rfl, rfl, -⟩
    · exact Nat.le_of_eq heq
    · exact hle
    · simp [hpatch authorInto id hp]
  · rw [if_neg hqp]
    exact hall q

/-- What holds of the buffers of a batch whose events find their own documents. -/
structure Held (s : Setting) (lasting : Path → Document → Option DurableIdentity)
    (drops : List PlanAction) (cold : Dict Path (List ColdBundleMember))
    (cur : Path → Option Content) : Prop where
  sole : ∀ k, Sole (fun p => ((cur p).getD []).countP (fun d => lasting p d = some k))
  once : ∀ a ∈ drops, ((cur a.file).getD []).countP (carries a.file a.identity) ≤ 1
  bundled : ∀ p ms, cold.lookup p = some ms → s.contentByPath.lookup p = none ∧
    (cur p).isSome = true ∧ ∀ k, (ms.map ColdBundleMember.document).countP
      (fun d => lasting p d = some k) ≤ ((cur p).getD []).countP (fun d => lasting p d = some k)

variable {lasting : Path → Document → Option DurableIdentity} {drops : List PlanAction}
  {cold : Dict Path (List ColdBundleMember)}

theorem Held.rewrite (h : Held s lasting drops cold (s.current b))
    (hof : ∀ p k, OfRecord p (fun d => decide (lasting p d = some k)))
    (hpatch : ∀ authorInto id, patched authorInto id →
      lasting (Setting.inheritedDeletePatchPath authorInto id)
        (Setting.inheritedDeletePatchDocument id) = none)
    (hwrite : Rewrite s edited patched b p c) :
    Held s lasting drops cold (fun q => if q = p then c else s.current b q) where
  sole := by
    intro k
    refine (h.sole k).mono (fun q => ?_)
    by_cases hqp : q = p
    · subst hqp
      rw [if_pos rfl]
      rcases countP_rewrite (hof q k) hwrite with ⟨-, heq⟩ | ⟨-, hle⟩ | ⟨authorInto, id, hp, rfl, rfl, -⟩
      · exact Nat.le_of_eq heq
      · exact hle
      · simp [hpatch authorInto id hp]
    · rw [if_neg hqp]
  once := by
    intro a ha
    by_cases hqp : a.file = p
    · subst hqp
      rw [if_pos rfl]
      rcases countP_rewrite (ofRecord_carries a.file a.identity) hwrite with
        ⟨-, heq⟩ | ⟨-, hle⟩ | ⟨authorInto, id, -, -, rfl, -⟩
      · exact heq ▸ h.once a ha
      · exact Nat.le_trans hle (h.once a ha)
      · exact List.countP_le_length
    · rw [if_neg hqp]
      exact h.once a ha
  bundled := by
    intro q ms hms
    obtain ⟨hfree, hopen, hcount⟩ := h.bundled q ms hms
    refine ⟨hfree, ?_⟩
    by_cases hqp : q = p
    · subst hqp
      rw [if_pos rfl]
      -- the file of a bundle was not read, so nothing in it is erased
      have hkept : ∀ k, c.isSome = true ∧ (c.getD []).countP (fun d => lasting q d = some k) =
          ((s.current b q).getD []).countP (fun d => lasting q d = some k) := by
        intro k
        rcases countP_rewrite (hof q k) hwrite with hkept | ⟨hread, -⟩ | ⟨_, _, -, -, -, hnone⟩
        · exact hkept
        · simp [hfree] at hread
        · simp [hnone] at hopen
      exact ⟨(hkept ⟨"", "", "", ""⟩).1, fun k => (hkept k).2 ▸ hcount k⟩
    · rw [if_neg hqp]
      exact ⟨hopen, hcount⟩

theorem Held.revises (h : Held s lasting drops cold (s.current b))
    (hof : ∀ p k, OfRecord p (fun d => decide (lasting p d = some k)))
    (hpatch : ∀ authorInto id, patched authorInto id →
      lasting (Setting.inheritedDeletePatchPath authorInto id)
        (Setting.inheritedDeletePatchDocument id) = none)
    (hrev : Revises s edited patched b b') : Held s lasting drops cold (s.current b') :=
  buffers_invariant (fun _ _ _ hheld hwrite => hheld.rewrite hof hpatch hwrite) h hrev.2

/-! ## 4. One action -/

variable {doc : Document} {e : Event} {cur : Path → Option Content}

theorem rendered_of_creates (h : s.Creates e placement doc) :
    s.rendered e = some (placement.path, doc) ∧ s.isNew e = true := by
  refine ⟨?_, ?_⟩
  · simp only [Setting.rendered, h.upsert.1, h.upsert.2, h.unmatched, h.located, h.built]
    rfl
  · simp only [Setting.isNew, h.unmatched]
    rfl

theorem rendered_of_reseals (h : s.Reseals e dm doc) :
    s.rendered e = some (dm.file, doc) ∧ s.isNew e = false := by
  refine ⟨?_, ?_⟩
  · simp only [Setting.rendered, h.upsert.1, h.upsert.2, h.found, h.sensitive, h.built]
    rfl
  · simp only [Setting.isNew, h.found]
    rfl

theorem FindsItsOwn.free {x : Path × Document} (h : FindsItsOwn s lasting drops b (.event e))
    (hx : s.rendered e = some x) (hk : lasting x.1 x.2 = some k) (q : Path)
    (hq : s.isNew e = true ∨ q ≠ x.1) :
    ((s.current b q).getD []).countP (fun d => lasting q d = some k) = 0 := by
  rw [List.countP_eq_zero]
  intro d hd
  cases hcur : s.current b q with
  | none => simp [hcur] at hd
  | some content =>
    rw [hcur, Option.getD_some] at hd
    have hfile : (⟨q, content⟩ : FileContent) ∈ s.files b := mem_files.mpr hcur
    have hother := (h.1 x (by simp [hx])).1 ⟨q, content⟩ hfile hq d hd
    rw [hk] at hother
    simpa using hother

theorem FindsItsOwn.free_withEntry
    (h : FindsItsOwn s lasting drops b (.event e)) (hnew : s.Creates e placement doc)
    (hof : ∀ p k, OfRecord p (fun d => decide (lasting p d = some k)))
    (hk : lasting placement.path doc = some k) (q : Path) :
    ((s.current (s.withEntry b placement) q).getD []).countP (fun d => lasting q d = some k) = 0 := by
  obtain ⟨hrender, hisN⟩ := rendered_of_creates hnew
  have hbefore := h.free hrender hk q (.inl hisN)
  have hrev : Revises s (fun _ => False) (fun _ _ => False) b (s.withEntry b placement) :=
    withEntry_revises placement
  have hle := countP_revises_le (fun p d => decide (lasting p d = some k))
    (fun p => hof p k) (fun _ _ hp => hp.elim) hrev q
  omega

/-- One document more at a path: its identity was free, the others have no more than before. -/
theorem sole_of_placed (doc : Document)
    (hsole : ∀ k, Sole (fun q => ((cur q).getD []).countP (fun d => lasting q d = some k)))
    (hfree : ∀ k, lasting p doc = some k →
      ∀ q, q ≠ p → ((cur q).getD []).countP (fun d => lasting q d = some k) = 0)
    (hown : ∀ k, lasting p doc = some k → content.countP (fun d => lasting p d = some k) ≤ 1)
    (hrest : ∀ k, lasting p doc ≠ some k → content.countP (fun d => lasting p d = some k) ≤
      ((cur p).getD []).countP (fun d => lasting p d = some k)) (k : DurableIdentity) :
    Sole (fun q => (((if q = p then some content else cur q)).getD []).countP
      (fun d => lasting q d = some k)) := by
  by_cases hk : lasting p doc = some k
  · refine sole_at (x := p) ?_ (fun q hq => ?_)
    · rw [if_pos rfl]
      exact hown k hk
    · rw [if_neg hq]
      exact hfree k hk q hq
  · refine (hsole k).mono (fun q => ?_)
    by_cases hq : q = p
    · subst hq
      rw [if_pos rfl]
      exact hrest k hk
    · rw [if_neg hq]

theorem countP_singleton_le (holds : Document → Bool) (d : Document) : [d].countP holds ≤ 1 :=
  List.countP_le_length

section

variable (h : Held s lasting drops cold cur)

include h

theorem Held.overwritten
    (hread : (s.contentByPath.lookup p).isSome = true) (hfree : ∀ k, lasting p doc = some k →
      ∀ q, q ≠ p → ((cur q).getD []).countP (fun d => lasting q d = some k) = 0) :
    Held s lasting drops cold (fun q => if q = p then some [doc] else cur q) where
  sole := sole_of_placed doc h.sole hfree (fun k _ => countP_singleton_le _ doc)
    (fun k hk => by simp [hk])
  once := by
    intro a ha
    by_cases hp : a.file = p
    · rw [if_pos hp]
      exact countP_singleton_le _ doc
    · rw [if_neg hp]
      exact h.once a ha
  bundled := by
    intro q ms hms
    obtain ⟨hnone, hopen, hcount⟩ := h.bundled q ms hms
    have hq : q ≠ p := by
      rintro rfl
      rw [hnone] at hread
      cases hread
    rw [if_neg hq]
    exact ⟨hnone, hopen, hcount⟩

theorem Held.appended (hfree : ∀ k, lasting p doc = some k →
      ∀ q, ((cur q).getD []).countP (fun d => lasting q d = some k) = 0)
    (hother : ∀ a ∈ drops, a.file = p → carries p a.identity doc = false) :
    Held s lasting drops cold
      (fun q => if q = p then some (appendYAMLDocument ((cur p).getD []) doc) else cur q) where
  sole := by
    refine sole_of_placed doc h.sole (fun k hk q _ => hfree k hk q) ?_ ?_
    · intro k hk
      have := hfree k hk p
      rw [appendYAMLDocument, List.countP_append]
      have := countP_singleton_le (fun d => decide (lasting p d = some k)) doc
      omega
    · intro k hk
      rw [appendYAMLDocument, List.countP_append]
      simp [hk]
  once := by
    intro a ha
    by_cases hp : a.file = p
    · -- the new document is not one of those the drop looks for
      have hold := h.once a ha
      rw [if_pos hp, Option.getD_some, appendYAMLDocument, List.countP_append]
      rw [hp] at hold ⊢
      simpa [hother a ha hp] using hold
    · rw [if_neg hp]
      exact h.once a ha
  bundled := by
    intro q ms hms
    obtain ⟨hnone, hopen, hcount⟩ := h.bundled q ms hms
    refine ⟨hnone, ?_⟩
    by_cases hq : q = p
    · subst hq
      rw [if_pos rfl]
      refine ⟨rfl, fun k => Nat.le_trans (hcount k) ?_⟩
      rw [Option.getD_some, appendYAMLDocument, List.countP_append]
      omega
    · rw [if_neg hq]
      exact ⟨hopen, hcount⟩

theorem Held.joined (hdrop : ∀ d ∈ drops, (s.contentByPath.lookup d.file).isSome = true)
    (hnone : s.contentByPath.lookup p = none)
    (hmem : members.Perm ((cold.lookup p).getD [] ++ [member]))
    (hfree : ∀ k, lasting p member.document = some k →
      ∀ q, ((cur q).getD []).countP (fun d => lasting q d = some k) = 0) :
    Held s lasting drops (cold.insert p members)
      (fun q => if q = p then some (members.map ColdBundleMember.document) else cur q) := by
  -- the members in waiting are documents of the file
  have hwait : ∀ k, (((cold.lookup p).getD []).map ColdBundleMember.document).countP
      (fun d => lasting p d = some k) ≤ ((cur p).getD []).countP (fun d => lasting p d = some k) := by
    intro k
    cases hold : cold.lookup p with
    | none => simp
    | some old => exact (h.bundled _ old hold).2.2 k
  have hcount : ∀ k, (members.map ColdBundleMember.document).countP (fun d => lasting p d = some k) ≤
        ((cur p).getD []).countP (fun d => lasting p d = some k) +
          [member.document].countP (fun d => lasting p d = some k) := by
    intro k
    rw [(hmem.map ColdBundleMember.document).countP_eq, List.map_append, List.countP_append]
    exact Nat.add_le_add_right (hwait k) _
  refine ⟨sole_of_placed member.document h.sole (fun k hk q _ => hfree k hk q) ?_ ?_, ?_, ?_⟩
  · intro k hk
    have := hcount k
    have := hfree k hk p
    have := countP_singleton_le (fun d => decide (lasting p d = some k)) member.document
    omega
  · intro k hk
    simpa [hk] using hcount k
  · -- a drop is about a file that was read
    intro d hd
    have hne : d.file ≠ p := by
      intro heq
      have hread := hdrop d hd
      rw [heq, hnone] at hread
      cases hread
    rw [if_neg hne]
    exact h.once d hd
  · intro q ms hms
    by_cases hq : q = p
    · subst hq
      obtain rfl : members = ms := by simpa using hms
      rw [if_pos rfl]
      exact ⟨hnone, rfl, fun k => Nat.le_refl _⟩
    · rw [if_neg hq]
      exact h.bundled q ms (by simpa [AList.lookup_insert_ne hq] using hms)

end

theorem Held.effect
    (hof : ∀ p k, OfRecord p (fun d => decide (lasting p d = some k))) (hsound : StoreSound s)
    (hdrop : ∀ d ∈ drops, (s.contentByPath.lookup d.file).isSome = true)
    (hfind : FindsItsOwn s lasting drops b a) (h : Held s lasting drops b.coldBundles (s.current b))
    (heffect : Effect s b a b') : Held s lasting drops b'.coldBundles (s.current b') := by
  have hentry (placement : PlacementResult) :
      Held s lasting drops b.coldBundles (s.current (s.withEntry b placement)) := by
    have hrev : Revises s (fun _ => False) (fun _ _ => False) b (s.withEntry b placement) :=
      withEntry_revises placement
    exact h.revises hof (fun _ _ hp => hp.elim) hrev
  -- a new document comes after the entry that lists it, which changes no identity
  cases heffect with
  | @append e placement doc _ hnew happend hbuf hcold =>
    obtain ⟨hrender, hisN⟩ := rendered_of_creates hnew
    rw [hcold, current_eq_of_insert hbuf]
    exact (hentry placement).appended (fun k hk => hfind.free_withEntry hnew hof hk)
      ((hfind.1 (placement.path, doc) (by simp [hrender])).2 hisN)
  | @cold e placement doc _ members hnew hnone hopen hmember hbuf hcold =>
    rw [hcold, current_eq_of_insert hbuf]
    exact (hentry placement).joined hdrop hnone hmember (fun k hk => hfind.free_withEntry hnew hof hk)
  | @whole e placement doc _ hnew hread hcount hbuf hcold =>
    have hfree := fun k hk => hfind.free_withEntry hnew hof (k := k) hk
    have hheld := hentry placement
    rw [hcold, current_eq_of_insert hbuf]
    exact hheld.overwritten hread (fun k hk q _ => hfree k hk q)
  | @reseal e dm doc _ hfound hcount hbuf hcold =>
    obtain ⟨hrender, -⟩ := rendered_of_reseals hfound
    obtain ⟨id, -, hmem⟩ := Option.bind_eq_some_iff.mp hfound.found
    rw [hcold, current_eq_of_insert hbuf]
    refine h.overwritten (hsound.files dm (List.mem_of_find?_eq_some hmem)) ?_
    exact fun k hk q hq => hfind.free hrender hk q (.inr hq)
  | revise hrev =>
    rw [hrev.1]
    refine h.revises hof (fun authorInto id hp => ?_) hrev
    cases a with
    | drop a => exact hp.elim
    | event e =>
      obtain ⟨hdel, t, ht, hauthor, rfl⟩ := hp
      exact hfind.2 hdel (Setting.inheritedDeletePatchPath authorInto t.id,
        Setting.inheritedDeletePatchDocument t.id) (by simp [Setting.authored, ht, hauthor])

end Revisions

/-! ## 5. One flush -/

section Flushes

variable {tools : Tools} {lookup catalog : Lookup} {scope : Scope} {folder : Folder}
  {policy : Option PlacementPolicy} {pruneMode : PruneMode} {s : Setting} {work : Setting.Work}
  {b : Batch}

theorem actions_eq (s : Setting) (work : Setting.Work) :
    s.actions work = (Setting.upserts work).map .event ++ (s.drops work).map .drop := by
  cases work with
  | events events => simp [Setting.actions, Setting.upserts, Setting.drops]
  | resync desired inScope => rfl

theorem perform_split (h : s.perform work = .ok b) :
    ∃ b₁, ((Setting.upserts work).map Action.event).foldlM s.act {} = .ok b₁ ∧
      b = s.dropAll b₁ (s.drops work) := by
  rw [perform_eq, actions_eq, List.foldlM_append] at h
  cases hup : ((Setting.upserts work).map Action.event).foldlM s.act {} with
  | error e =>
    rw [hup] at h
    cases h
  | ok b₁ =>
    rw [hup] at h
    refine ⟨b₁, rfl, ?_⟩
    have hdrop : (Except.ok (s.dropAll b₁ (s.drops work)) : Except FlushError Batch) = .ok b :=
      (foldlM_drops (s := s) (s.drops work) b₁).symm.trans h
    exact (Except.ok.inj hdrop).symm

theorem drops_read (hsound : StoreSound s) : ∀ a ∈ s.drops work,
    (s.contentByPath.lookup a.file).isSome = true := by
  intro a ha
  have hmem : Action.drop a ∈ s.actions work := by
    rw [actions_eq]
    exact List.mem_append_right _ (List.mem_map_of_mem ha)
  exact drop_read hsound hmem

theorem resolveNamespace_idempotent (ctx : Context) (p : Path) (id : Identity) :
    (ctx.resolveNamespace p (ctx.resolveNamespace p id).1).1 = (ctx.resolveNamespace p id).1 := by
  rcases resolveNamespace_cases ctx p id with ⟨hsame, -⟩ | ⟨ns, source, -, hns, heq⟩
  · rw [hsame, hsame]
  · rw [heq]
    have hset : String.ofList ns ≠ "" := by simpa using hns
    simp [Context.resolveNamespace, Context.resolveNamespaceIn, hset]

theorem drop_carried_once (hs : s = newWriteBatch tools lookup scope folder policy pruneMode)
    (ha : a ∈ s.drops work) :
    ((s.contentByPath.lookup a.file).getD []).countP (carries a.file a.identity) ≤ 1 := by
  obtain ⟨dm, hdm, hfree, hfile, hid⟩ : ∃ dm ∈ s.store.documents,
      s.store.collided dm.identity = false ∧ dm.file = a.file ∧ dm.identity = a.identity := by
    cases work with
    | events events => cases ha
    | resync desired inScope =>
      obtain ⟨dm, hdm, hplan⟩ := List.mem_filterMap.mp ha
      obtain ⟨hfree, -, -, rfl⟩ := ManifestStore.planGitOnly_eq_some hplan
      exact ⟨dm, hdm, hfree, rfl, rfl⟩
  rw [← hfile, ← hid]
  cases hread : s.contentByPath.lookup dm.file with
  | none => simp
  | some c =>
    rw [Option.getD_some]
    -- every document that carries the identity is the one the store has under it
    have hwins : ∀ x ∈ c.zipIdx, carries dm.file dm.identity x.1 = true →
        ∃ w, s.store.byManifestIdentity dm.identity = some w ∧ w.index = x.2 := by
      subst hs
      obtain ⟨f, r₀, hread₀, hr₀, hmanage, hdm₀⟩ := mem_documents.mp hdm
      have hpath : f.path = dm.file := by
        rw [← hdm₀]
        exact (path_of_mem_indexOneFile hr₀).symm
      rintro ⟨d, i⟩ hx hcarry
      obtain ⟨r, hr, hedit, hrid⟩ := exists_record_of_carries hcarry
      generalize hdm' : (scanContext tools lookup scope folder).materialize
        { r with location := ⟨dm.file, i⟩ } = dm'
      have hmem : dm' ∈ (newWriteBatch tools lookup scope folder policy pruneMode).store.documents := by
        refine mem_documents.mpr ⟨⟨dm.file, c⟩, _, hread, ?_, hpath ▸ hmanage, hdm'⟩
        exact mem_indexOneFile.mpr ⟨d, i, hx, r, hr, rfl⟩
      have hsame : dm'.identity = dm.identity := by
        have heffect : dm.identity =
            ((scanContext tools lookup scope folder).resolveNamespace dm.file r₀.identity).1 := by
          rw [← hdm₀]
          rfl
        rw [← hdm']
        show ((scanContext tools lookup scope folder).resolveNamespace dm.file r.identity).1 = _
        rw [hrid, heffect, resolveNamespace_idempotent]
      have hclaim : dm'.claimsIdentity = true := by
        rw [← hdm']
        simp only [DocumentModel.claimsIdentity, Context.materialize, causeFor, hedit]
        cases r.encrypted <;> rfl
      refine ⟨dm', ?_, by rw [← hdm']; rfl⟩
      rw [← hsame]
      refine ManifestStore.winner_of_not_isDuplicate hclaim ?_
      have hnot := List.any_eq_false.mp hfree dm' hmem
      simpa [hsame] using hnot
    have hcount : c.countP (carries dm.file dm.identity) =
        (c.zipIdx.filter (fun x => carries dm.file dm.identity x.1)).length := by
      rw [← List.countP_eq_length_filter]
      conv_lhs => rw [← List.zipIdx_map_fst 0 c]
      rw [List.countP_map]
      rfl
    rw [hcount]
    have hplaces := (List.nodup_zipIdx_map_snd c).sublist
      (List.Sublist.map Prod.snd (List.filter_sublist (p := fun x : Document × Nat =>
        carries dm.file dm.identity x.1)))
    cases hw : s.store.byManifestIdentity dm.identity with
    | none =>
      rw [List.filter_eq_nil_iff.mpr ?_]
      · simp
      · intro x hx hcarry
        obtain ⟨w, hsome, -⟩ := hwins x hx hcarry
        rw [hw] at hsome
        cases hsome
    | some w =>
      have hall : ∀ i ∈ (c.zipIdx.filter (fun x => carries dm.file dm.identity x.1)).map Prod.snd,
          i = w.index := by
        intro i hi
        obtain ⟨x, hx, rfl⟩ := List.mem_map.mp hi
        obtain ⟨hmem, hcarry⟩ := List.mem_filter.mp hx
        obtain ⟨w', hsome, hindex⟩ := hwins x hmem hcarry
        rw [hw, Option.some.injEq] at hsome
        rw [hsome, hindex]
      rw [List.eq_replicate_of_mem hall, List.nodup_replicate, List.length_map] at hplaces
      exact hplaces

/-- The names of the versions the cluster has served are among those of the catalog. -/
def Within (lookup catalog : Lookup) : Prop :=
  catalog.ready = true ∧ (lookup.ready = true → ∀ apiVersion kind record,
    lookup.byGVK apiVersion kind = some record → record.followable = true →
      catalog.byGVK apiVersion kind = some record)

variable {folder' : Folder}

/-- With the folder as planned, a document that was read keeps its identity or has none that lasts. -/
def KeptIn (tools : Tools) (scope : Scope) (catalog : Lookup) (folder : Folder) (s : Setting)
    (work : Setting.Work) (planned : Folder) : Prop :=
  ∀ f ∈ (scope.scan tools.nameMatch folder).yamlFiles, ∀ d ∈ f.content,
    lastingAt tools catalog scope planned (s.drops work) f.path d = none ∨
    lastingAt tools catalog scope planned (s.drops work) f.path d =
      durableAt tools catalog scope folder f.path d
  deriving Decidable

/-- With the folder as planned, every event finds the document of its object. -/
def FindsIn (tools : Tools) (scope : Scope) (catalog : Lookup) (s : Setting) (work : Setting.Work)
    (planned : Folder) : Prop :=
  Throughout s.act (FindsItsOwn s (lastingAt tools catalog scope planned (s.drops work)) (s.drops work))
    {} ((Setting.upserts work).map .event)
  deriving Decidable

theorem held_init (hs : s = newWriteBatch tools lookup scope folder policy pruneMode)
    (hone : OneDocument (managed tools catalog scope folder))
    (hkept : KeptIn tools scope catalog folder s work folder') :
    Held s (lastingAt tools catalog scope folder' (s.drops work)) (s.drops work) ∅ (s.current {}) where
  sole := by
    intro k
    refine (oneDocument_iff.mp hone k).mono (fun p => ?_)
    rw [current_empty]
    cases hread : s.contentByPath.lookup p with
    | none => simp
    | some c =>
      rw [yaml_of_contentByPath hs hread, Option.getD_some]
      refine List.countP_mono_left (fun d hd hk => ?_)
      have hfile : (⟨p, c⟩ : FileContent) ∈ (scope.scan tools.nameMatch folder).yamlFiles :=
        (mem_yamlFiles_iff hs).mpr hread
      rw [decide_eq_true_eq] at hk ⊢
      rcases hkept ⟨p, c⟩ hfile d hd with hnone | hsame
      · rw [hnone] at hk
        cases hk
      · exact hsame ▸ hk
  once := fun a ha => drop_carried_once hs ha
  bundled := fun p ms hms => by simp at hms

/-- The sweep takes what it finds by the bytes, so that what is left lasts. -/
theorem countP_dropAll
    (honce : ∀ a ∈ drops, ((s.current b₁ a.file).getD []).countP (carries a.file a.identity) ≤ 1) :
    ((s.current (s.dropAll b₁ drops) p).getD []).countP
        (fun d => durableAt tools catalog scope folder' p d = some k) =
      ((s.current b₁ p).getD []).countP
        (fun d => lastingAt tools catalog scope folder' drops p d = some k) := by
  -- a blank document has no identity
  have hdecode : ∀ {holds : Document → Bool} (_ : OfRecord p holds) (content : Content),
      (decoded content).countP holds = content.countP holds := by
    intro holds hof content
    rw [decoded, List.countP_filter]
    refine List.countP_congr (fun d _ => ?_)
    cases hd : holds d with
    | false => simp
    | true =>
      have hblank : d.isBlank = false := by
        cases d with
        | blank text => exact absurd rfl (hof.recorded _ hd)
        | comment text | invalid error text | node n => rfl
      simp [hblank]
  rw [← hdecode (ofRecord_durableAt tools catalog scope folder' p k),
    ← hdecode (ofRecord_lastingAt tools catalog scope folder' drops p k)]
  have hsweep := documentsAt_dropAll (s := s) (b := b₁) drops p
  simp only [Setting.documentsAt] at hsweep
  rw [hsweep, eraseEach_eq_filter, List.countP_filter]
  · refine List.countP_congr (fun d _ => ?_)
    have hsought : (sought drops p).all (fun q => !q d) = !swept drops p d := by
      simp only [sought, swept, List.all_map, List.all_filter]
      rw [List.not_any_eq_all_not]
      refine List.all_congr rfl (fun a => ?_)
      simp
    rw [hsought, lastingAt]
    cases swept drops p d <;> simp
  · intro q hq
    obtain ⟨a, ha, rfl⟩ := List.mem_map.mp hq
    obtain ⟨hmem, hfile⟩ := List.mem_filter.mp ha
    obtain rfl : a.file = p := of_decide_eq_true hfile
    rw [hdecode (ofRecord_carries a.file a.identity)]
    exact honce a hmem

/-- The condition on one flush, for the batch it plans: no document of the folder takes up an identity
    it did not have, and the events find their own. -/
structure KeepsIdentities (tools : Tools) (scope : Scope) (catalog : Lookup) (folder : Folder)
    (r : Request) : Prop where
  same : r.tools = tools ∧ r.scope = scope
  kept : ∀ b ∈ (r.setting folder).plan r.work,
    KeptIn tools scope catalog folder (r.setting folder) r.work ((r.setting folder).plannedFolder b folder)
  finds : ∀ b ∈ (r.setting folder).plan r.work,
    FindsIn tools scope catalog (r.setting folder) r.work ((r.setting folder).plannedFolder b folder)

section

variable (hs : s = newWriteBatch tools lookup scope folder policy pruneMode)

include hs

theorem held_perform (hfind : FindsIn tools scope catalog s work folder')
    (hinit : Held s (lastingAt tools catalog scope folder' (s.drops work)) (s.drops work) ∅
      (s.current {}))
    (h : ((Setting.upserts work).map Action.event).foldlM s.act {} = .ok b₁) :
    Held s (lastingAt tools catalog scope folder' (s.drops work)) (s.drops work) b₁.coldBundles
      (s.current b₁) := by
  have hsound : StoreSound s := hs ▸ newWriteBatch_sound
  refine Throughout.invariant (P := fun b => Held s
    (lastingAt tools catalog scope folder' (s.drops work)) (s.drops work) b.coldBundles
    (s.current b)) ?_ hfind hinit h
  intro b b' a ha hok hact hheld
  obtain ⟨e, -, rfl⟩ := List.mem_map.mp ha
  refine hheld.effect (ofRecord_lastingAt tools catalog scope folder' (s.drops work)) hsound
    (drops_read hsound) hok ?_
  exact act_effect hsound (fun d hd => by cases hd) hact

theorem oneDocument_worktree (hfolder : folder' = s.worktree work folder)
    (hone : OneDocument (managed tools catalog scope folder))
    (hkept : ∀ b ∈ s.plan work, KeptIn tools scope catalog folder s work (s.plannedFolder b folder))
    (hfinds : ∀ b ∈ s.plan work, FindsIn tools scope catalog s work (s.plannedFolder b folder)) :
    OneDocument (managed tools catalog scope folder') := by
  rcases worktree_cases s work folder with hsame | ⟨b, hperform, hflush⟩
  · rw [hfolder, hsame]
    exact hone
  · rw [← hfolder] at hflush
    have hplan := mem_plan_iff.mpr ⟨hperform, (flush_ok hflush).1⟩
    have hkept := hkept b hplan
    have hfinds := hfinds b hplan
    rw [← eq_plannedFolder hflush] at hkept hfinds
    obtain ⟨b₁, hup, rfl⟩ := perform_split hperform
    have hheld := held_perform hs hfinds (held_init hs hone hkept) hup
    refine oneDocument_iff.mpr (fun k => (hheld.sole k).mono (fun p => ?_))
    rw [← countP_dropAll hheld.once]
    by_cases hread : scope.reads tools.nameMatch folder' p = true
    · -- a path the scan reads holds what the batch says
      have hres := lookup_rescan (p := p) hs hflush rfl
      rw [lookup_contentByPath, if_pos hread] at hres
      obtain ⟨-, hsymlink, -, hignore, -⟩ := flush_ok hflush
      have hread' : scope.reads tools.nameMatch folder p = true := by
        rw [← hread]
        simp only [Scope.reads, readsSpec_congr hsymlink hignore]
      rw [if_pos hread'] at hres
      rw [hres]
    · simp [durableAt, hread]

end

theorem oneDocument_flushed (hok : KeepsIdentities tools scope catalog folder r)
    (hone : OneDocument (managed tools catalog scope folder)) :
    OneDocument (managed tools catalog scope (flushed folder r)) := by
  obtain ⟨rfl, rfl⟩ := hok.same
  exact oneDocument_worktree (s := r.setting folder) rfl rfl hone hok.kept hok.finds

/-! ### What is served of a catalog -/

/-- A type that is served is one of the catalog, so that its documents have the same resource. -/
theorem resource_of_within (ctx : Context)
    (hwithin : Within ctx.lookup catalog) (h : (ctx.materialize r).resource = some res) :
    (({ ctx with lookup := catalog } : Context).materialize r).resource = some res := by
  obtain ⟨hready, hserve⟩ := hwithin
  simp only [Context.materialize] at h ⊢
  -- the effective identity has the apiVersion and the kind of the document
  have hkind : ∀ id : Identity, (ctx.resolveNamespace r.location.path id).1.apiVersion = id.apiVersion ∧
      (ctx.resolveNamespace r.location.path id).1.kind = id.kind := by
    intro id
    rcases resolveNamespace_cases ctx r.location.path id with ⟨hsame, -⟩ | ⟨ns, source, -, -, heq⟩
    · rw [hsame]
      exact ⟨rfl, rfl⟩
    · rw [heq]
      exact ⟨rfl, rfl⟩
  obtain ⟨hversion, hkind⟩ := hkind r.identity
  have hfound : ctx.lookup.ready = true ∧ ∃ record,
      ctx.lookup.byGVK r.identity.apiVersion r.identity.kind = some record ∧
      record.followable = true := by
    unfold Context.resolveMapping at h
    split_ifs at h with hunready
    rw [hversion, hkind] at h
    split at h
    · cases h
    · rename_i record hrec
      split_ifs at h with hunfollowable <;>
        exact ⟨by simpa using hunready, record, hrec, by simpa using hunfollowable⟩
  obtain ⟨hlive, record, hrec, hfollow⟩ := hfound
  have hcatalog := hserve hlive _ _ record hrec hfollow
  have hnamespace : ({ ctx with lookup := catalog } : Context).resolveNamespace r.location.path
      r.identity = ctx.resolveNamespace r.location.path r.identity := by
    simp only [Context.resolveNamespace, Context.resolveNamespaceIn, hready, hlive, hcatalog, hrec]
    rfl
  rw [hnamespace]
  unfold Context.resolveMapping at h ⊢
  rw [hversion, hkind] at h ⊢
  simpa only [hready, hlive, hcatalog, hrec] using h

theorem durableAt_of_within (hwithin : Within lookup catalog)
    (h : durableAt tools lookup scope folder p d = some k) :
    durableAt tools catalog scope folder p d = some k := by
  simp only [durableAt, documentResource] at h ⊢
  have hmanage : (scanContext tools catalog scope folder).manages p =
      (scanContext tools lookup scope folder).manages p := rfl
  rw [hmanage]
  split_ifs at h ⊢ with hread
  cases hr : (indexDocument p 0 d).1.head? with
  | none => simp [hr] at h
  | some r =>
    rw [hr, Option.bind_some] at h
    obtain ⟨res, hres, rfl⟩ := Option.map_eq_some_iff.mp h
    have hcatalog : ((scanContext tools catalog scope folder).materialize r).resource = some res :=
      resource_of_within (scanContext tools lookup scope folder) hwithin hres
    rw [Option.bind_some, hcatalog]
    rfl

theorem OneDocument.within (h : OneDocument (managed tools catalog scope folder))
    (hwithin : Within lookup catalog) : OneDocument (managed tools lookup scope folder) := by
  refine oneDocument_iff.mpr (fun k => (oneDocument_iff.mp h k).mono (fun p => ?_))
  refine List.countP_mono_left (fun d _ hk => ?_)
  rw [decide_eq_true_eq] at hk ⊢
  exact durableAt_of_within hwithin hk

end Flushes

/-! ## 6. Runs -/

/-- Every flush of a run leaves one document for each object, whatever of the catalog is served, if
    the events find the documents of their objects. -/
theorem runs_keep_one_document {tools : Tools} {scope : Scope} {catalog : Lookup} {folder : Folder}
    {requests : List Request} (hone : OneDocument (managed tools catalog scope folder))
    (hrun : AllSteps flushed (KeepsIdentities tools scope catalog) folder requests) :
    AllSteps flushed (fun folder r => ∀ lookup, Within lookup catalog →
      OneDocument (managed tools lookup scope (flushed folder r))) folder requests :=
  hrun.mono (P := fun folder => OneDocument (managed tools catalog scope folder))
    (fun _ _ hok hone => oneDocument_flushed hok hone)
    (fun _ _ hok hone _ hwithin => (oneDocument_flushed hok hone).within hwithin) hone

def deploymentLookup : Lookup where
  ready := true
  byGVK := fun apiVersion kind =>
    if apiVersion = "apps/v1beta1" ∧ kind = "Deployment" then
      some ⟨⟨"apps", "v1beta1", "deployments"⟩, true, true⟩
    else if apiVersion = "apps/v1" ∧ kind = "Deployment" then
      some ⟨⟨"apps", "v1", "deployments"⟩, true, true⟩
    else none

def deployment (version : String) : Object := ⟨"apps", version, "Deployment", "prod", "api", ""⟩

def deploymentId (version : String) : ResourceIdentifier :=
  ⟨"apps", version, "deployments", "prod", "api"⟩

def deploymentDocument (apiVersion : String) : Document :=
  .node { identity := ⟨apiVersion, "Deployment", "prod", "api"⟩ }

def deploymentPath : Path := "prod/apps/deployments/api.yaml".toList

def upsertDeployment (version : String) : Request where
  tools := literalTools
  lookup := deploymentLookup
  work := .events [{ identifier := deploymentId version, object := some (deployment version) }]

def resyncDeployment (version : String) : Request where
  tools := literalTools
  lookup := deploymentLookup
  pruneMode := .always
  work := .resync [⟨deploymentId version, some (deployment version)⟩] (fun _ => true)

-- The document of `v1beta1` is not found by `apps/v1`; the canonical path is the same, so that the
-- new document goes to the end of its file.
theorem version_bump_adds_document : OneDocument (managed literalTools deploymentLookup {} {}) ∧
      ((upsertDeployment "v1").setting (flushed {} (upsertDeployment "v1beta1"))).store.Accepted ∧
      (flushed (flushed {} (upsertDeployment "v1beta1")) (upsertDeployment "v1")).yaml.lookup
          deploymentPath =
        some [deploymentDocument "apps/v1beta1", deploymentDocument "apps/v1"] ∧
      ¬ AllSteps flushed (fun folder r => ∀ lookup, Within lookup deploymentLookup →
        OneDocument (managed literalTools lookup {} (flushed folder r))) {}
        [upsertDeployment "v1beta1", upsertDeployment "v1"] := by
  refine ⟨fun k => Nat.zero_le 1, by decide, by decide, fun hall => ?_⟩
  have hone := hall.2.1 deploymentLookup ⟨rfl, fun _ _ _ _ h _ => h⟩
    ⟨"apps", "deployments", "prod", "api"⟩
  revert hone
  decide

theorem swept_bump_keeps_one_document :
    (flushed (flushed {} (upsertDeployment "v1beta1")) (resyncDeployment "v1")).yaml.lookup
        deploymentPath = some [deploymentDocument "apps/v1"] ∧
      AllSteps flushed (fun folder r => ∀ lookup, Within lookup deploymentLookup →
        OneDocument (managed literalTools lookup {} (flushed folder r))) {}
        [upsertDeployment "v1beta1", resyncDeployment "v1"] := by
  refine ⟨by decide, runs_keep_one_document (fun k => Nat.zero_le 1) ⟨?_, ?_, trivial⟩⟩
  · exact ⟨⟨rfl, rfl⟩, by decide, by decide⟩
  · exact ⟨⟨rfl, rfl⟩, by decide, by decide⟩

end GitopsReverser.Flush
