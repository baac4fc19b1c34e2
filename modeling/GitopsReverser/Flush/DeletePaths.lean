import GitopsReverser.Flush.Scope

/-!
# DeletePaths — the same document deleted by an event and by a sweep

An event looks the document up by the identity of its bytes, removes the entries of a file it
empties, asks the render oracle, and authors a patch for a document outside spec.path. A sweep
looks up the effective identity and removes the document. What each of them writes is read off the
folder before the flush; the theorem says when the two come out alike.
-/

namespace GitopsReverser.Flush

open Reasoning Manifest
open Git (Path PruneMode)
open Setting (DeleteTarget rawManifestID)

/-! ## 1. Finding the document -/

theorem rawManifestID_materialize (ctx : Context) (r : DocumentRecord) :
    rawManifestID (ctx.materialize r).identity (ctx.materialize r) = r.identity := by
  unfold rawManifestID
  rcases resolveNamespace_cases ctx r.location.path r.identity with ⟨hsame, hsource⟩ |
    ⟨ns, source, hempty, -, heq⟩
  · rw [if_neg (fun h => ?_)]
    · exact hsame
    · obtain ⟨source, hkust⟩ := DocumentModel.namespaceInherited_iff.mp h
      exact hsource source hkust
  · -- the namespace was empty before it was filled in
    have hinherit : (ctx.materialize r).namespaceInherited = true :=
      DocumentModel.namespaceInherited_iff.mpr ⟨source, congrArg Prod.snd heq⟩
    rw [if_pos hinherit]
    simp [Context.materialize, heq, ← hempty]

theorem editable_of_claimsIdentity {ctx : Context} {f : FileContent} {r : DocumentRecord}
    (hr : r ∈ (indexOneFile f).1) (h : (ctx.materialize r).claimsIdentity = true) :
    r.editable = true := by
  have hencrypted : r.encrypted = true → r.editable = true := by
    obtain ⟨d, i, -, r₀, hr₀, rfl⟩ := mem_indexOneFile.mp hr
    have hraw : r₀.encrypted = true → r₀.editable = true :=
      editable_of_encrypted (List.mem_of_mem_head? hr₀)
    exact hraw
  simp only [DocumentModel.claimsIdentity, Context.materialize, causeFor] at h
  cases hedit : r.editable with
  | true => rfl
  | false =>
    have hencrypt : r.encrypted = false := by
      by_contra hencrypt
      rw [hencrypted (by simpa using hencrypt)] at hedit
      cases hedit
    simp [hencrypt, hedit] at h

section Lookup

variable {tools : Tools} {lookup : Lookup} {scope : Scope} {folder : Folder}
  {policy : Option PlacementPolicy} {pruneMode : PruneMode} {s : Setting} {d : DocumentModel}
  {cur : Content}

section

variable (hs : s = newWriteBatch tools lookup scope folder policy pruneMode)

include hs

theorem exists_index_of_raw (hd : d ∈ s.store.documents) (hclaim : d.claimsIdentity = true)
    (hcur : s.contentByPath.lookup d.file = some cur) :
    ∃ i, currentDocIndex d.file cur (rawManifestID d.identity d) = some i := by
  subst hs
  obtain ⟨f, r, hread, hr, -, rfl⟩ := mem_documents.mp hd
  have hedit := editable_of_claimsIdentity hr hclaim
  have hpath : ((scanContext tools lookup scope folder).materialize r).file = f.path :=
    path_of_mem_indexOneFile hr
  rw [hpath, hread, Option.some.injEq] at hcur
  subst hcur
  rw [rawManifestID_materialize, hpath, currentDocIndex_eq]
  obtain ⟨doc, i, hdoc, r₀, hr₀, rfl⟩ := mem_indexOneFile.mp hr
  have hcarry : carries f.path r₀.identity doc = true :=
    List.any_eq_true.mpr ⟨r₀, List.mem_of_mem_head? hr₀, by simpa using hedit⟩
  cases hfound : f.content.findIdx? (carries f.path r₀.identity) with
  | some j => exact ⟨j, rfl⟩
  | none =>
    have hmem := List.mem_of_getElem? (List.mem_zipIdx_iff_getElem?.mp hdoc)
    rw [List.findIdx?_eq_none_iff.mp hfound doc hmem] at hcarry
    cases hcarry

/-- The sweep does not find a document that inherits its namespace: the one it would find has the
    same effective identity, and the folder would not have been accepted. -/
theorem no_index_of_inherited
    (haccept : s.store.Accepted) (hd : d ∈ s.store.documents) (hclaim : d.claimsIdentity = true)
    (hinherit : d.namespaceInherited = true) (hcur : s.contentByPath.lookup d.file = some cur) :
    currentDocIndex d.file cur d.identity = none := by
  subst hs
  obtain ⟨f, r, hread, hr, hmanage, rfl⟩ := mem_documents.mp hd
  have hpath : ((scanContext tools lookup scope folder).materialize r).file = f.path :=
    path_of_mem_indexOneFile hr
  rw [hpath, hread, Option.some.injEq] at hcur
  subst hcur
  rw [hpath, currentDocIndex_eq, List.findIdx?_eq_none_iff]
  intro doc hdoc
  by_contra hcarry
  obtain ⟨r₁, hr₁, hedit, hid⟩ := exists_record_of_carries (by simpa using hcarry)
  obtain ⟨j, hj⟩ := List.mem_iff_getElem?.mp hdoc
  have hother : (⟨r₁.identity, ⟨f.path, j⟩, r₁.editable, r₁.reason, r₁.encrypted⟩ : DocumentRecord) ∈
      (indexOneFile f).1 :=
    mem_indexOneFile.mpr ⟨doc, j, List.mem_zipIdx_iff_getElem?.mpr hj, r₁, hr₁, rfl⟩
  -- the namespace it states is the one the other inherits
  obtain ⟨source, hsource⟩ := DocumentModel.namespaceInherited_iff.mp hinherit
  rcases resolveNamespace_cases (scanContext tools lookup scope folder) r.location.path r.identity with
    ⟨-, hnone⟩ | ⟨ns, source', -, hns, heq⟩
  · exact hnone source hsource
  · have hstated : r₁.identity = { r.identity with ns := String.ofList ns } :=
      hid.trans (congrArg Prod.fst heq)
    rcases resolveNamespace_cases (scanContext tools lookup scope folder) f.path r₁.identity with
      ⟨hsame, hexplicit⟩ | ⟨_, _, hempty, _⟩
    · have hsingle := haccept.unique hd (mem_documents.mpr ⟨f, _, hread, hother, hmanage, rfl⟩) hclaim ?_ ?_
      · rw [hsingle] at hsource
        exact hexplicit source hsource
      · simp only [DocumentModel.claimsIdentity, Context.materialize, causeFor, hedit]
        cases r₁.encrypted <;> rfl
      · exact hid.symm.trans hsame.symm
    · rw [hstated] at hempty
      simp [hns] at hempty

end

end Lookup

/-! ## 2. Removing the entries of an emptied file -/

def entryCount (content : Content) : Nat :=
  ((decoded content).map (fun
    | .node n => ((n.kustomization.bind KustomizationFile.resources).getD []).length
    | _ => 0)).sum

theorem entryCount_lt_of_removeResource {entry : Path} {content edited : Content}
    (h : editKustomization (removeResource entry) content = some edited) :
    entryCount edited < entryCount content := by
  obtain ⟨n, k, k', hcontent, hk, hremove, hedit⟩ := decoded_editKustomization h
  unfold removeResource at hremove
  split at hremove
  · cases hremove
  · rename_i rs hrs
    split_ifs at hremove with hany
    cases hremove
    obtain ⟨r, hr, hmatch⟩ := List.any_eq_true.mp hany
    simp only [entryCount, hcontent, hedit, hk, hrs, List.map_cons, List.map_nil, List.sum_singleton,
      Option.bind_some, Option.getD_some]
    exact List.length_filter_lt_length_iff_exists.mpr ⟨r, hr, by simpa using hmatch⟩

section Entries

variable {s : Setting} {b : Batch} {p q : Path}

theorem current_editKustomizationAt (edit : KustomizationFile → Option KustomizationFile) :
    s.current (s.editKustomizationAt b p edit).1 q =
      if q = p then ((s.current b p).bind (editKustomization edit)).or (s.current b p)
      else s.current b q := by
  unfold Setting.editKustomizationAt
  cases (s.current b p).bind (editKustomization edit) with
  | none =>
    by_cases hq : q = p
    · subst hq
      simp [Batch.put]
    · simp [Batch.put, hq]
  | some c => simp [Batch.put]

theorem editKustomizationAt_of_none {edit : KustomizationFile → Option KustomizationFile}
    (h : (s.current b p).bind (editKustomization edit) = none) :
    (s.editKustomizationAt b p edit).1 = b := by
  rw [Setting.editKustomizationAt, h]
  rfl

def Setting.removeEntries (s : Setting) (b : Batch) (listings : List (Path × Path)) : Batch :=
  listings.foldl (fun b listing => (s.editKustomizationAt b listing.1 (removeResource listing.2)).1) b

theorem entryCount_removeEntries (listings : List (Path × Path)) {c : Content}
    (h : s.current b p = some c) :
    ∃ c', s.current (s.removeEntries b listings) p = some c' ∧ entryCount c' ≤ entryCount c := by
  induction listings generalizing b c with
  | nil => exact ⟨c, h, le_rfl⟩
  | cons l listings ih =>
    obtain ⟨c₁, hc₁, hle⟩ : ∃ c₁, s.current (s.editKustomizationAt b l.1
        (removeResource l.2)).1 p = some c₁ ∧ entryCount c₁ ≤ entryCount c := by
      rw [current_editKustomizationAt]
      by_cases hp : p = l.1
      · subst hp
        rw [if_pos rfl, h, Option.bind_some]
        cases hedit : editKustomization (removeResource l.2) c with
        | none => exact ⟨c, rfl, le_rfl⟩
        | some c₁ => exact ⟨c₁, rfl, (entryCount_lt_of_removeResource hedit).le⟩
      · rw [if_neg hp]
        exact ⟨c, h, le_rfl⟩
    obtain ⟨c', hc', hle'⟩ := ih hc₁
    exact ⟨c', hc', hle'.trans hle⟩

theorem removeEntries_changes_iff (listings : List (Path × Path)) :
    s.current (s.removeEntries b listings) p ≠ s.current b p ↔ ∃ entry, (p, entry) ∈ listings ∧
      (s.current b p).bind (editKustomization (removeResource entry)) ≠ none := by
  induction listings generalizing b with
  | nil => simp [Setting.removeEntries]
  | cons l listings ih =>
    obtain ⟨at_, entry⟩ := l
    rw [Setting.removeEntries, List.foldl_cons, ← Setting.removeEntries]
    by_cases hp : p = at_
    · subst hp
      cases hedit : (s.current b p).bind (editKustomization (removeResource entry)) with
      | none =>
        rw [editKustomizationAt_of_none hedit, ih]
        refine exists_congr (fun other => ?_)
        rw [List.mem_cons, Prod.mk.injEq]
        refine and_congr_left (fun hne => ⟨.inr, fun h => h.resolve_left ?_⟩)
        rintro ⟨-, rfl⟩
        exact hne hedit
      | some c₁ =>
        -- entries only get fewer
        obtain ⟨c, hc, hlt⟩ := Option.bind_eq_some_iff.mp hedit
        have hfirst : s.current (s.editKustomizationAt b p (removeResource entry)).1 p = some c₁ := by
          rw [current_editKustomizationAt, if_pos rfl, hedit, Option.some_or]
        obtain ⟨c', hc', hle⟩ := entryCount_removeEntries listings hfirst
        refine iff_of_true (fun hsame => ?_) ⟨entry, by simp, by simp [hedit]⟩
        have hback := hc'.symm.trans (hsame.trans hc)
        rw [Option.some.injEq] at hback
        subst hback
        exact absurd (hle.trans_lt (entryCount_lt_of_removeResource hlt)) (lt_irrefl _)
    · have hkeep : s.current (s.editKustomizationAt b at_ (removeResource entry)).1 p =
          s.current b p := by
        rw [current_editKustomizationAt, if_neg hp]
      rw [← hkeep, ih]
      simp [hp]

end Entries

/-! ## 3. The batch of the event and the batch of the sweep -/

section Batches

variable {s : Setting} {t : DeleteTarget} {cur : Content} {i : Nat}

theorem deleteDocument_ne (h : i < cur.length) : deleteDocument cur i ≠ some cur := by
  unfold deleteDocument
  dsimp only
  split
  · simp
  · intro heq
    have hlen := congrArg List.length (Option.some.inj heq)
    rw [List.length_eraseIdx_of_lt h] at hlen
    omega

theorem deleteAt_current (s : Setting) (t : DeleteTarget) (cur : Content) (i : Nat) :
    ∃ b : Batch, (∀ q, s.current b q =
        if q = t.file then deleteDocument cur i else s.contentByPath.lookup q) ∧
      ∀ q, s.current (s.deleteAt {} t cur i) q = s.current (if deleteDocument cur i = none then
          s.removeEntries b (s.kustomizationsListing t.file) else b) q := by
  unfold Setting.deleteAt
  dsimp only
  generalize hnote : ({ ({} : Batch).intend (Setting.removedIntent t) with
    putToKustomize := (({} : Batch).intend (Setting.removedIntent t)).putToKustomize ||
      decide (s.kustomizationsListing t.file ≠ []) } : Batch) = noted
  have hbuf : noted.buffers = ({} : Batch).buffers := by rw [← hnote]; simp
  refine ⟨noted.set t.file (deleteDocument cur i), fun q => ?_, fun q => ?_⟩
  · rw [current_set, current_congr hbuf, current_empty]
  · cases hdel : deleteDocument cur i with
    | some rest => simp
    | none => rfl

theorem current_deleteAt_file (cur : Content) (i : Nat)
    (hself : ∀ l ∈ s.kustomizationsListing t.file, l.1 ≠ t.file) :
    s.current (s.deleteAt {} t cur i) t.file = deleteDocument cur i := by
  obtain ⟨b, hb, hcur⟩ := deleteAt_current s t cur i
  rw [hcur]
  split_ifs
  · have hkeep := (removeEntries_changes_iff (s := s) (b := b) (p := t.file)
      (s.kustomizationsListing t.file)).not.mpr (fun ⟨entry, hl, _⟩ => hself _ hl rfl)
    rw [not_not.mp hkeep, hb, if_pos rfl]
  · rw [hb, if_pos rfl]

theorem deleteAt_changes_iff (cur : Content) (i : Nat) {q : Path} (hq : q ≠ t.file) :
    s.current (s.deleteAt {} t cur i) q ≠ s.contentByPath.lookup q ↔ deleteDocument cur i = none ∧
      ∃ entry, (q, entry) ∈ s.kustomizationsListing t.file ∧
        (s.contentByPath.lookup q).bind (editKustomization (removeResource entry)) ≠ none := by
  obtain ⟨b, hb, hcur⟩ := deleteAt_current s t cur i
  have hbefore : s.current b q = s.contentByPath.lookup q := by rw [hb, if_neg hq]
  rw [hcur, ← hbefore]
  by_cases hnone : deleteDocument cur i = none
  · rw [if_pos hnone, removeEntries_changes_iff]
    simp [hnone]
  · simp [hnone]

end Batches

/-! ## 4. The patch of an overlay -/

section Overlay

variable {s : Setting} {t : DeleteTarget} {authorInto q : Path}

def overlayContent (t : DeleteTarget) : Content := [Setting.inheritedDeletePatchDocument t.id]

/-- Another document stands where the patch would go. -/
def Setting.patchTaken (s : Setting) (t : DeleteTarget) (authorInto : Path) : Prop :=
  ∃ c ∈ s.contentByPath.lookup (Setting.inheritedDeletePatchPath authorInto t.id),
    c ≠ overlayContent t

/-- The patch is new, or the kustomization does not list it yet. -/
def Setting.authorsAt (s : Setting) (t : DeleteTarget) (authorInto q : Path) : Prop :=
  (q = Setting.inheritedDeletePatchPath authorInto t.id ∧ s.contentByPath.lookup q = none) ∨
    (q = authorInto ∧ (s.contentByPath.lookup q).bind
      (editKustomization (appendPatch (Setting.inheritedDeletePatchName t.id))) ≠ none)

theorem editKustomization_overlayContent (edit : KustomizationFile → Option KustomizationFile) :
    editKustomization edit (overlayContent t) = none := by rfl

theorem editKustomization_appendPatch_ne {name : Path} {content edited : Content}
    (h : editKustomization (appendPatch name) content = some edited) : edited ≠ content := by
  rintro rfl
  obtain ⟨n, k, k', hcontent, hk, hedit, hedited⟩ := decoded_editKustomization h
  have hsame : k' = k := by
    have hnode := hcontent.symm.trans hedited
    simp only [List.cons.injEq, Document.node.injEq, and_true] at hnode
    have hkust := congrArg Node.kustomization hnode
    rw [hk] at hkust
    exact (Option.some.inj hkust).symm
  unfold appendPatch at hedit
  split_ifs at hedit
  have hlength := congrArg (fun k => k.patches.length) (Option.some.inj hedit)
  simp [hsame] at hlength

theorem authorInheritedDelete_of_taken (h : s.patchTaken t authorInto) :
    s.authorInheritedDelete {} t authorInto = {} := by
  obtain ⟨c, hc, hne⟩ := h
  rw [Setting.authorInheritedDelete]
  simp only [current_empty, Option.mem_def.mp hc]
  rw [if_pos (by simpa [overlayContent] using hne)]

theorem patch_of_free (h : ¬ s.patchTaken t authorInto) :
    s.contentByPath.lookup (Setting.inheritedDeletePatchPath authorInto t.id) = none ∨
      s.contentByPath.lookup (Setting.inheritedDeletePatchPath authorInto t.id) =
        some (overlayContent t) := by
  cases hc : s.contentByPath.lookup (Setting.inheritedDeletePatchPath authorInto t.id) with
  | none => exact .inl rfl
  | some c => exact .inr (by rw [not_not.mp (fun hne => h ⟨c, hc, hne⟩)])

theorem current_authored (h : ¬ s.patchTaken t authorInto) :
    s.current (s.authorInheritedDelete {} t authorInto) q =
      if q = Setting.inheritedDeletePatchPath authorInto t.id then some (overlayContent t)
      else if q = authorInto then ((s.contentByPath.lookup q).bind (editKustomization
          (appendPatch (Setting.inheritedDeletePatchName t.id)))).or (s.contentByPath.lookup q)
      else s.contentByPath.lookup q := by
  unfold Setting.authorInheritedDelete
  dsimp only
  rw [if_neg (by rcases patch_of_free h with hfree | hfree <;> simp [hfree, overlayContent])]
  refine (current_congr (b := (s.editKustomizationAt (({} : Batch).set
    (Setting.inheritedDeletePatchPath authorInto t.id) (some (overlayContent t))) authorInto
    (appendPatch (Setting.inheritedDeletePatchName t.id))).1) (intend_buffers _)).trans ?_
  rw [current_editKustomizationAt]
  by_cases hq : q = authorInto
  · subst hq
    by_cases hpatch : q = Setting.inheritedDeletePatchPath q t.id
    · simp only [if_true, current_set, ← hpatch, Option.bind_some]
      rfl
    · simp [hpatch]
  · simp [hq, overlayContent]

theorem authored_changes_iff (h : ¬ s.patchTaken t authorInto) :
    s.current (s.authorInheritedDelete {} t authorInto) q ≠ s.contentByPath.lookup q ↔
      s.authorsAt t authorInto q := by
  rw [current_authored h]
  unfold Setting.authorsAt
  by_cases hpatch : q = Setting.inheritedDeletePatchPath authorInto t.id
  · -- a patch that stands there is no kustomization
    rw [if_pos hpatch]
    rcases patch_of_free h with hfree | hfree <;> rw [← hpatch] at hfree
    · simp [hfree, hpatch]
    · simp [hfree, editKustomization_overlayContent]
  · rw [if_neg hpatch]
    by_cases hq : q = authorInto
    · rw [if_pos hq]
      cases hedit : (s.contentByPath.lookup q).bind (editKustomization
          (appendPatch (Setting.inheritedDeletePatchName t.id))) with
      | none => simp [hpatch]
      | some edited =>
        obtain ⟨content, hcontent, hedited⟩ := Option.bind_eq_some_iff.mp hedit
        simp [hq, hcontent, editKustomization_appendPatch_ne hedited]
    · simp [hpatch, hq]

end Overlay

/-! ## 5. Outcomes -/

/-- The files after the work, or that it was refused. -/
def Setting.outcome (s : Setting) (folder : Folder) (work : Setting.Work) :
    Option (Path → Option Content) :=
  (s.run work folder).toOption.map (fun left p => left.yaml.lookup p)

/-- The preconditions a flush puts on every path it touches. -/
structure PathPermitted (s : Setting) (p : Path) : Prop where
  visible : s.store.ignore.matches s.tools.nameMatch (relUnder s.writeSubdir p) false = false
  inside : s.writePathEscapesScope p = false
  owned : (s.store.overridesAmbiguousAt p || s.store.reachedByMultipleRenderRoots p) = false

section Outcomes

variable {s : Setting} {folder : Folder} {b b' : Batch} {work work' : Setting.Work}

theorem renderPrecondition_nil_iff : s.renderPrecondition b = [] ↔ (b.putToKustomize = true →
    verifyBatchRenders s.tools.kustomize.render s.before (s.files b) b.intents = []) := by
  unfold Setting.renderPrecondition
  cases b.putToKustomize <;> simp

theorem permitted_iff : Permitted s b ↔
    (∀ p, s.current b p ≠ s.contentByPath.lookup p → PathPermitted s p) ∧
      s.renderPrecondition b = [] := by
  rw [renderPrecondition_nil_iff]
  constructor
  · rintro ⟨hvisible, hinside, howned, hvouched⟩
    exact ⟨fun p hp => ⟨hvisible p hp, hinside p hp, howned p hp⟩, hvouched⟩
  · rintro ⟨hpaths, hvouched⟩
    exact ⟨fun p hp => (hpaths p hp).visible, fun p hp => (hpaths p hp).inside,
      fun p hp => (hpaths p hp).owned, hvouched⟩

theorem outcome_eq (folder : Folder) (h : s.perform work = .ok b) :
    (Permitted s b ∧ s.outcome folder work = some (s.leaves b folder)) ∨
      (¬ Permitted s b ∧ s.outcome folder work = none) := by
  unfold Setting.outcome Setting.run
  simp only [h]
  cases hflush : s.flush b folder with
  | ok left =>
    obtain ⟨hpermitted, -, -, -, hleft⟩ := flush_ok hflush
    exact .inl ⟨hpermitted, congrArg some (funext hleft)⟩
  | error err =>
    refine .inr ⟨fun hpermitted => ?_, rfl⟩
    obtain ⟨left, hleft⟩ := flush_eq_ok_iff.mpr hpermitted
    rw [hflush] at hleft
    cases hleft

theorem outcome_eq_iff (h : s.perform work = .ok b) (h' : s.perform work' = .ok b') :
    s.outcome folder work = s.outcome folder work' ↔ (Permitted s b ↔ Permitted s b') ∧
      (Permitted s b → Permitted s b' → ∀ p, s.leaves b folder p = s.leaves b' folder p) := by
  rcases outcome_eq folder h with ⟨hb, hleft⟩ | ⟨hb, hleft⟩ <;>
    rcases outcome_eq folder h' with ⟨hb', hleft'⟩ | ⟨hb', hleft'⟩
  · simp only [hleft, hleft', hb, hb', Option.some.injEq, true_and, forall_const]
    exact funext_iff
  · simp [hleft, hleft', hb, hb']
  · simp [hleft, hleft', hb, hb']
  · simp [hleft, hleft', hb, hb']

end Outcomes

/-! ## 6. When the two come out alike -/

/-- What the file of the document holds without it. -/
def Setting.restOf (s : Setting) (d : DocumentModel) : Option Content :=
  (s.contentByPath.lookup d.file).bind (fun cur =>
    match currentDocIndex d.file cur (rawManifestID d.identity d) with
    | none => some cur
    | some i => deleteDocument cur i)

/-- The files an event that deletes `d` writes: in a folder of its own the file of the document and,
    when that file is emptied, the kustomizations with an entry for it; outside spec.path the patch
    and the kustomization it is listed in, unless the place of the patch is taken. -/
def Setting.eventWrites (s : Setting) (d : DocumentModel) (q : Path) : Prop :=
  match s.overlayAuthorKustomization d.file with
  | none => q = d.file ∨ (s.restOf d = none ∧ ∃ entry, (q, entry) ∈ s.kustomizationsListing d.file ∧
      (s.contentByPath.lookup q).bind (editKustomization (removeResource entry)) ≠ none)
  | some authorInto => ¬ s.patchTaken ⟨d.file, rawManifestID d.identity d⟩ authorInto ∧
      s.authorsAt ⟨d.file, rawManifestID d.identity d⟩ authorInto q

/-- The sweep writes the file of a document that states its namespace, and the event writes the same:
    no kustomization lists the emptied file. Of a document that inherits its namespace the sweep
    finds nothing, and the event writes nothing: the patch of the overlay stands there already. -/
def Setting.SameWrites (s : Setting) (folder : Folder) (d : DocumentModel) : Prop :=
  match s.overlayAuthorKustomization d.file with
  | none => d.namespaceInherited = false ∧ ∀ q, s.eventWrites d q → q = d.file
  | some _ => d.namespaceInherited = true ∧ ∀ q, s.eventWrites d q →
      folder.yaml.lookup q = some (overlayContent ⟨d.file, rawManifestID d.identity d⟩)

/-- Every file the event writes may be written and the oracle has nothing against its batch. -/
def Setting.EventMay (s : Setting) (e : Event) (d : DocumentModel) : Prop :=
  (∀ q, s.eventWrites d q → PathPermitted s q) ∧ s.renderPrecondition (s.applyDelete {} e) = []

def Setting.SweepMay (s : Setting) (b : Batch) (d : DocumentModel) : Prop :=
  (d.namespaceInherited = false → PathPermitted s d.file) ∧ s.renderPrecondition b = []

section Alike

variable {tools : Tools} {lookup : Lookup} {scope : Scope} {folder : Folder}
  {policy : Option PlacementPolicy} {pruneMode : PruneMode} {s : Setting} {d : DocumentModel}
  {e : Event} {cur : Content} {i : Nat} {b₁ : Batch}

theorem listing_ne_file (hs : s = newWriteBatch tools lookup scope folder policy pruneMode)
    (hd : d ∈ s.store.documents) : ∀ l ∈ s.kustomizationsListing d.file, l.1 ≠ d.file := by
  intro l hl heq
  obtain ⟨dir, -, hdir⟩ := List.mem_flatMap.mp hl
  split at hdir
  · cases hdir
  · rename_i info hinfo
    split_ifs at hdir
    · cases hdir
    · obtain ⟨entry, -, rfl⟩ := List.mem_map.mp hdir
      have hallows := (kusts_path hs hinfo).2
      rw [show info.path = d.file from heq, not_allows_of_document hs hd] at hallows
      cases hallows

theorem applyDelete_eq (hmode : s.pruneMode.orDefault.appliesEventDeletes = true)
    (hevent : s.resolveDelete e = some ⟨d.file, rawManifestID d.identity d⟩)
    (hcur : s.contentByPath.lookup d.file = some cur)
    (hindex : currentDocIndex d.file cur (rawManifestID d.identity d) = some i) :
    s.applyDelete {} e = match s.overlayAuthorKustomization d.file with
      | some authorInto => s.authorInheritedDelete {} ⟨d.file, rawManifestID d.identity d⟩ authorInto
      | none => s.deleteAt {} ⟨d.file, rawManifestID d.identity d⟩ cur i := by
  simp only [Setting.applyDelete, hmode, hevent, current_empty, hcur, hindex]
  rfl

theorem escapes_of_overlay {p authorInto : Path}
    (h : s.overlayAuthorKustomization p = some authorInto) : s.writePathEscapesScope p = true := by
  unfold Setting.overlayAuthorKustomization at h
  split_ifs at h with hinside
  obtain ⟨hsubdir, houtside⟩ := not_or.mp hinside
  simp [Setting.writePathEscapesScope, pathWithin_pathClean, hsubdir, houtside]

section

variable (hs : s = newWriteBatch tools lookup scope folder policy pruneMode)
  (hd : d ∈ s.store.documents) (hclaims : d.claimsIdentity = true)
  (hcur : s.contentByPath.lookup d.file = some cur)
  (hindex : currentDocIndex d.file cur (rawManifestID d.identity d) = some i)

include hcur hindex

theorem restOf_eq : s.restOf d = deleteDocument cur i := by
  simp [Setting.restOf, hcur, hindex]

theorem restOf_ne : s.restOf d ≠ some cur := by
  rw [restOf_eq hcur hindex]
  rw [currentDocIndex_eq] at hindex
  exact deleteDocument_ne (List.findIdx?_eq_some_iff_findIdx_eq.mp hindex).1

include hs hd in
theorem applyDelete_changes_iff (hmode : s.pruneMode.orDefault.appliesEventDeletes = true)
    (hevent : s.resolveDelete e = some ⟨d.file, rawManifestID d.identity d⟩) (q : Path) :
    s.current (s.applyDelete {} e) q ≠ s.contentByPath.lookup q ↔ s.eventWrites d q := by
  have hself := listing_ne_file hs hd
  rw [applyDelete_eq hmode hevent hcur hindex, Setting.eventWrites]
  cases hoverlay : s.overlayAuthorKustomization d.file with
  | none =>
    dsimp only
    by_cases hq : q = d.file
    · subst hq
      have hgone := current_deleteAt_file (t := ⟨d.file, rawManifestID d.identity d⟩) cur i hself
      dsimp only at hgone
      rw [hgone, hcur, ← restOf_eq hcur hindex]
      exact iff_of_true (restOf_ne hcur hindex) (.inl rfl)
    · have hiff := deleteAt_changes_iff (s := s)
        (t := ⟨d.file, rawManifestID d.identity d⟩) cur i hq
      rw [hiff, restOf_eq hcur hindex]
      simp [hq]
  | some authorInto =>
    dsimp only
    by_cases htaken : s.patchTaken ⟨d.file, rawManifestID d.identity d⟩ authorInto
    · simp [authorInheritedDelete_of_taken htaken, htaken]
    · rw [authored_changes_iff htaken]
      simp [htaken]

include hs hd hclaims in
theorem current_dropDocument (haccepted : s.store.Accepted)
    (hidle : ∀ p, s.current b₁ p = s.contentByPath.lookup p) (q : Path) :
    s.current (s.dropDocument b₁ d.file d.identity) q =
      if q = d.file ∧ d.namespaceInherited = false then s.restOf d else s.contentByPath.lookup q := by
  unfold Setting.dropDocument
  rw [hidle, hcur]
  dsimp only
  cases hinherited : d.namespaceInherited with
  | true =>
    rw [no_index_of_inherited hs haccepted hd hclaims hinherited hcur]
    simp [hidle]
  | false =>
    have hraw : rawManifestID d.identity d = d.identity := by simp [rawManifestID, hinherited]
    rw [restOf_eq hcur hindex]
    rw [hraw] at hindex
    rw [hindex]
    simp [hidle]

end

section

variable (hs : s = newWriteBatch tools lookup scope folder policy pruneMode)

include hs

/-- A file that was read and is written differs from what was there. -/
theorem leaves_ne_of_read {b : Batch} {q : Path}
    (hchanged : s.current b q ≠ s.contentByPath.lookup q)
    (hread : (s.contentByPath.lookup q).isSome = true) :
    s.leaves b folder q ≠ folder.yaml.lookup q := by
  obtain ⟨c, hc⟩ := Option.isSome_iff_exists.mp hread
  rw [leaves_of_changed hchanged, yaml_of_contentByPath hs hc, ← hc]
  exact hchanged

variable {b b' : Batch} (hwrites : ∀ q, s.current b q ≠ s.contentByPath.lookup q ↔ s.eventWrites d q)
  (hsweeps : ∀ q, s.current b' q =
    if q = d.file ∧ d.namespaceInherited = false then s.restOf d else s.contentByPath.lookup q)

include hwrites hsweeps

theorem leaves_eq_iff_of_own (hown : s.overlayAuthorKustomization d.file = none)
    (hread : (s.contentByPath.lookup d.file).isSome = true)
    (hfile : s.current b d.file = s.restOf d) :
    (∀ q, s.leaves b folder q = s.leaves b' folder q) ↔ s.SameWrites folder d := by
  have hself : s.eventWrites d d.file := by
    rw [Setting.eventWrites, hown]
    exact .inl rfl
  rw [Setting.SameWrites, hown]
  constructor
  · intro h
    have hexplicit : d.namespaceInherited = false := by
      by_contra hinherited
      have hidle : s.current b' d.file = s.contentByPath.lookup d.file := by
        rw [hsweeps, if_neg (fun hq => hinherited hq.2)]
      exact leaves_ne_of_read hs ((hwrites _).mpr hself) hread ((h _).trans (leaves_of_same hidle))
    refine ⟨hexplicit, fun q hq => ?_⟩
    by_contra hne
    have hidle : s.current b' q = s.contentByPath.lookup q := by
      rw [hsweeps, if_neg (fun hq => hne hq.1)]
    refine leaves_ne_of_read hs ((hwrites _).mpr hq) ?_ ((h _).trans (leaves_of_same hidle))
    rw [Setting.eventWrites, hown] at hq
    obtain ⟨-, entry, -, hedit⟩ := hq.resolve_left hne
    exact Option.isSome_iff_ne_none.mpr (fun hnone => hedit (by rw [hnone]; rfl))
  · rintro ⟨hexplicit, honly⟩ q
    have hsame : s.current b q = s.current b' q := by
      by_cases hq : q = d.file
      · rw [hq, hfile, hsweeps, if_pos ⟨rfl, hexplicit⟩]
      · rw [hsweeps, if_neg (fun h => hq h.1)]
        exact not_not.mp (fun hchanged => hq (honly q ((hwrites q).mp hchanged)))
    simp only [Setting.leaves, hsame]

theorem leaves_eq_iff_of_overlay {authorInto : Path}
    (hoverlay : s.overlayAuthorKustomization d.file = some authorInto)
    (hinherited : d.namespaceInherited = true)
    (hauthored : b = s.authorInheritedDelete {} ⟨d.file, rawManifestID d.identity d⟩ authorInto) :
    (∀ q, s.leaves b folder q = s.leaves b' folder q) ↔ s.SameWrites folder d := by
  have hidle : ∀ q, s.leaves b' folder q = folder.yaml.lookup q := by
    intro q
    refine leaves_of_same ?_
    rw [hsweeps, hinherited]
    simp
  -- what is written is the patch, or a kustomization that was read
  have hwritten : ∀ q, s.eventWrites d q →
      s.current b q = some (overlayContent ⟨d.file, rawManifestID d.identity d⟩) ∨
        ∃ c, s.contentByPath.lookup q = some c ∧
          c ≠ overlayContent ⟨d.file, rawManifestID d.identity d⟩ := by
    intro q hq
    rw [Setting.eventWrites, hoverlay] at hq
    obtain ⟨hfree, hq⟩ := hq
    rw [hauthored, current_authored hfree]
    by_cases hpatch : q = Setting.inheritedDeletePatchPath authorInto (rawManifestID d.identity d)
    · exact .inl (if_pos hpatch)
    · obtain ⟨-, hedit⟩ := hq.resolve_left (fun h => hpatch h.1)
      cases hc : s.contentByPath.lookup q with
      | none => exact absurd (by rw [hc]; rfl) hedit
      | some c =>
        refine .inr ⟨c, rfl, fun heq => hedit ?_⟩
        rw [hc, heq, Option.bind_some, editKustomization_overlayContent]
  rw [Setting.SameWrites, hoverlay]
  simp only [hidle, hinherited, true_and]
  constructor
  · intro h q hq
    rcases hwritten q hq with hpatch | ⟨c, hc, -⟩
    · rw [← h, leaves_of_changed ((hwrites q).mpr hq), hpatch]
    · exact absurd (h q) (leaves_ne_of_read hs ((hwrites q).mpr hq) (by rw [hc]; rfl))
  · intro h q
    by_cases hq : s.eventWrites d q
    · rcases hwritten q hq with hpatch | ⟨c, hc, hne⟩
      · rw [leaves_of_changed ((hwrites q).mpr hq), hpatch, h q hq]
      · exact absurd (Option.some.inj ((yaml_of_contentByPath hs hc).symm.trans (h q hq))) hne
    · exact leaves_of_same (not_not.mp (fun hchanged => hq ((hwrites q).mp hchanged)))

end

end Alike

/-! ## 7. A file a kustomization lists, and one it does not -/

def pairFolder (resources : List Path) : Folder where
  yaml := (((∅ : Tree).insert "x.yaml".toList [configMapDocument "prod" "x"]).insert
    "y.yaml".toList [configMapDocument "prod" "y"]).insert
    "kustomization.yaml".toList [kustomizationDocument { resources := some resources }]

def pairSetting (resources : List Path) : Setting :=
  newWriteBatch literalTools configMapLookup {} (pairFolder resources) none .always

def deleteX : Event := { identifier := configMapId "prod" "x", delete := true }

def modelOfX : DocumentModel where
  file := "x.yaml".toList
  index := 0
  identity := ⟨"v1", "ConfigMap", "prod", "x"⟩
  nsSource := .explicit
  mapping := .followable
  resource := some (configMapId "prod" "x")
  editable := true
  cause := .none
  ambiguous := false
  overrides := false
  rendered := none
  replicas := none

def dropOfX : PlanAction :=
  ⟨"x.yaml".toList, 0, ⟨"v1", "ConfigMap", "prod", "x"⟩, configMapId "prod" "x"⟩

/-- A resync of a scope with nothing but `x`, and with nothing to mirror. -/
def sweepX : Setting.Work := .resync [] (fun r => r = configMapId "prod" "x")

end GitopsReverser.Flush
