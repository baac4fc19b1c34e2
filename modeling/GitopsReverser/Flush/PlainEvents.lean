import GitopsReverser.Flush.PlainTree
import GitopsReverser.Reasoning.Coalesce

/-!
# PlainEvents — what a batch of events makes of plain manifests

Every event of the batch is about an identity of its own and tells its whole object. The batch
deals with one identity after the other (`Progress`): the documents of the ones it has not come to
stand where the scan found them, so that what the scan says about them can be acted on.
-/

namespace GitopsReverser.Flush

open Reasoning Manifest
open Git (Path PruneMode)

/-! ## 1. Events, and what they say -/

/-- An event of one resource, with the whole object where it is an upsert. -/
structure PlainEvent (tools : Tools) (lookup : Lookup) (e : Event) (id : Identity) : Prop where
  whole : e.fieldPatch = none
  object : ∀ o, e.object = some o → identityOfObject o = id
  told : e.delete = false → e.object ≠ none
  complete : id.Complete
  insensitive : tools.isSensitive e.identifier = false
  served : servedAs lookup id = some e.identifier

/-- The writer can do what the event asks for: the document that is there can be edited, or a new
    one has a place that the next scan reads. -/
def Setting.takes (s : Setting) (reads : Path → Bool) (e : Event) : Bool :=
  e.delete || match e.object with
    | none => false
    | some live =>
      match s.store.byManifestIdentity (identityOfObject live) with
      | some dm =>
        match (s.contentByPath.lookup dm.file).bind (fun docs => docs[dm.index]?) with
        | some (.node n) => !n.sops && (s.tools.editInPlace n dm live none).isOk
        | _ => false
      | none =>
        match locateNew s.store s.policy (s.placementRequest e) with
        | .ok placement =>
          reads placement.path && !allows placement.path && !isSOPSFile placement.path
        | .error _ => false

section Saying

variable {D : Type} (decode : Document → D)

def said (shelf : Path → Content) (id : Identity) : Set D :=
  {x | ∃ d, Holds identityAt shelf id d ∧ decode d = x}

def verdict (tools : Tools) (pruneMode : PruneMode) (e : Event) (before : Set D) : Set D :=
  if e.delete then if pruneMode.orDefault.appliesEventDeletes then ∅ else before
  else {x | ∃ o, e.object = some o ∧ decode (tools.plainDocument o) = x}

/-- The editor of a document that nothing else renders brings all of it to what the object says. -/
def EditsWhole (tools : Tools) : Prop :=
  ∀ n dm o authorInto edited edits, dm.overrides = false → dm.rendered = none →
    n.disallowed = none → n.sops = false → n.identity = identityOfObject o →
    tools.editInPlace n dm o authorInto = .ok (edited, edits) →
    edits = [] ∧ decode (.node (edited.elim n (editedNode n))) = decode (tools.plainDocument o)

variable {decode}

theorem said_update {id : Identity} {new : Document → Prop}
    (h : ∀ j d, Holds identityAt shelf' j d ↔ if j = id then new d else Holds identityAt shelf j d) :
    said decode shelf' = Function.update (said decode shelf) id {x | ∃ d, new d ∧ decode d = x} := by
  funext j
  by_cases hj : j = id
  · subst hj
    simp [said, h]
  · simp [said, h, hj]

end Saying

theorem verdict_upsert {D : Type} {decode : Document → D}
    (hdel : e.delete = false) (ho : e.object = some o) (before : Set D) :
    verdict decode tools pruneMode e before = {decode (tools.plainDocument o)} := by
  ext x
  simp [verdict, hdel, ho, eq_comm]

/-! ## 2. A batch under way -/

/-- Where a batch stands that has dealt with some identities. -/
structure Progress (s : Setting) (reads : Path → Bool) (done : List Identity) (b : Batch) :
    Prop where
  plain : PlainFiles (s.current b)
  single : Single identityAt (standing (s.current b))
  read : ∀ p c, s.current b p = some c → reads p = true
  kept : ∀ p, allows p = true → s.current b p = s.contentByPath.lookup p
  -- the documents of the other identities stand where they were found
  pending : ∀ id, id ∉ done → ∀ p d, identityAt p d = some id →
    (d ∈ standing (s.current b) p ↔ d ∈ s.shelf p)
  cold : ∀ p, s.contentByPath.lookup p = none →
    s.current b p = (b.coldBundles.lookup p).map (fun ms => ms.map ColdBundleMember.document)
  clear : ∀ p ms, b.coldBundles.lookup p = some ms → ∀ m ∈ ms, m.sensitive = false
  flag : b.putToKustomize = false

/-- One more document stands at a path, at the end of its file or in its bundle. -/
structure Extended (s : Setting) (b : Batch) (p : Path) (doc : Document) (l : Content)
    (b' : Batch) : Prop where
  documents : l.Perm (standing (s.current b) p ++ [doc])
  current : ∀ q, s.current b' q = if q = p then some l else s.current b q
  cold : ∀ q, s.contentByPath.lookup q = none →
    s.current b' q = (b'.coldBundles.lookup q).map (fun ms => ms.map ColdBundleMember.document)
  clear : ∀ q ms, b'.coldBundles.lookup q = some ms → ∀ m ∈ ms, m.sensitive = false
  flag : b'.putToKustomize = false

section Writing

variable {s : Setting} {reads : Path → Bool} {done : List Identity} {b b' : Batch} {id : Identity}
  {p : Path} {c : Option Content}

theorem allows_of_identityAt (h : identityAt p d = some id) : allows p = false := by
  rw [identityAt] at h
  split_ifs at h with hall
  simpa using hall

theorem claimAt_of_identityAt (h : identityAt p d = some id) : claimAt p d = some id := by
  rw [identityAt] at h
  split_ifs at h
  exact h

theorem standing_of_current
    (hcur : ∀ q, s.current b' q = if q = p then c else s.current b q) (q : Path) :
    standing (s.current b') q = if q = p then c.getD [] else standing (s.current b) q := by
  simp only [standing, hcur]
  split <;> rfl

theorem standing_eq (h : s.current b p = some cur) : standing (s.current b) p = cur := by
  simp [standing, h]

section

variable (h : Progress s reads done b)

include h

theorem Progress.write (hcur : ∀ q, s.current b' q = if q = p then c else s.current b q)
    (hfile : ∀ c', c = some c' → PlainFile p c' ∧ reads p = true) (hall : allows p = false)
    (hsingle : Single identityAt (standing (s.current b')))
    (hother : ∀ j, j ≠ id → ∀ d, identityAt p d = some j → (d ∈ c.getD [] ↔ d ∈ standing (s.current b) p))
    (hcold : ∀ q, s.contentByPath.lookup q = none →
      s.current b' q = (b'.coldBundles.lookup q).map (fun ms => ms.map ColdBundleMember.document))
    (hclean : ∀ q ms, b'.coldBundles.lookup q = some ms → ∀ m ∈ ms, m.sensitive = false)
    (hflag : b'.putToKustomize = false) : Progress s reads (id :: done) b' where
  plain := by
    intro q c' hq
    rw [hcur] at hq
    split at hq
    · rename_i heq
      subst heq
      exact (hfile c' hq).1
    · exact h.plain q c' hq
  single := hsingle
  read := by
    intro q c' hq
    rw [hcur] at hq
    split at hq
    · rename_i heq
      subst heq
      exact (hfile c' hq).2
    · exact h.read q c' hq
  kept := by
    intro q hq
    rw [hcur, if_neg]
    · exact h.kept q hq
    · rintro rfl
      rw [hall] at hq
      cases hq
  pending := by
    intro j hj q d hd
    obtain ⟨hne, hpend⟩ := not_or.mp (fun h => hj (List.mem_cons.mpr h))
    rw [standing_of_current hcur]
    split
    · rename_i heq
      subst heq
      exact (hother j hne d hd).trans (h.pending j hpend q d hd)
    · exact h.pending j hpend q d hd
  cold := hcold
  clear := hclean
  flag := hflag

theorem Progress.rewrite
    (hread : s.contentByPath.lookup p ≠ none) (hbundle : b'.coldBundles = b.coldBundles)
    (hput : b'.putToKustomize = b.putToKustomize)
    (hcur : ∀ q, s.current b' q = if q = p then c else s.current b q)
    (hfile : ∀ c', c = some c' → PlainFile p c' ∧ reads p = true) (hall : allows p = false)
    (hsingle : Single identityAt (standing (s.current b')))
    (hother : ∀ j, j ≠ id → ∀ d, identityAt p d = some j →
      (d ∈ c.getD [] ↔ d ∈ standing (s.current b) p)) : Progress s reads (id :: done) b' := by
  refine h.write hcur hfile hall hsingle hother ?_ ?_ (hput.trans h.flag)
  · intro q hq
    rw [hcur, if_neg, hbundle]
    · exact h.cold q hq
    · rintro rfl
      exact hread hq
  · rw [hbundle]
    exact h.clear

theorem Progress.pass (id : Identity) : Progress s reads (id :: done) b :=
  { h with pending := fun j hj => h.pending j (fun hmem => hj (List.mem_cons_of_mem id hmem)) }

/-- The document of an identity the batch has not come to is found in the live bytes. -/
theorem Progress.located (hid : id ∉ done) (hd : d ∈ s.shelf p) (hclaim : identityAt p d = some id) :
    ∃ l l', s.current b p = some (l ++ d :: l') ∧
      currentDocIndex p (l ++ d :: l') id = some l.length := by
  have hmem : d ∈ standing (s.current b) p := (h.pending id hid p d hclaim).mpr hd
  have hall := allows_of_identityAt hclaim
  cases hcur : s.current b p with
  | none => simp [standing, hcur] at hmem
  | some cur =>
    rw [standing_eq hcur] at hmem
    obtain ⟨-, hclaims⟩ := (h.plain p cur hcur).claimed hall
    obtain ⟨j, hj⟩ : ∃ j, cur.findIdx? (carries p id) = some j := by
      refine Option.isSome_iff_exists.mp (List.findIdx?_isSome.trans ?_)
      exact List.any_eq_true.mpr ⟨d, hmem, (carries_iff_claimAt (claimAt_of_identityAt hclaim)).mpr rfl⟩
    obtain ⟨hlt, hcarry, -⟩ := List.findIdx?_eq_some_iff_getElem.mp hj
    -- it carries the identity, which stands once
    have hsplit : cur = cur.take j ++ cur[j] :: cur.drop (j + 1) := by
      rw [List.getElem_cons_drop, List.take_append_drop]
    obtain ⟨id', hid'⟩ := Option.ne_none_iff_exists'.mp (hclaims cur[j] (List.getElem_mem hlt))
    obtain rfl := (carries_iff_claimAt hid').mp hcarry
    have htag : identityAt p cur[j] = some id' := by simp [identityAt, hall, hid']
    have hd' : d = cur[j] := (h.single.eq_of_split ((standing_eq hcur).trans hsplit) htag
      (by rw [standing_eq hcur]; exact hmem) hclaim).2.1
    refine ⟨cur.take j, cur.drop (j + 1), ?_, ?_⟩
    · rw [hd', ← hsplit]
    · rw [hd', ← hsplit, currentDocIndex_eq, hj, List.length_take, Nat.min_eq_left hlt.le]

theorem Progress.free (hid : id ∉ done) (hfree : ∀ d, ¬ Holds identityAt s.shelf id d) (d : Document) :
    ¬ Holds identityAt (standing (s.current b)) id d := by
  rintro ⟨p, hd, hclaim⟩
  exact hfree d ⟨p, (h.pending id hid p d hclaim).mp hd, hclaim⟩

end

/-! ### Replacing, removing, adding -/

variable {l l' : Content} {d d' : Document}

theorem PlainFile.of_claimed (h : PlainFile p (l ++ d :: l'))
    (hall : allows p = false) (hne : c' ≠ []) (hclaim : ∀ x ∈ c', claimAt p x ≠ none) :
    PlainFile p c' :=
  ⟨h.direct, h.proper, fun _ => ⟨hne, hclaim⟩, fun h => by rw [hall] at h; cases h⟩

theorem ne_of_identityAt (hx : identityAt p x = some j)
    (hd : identityAt p d = some id) (hne : j ≠ id) : x ≠ d := by
  rintro rfl
  exact hne (Option.some.inj (hx.symm.trans hd))

theorem Progress.replaced (h : Progress s reads done b)
    (hcurrent : s.current b p = some (l ++ d :: l')) (hread : s.contentByPath.lookup p ≠ none)
    (hd : identityAt p d = some id)
    (hd' : identityAt p d' = some id) (hbundle : b'.coldBundles = b.coldBundles)
    (hput : b'.putToKustomize = b.putToKustomize)
    (hcur : ∀ q, s.current b' q = if q = p then some (l ++ d' :: l') else s.current b q) :
    Progress s reads (id :: done) b' ∧ ∀ j x, Holds identityAt (standing (s.current b')) j x ↔
      if j = id then x = d' else Holds identityAt (standing (s.current b)) j x := by
  have hall := allows_of_identityAt hd
  have hfile := h.plain p _ hcurrent
  obtain ⟨hsingle, hhold⟩ := h.single.replaced (standing_eq hcurrent) hd hd' (standing_of_current hcur)
  refine ⟨h.rewrite hread hbundle hput hcur ?_ hall hsingle ?_, hhold⟩
  · rintro _ ⟨⟩
    refine ⟨hfile.of_claimed hall (by simp) (fun x hx => ?_), h.read p _ hcurrent⟩
    rcases List.mem_append.mp hx with hx | hx
    · exact (hfile.claimed hall).2 x (List.mem_append_left _ hx)
    · rcases List.mem_cons.mp hx with rfl | hx
      · simp [claimAt_of_identityAt hd']
      · exact (hfile.claimed hall).2 x (by simp [hx])
  · intro j hj x hx
    simp [standing_eq hcurrent, ne_of_identityAt hx hd hj, ne_of_identityAt hx hd' hj]

theorem Progress.removed (h : Progress s reads done b)
    (hcurrent : s.current b p = some (l ++ d :: l')) (hread : s.contentByPath.lookup p ≠ none)
    (hd : identityAt p d = some id)
    (hbundle : b'.coldBundles = b.coldBundles) (hput : b'.putToKustomize = b.putToKustomize)
    (hc : c.getD [] = l ++ l' ∧ c ≠ some [])
    (hcur : ∀ q, s.current b' q = if q = p then c else s.current b q) :
    Progress s reads (id :: done) b' ∧ ∀ j x, Holds identityAt (standing (s.current b')) j x ↔
      j ≠ id ∧ Holds identityAt (standing (s.current b)) j x := by
  have hall := allows_of_identityAt hd
  have hfile := h.plain p _ hcurrent
  obtain ⟨hsingle, hhold⟩ := h.single.removed (standing_eq hcurrent) hd
    (fun q => (standing_of_current hcur q).trans (by rw [hc.1]))
  refine ⟨h.rewrite hread hbundle hput hcur ?_ hall hsingle ?_, hhold⟩
  · rintro c' rfl
    obtain rfl : c' = l ++ l' := hc.1
    refine ⟨hfile.of_claimed hall (fun hnil => hc.2 (by rw [hnil])) (fun x hx => ?_), h.read p _ hcurrent⟩
    exact (hfile.claimed hall).2 x
      ((List.mem_append.mp hx).elim (List.mem_append_left _) (fun hx => by simp [hx]))
  · intro j hj x hx
    simp [standing_eq hcurrent, hc.1, ne_of_identityAt hx hd hj]

theorem Progress.added (h : Progress s reads done b) (hval : validateResolvedPlacementPath p = true)
    (hread : reads p = true) (hall : allows p = false) (hd : identityAt p d = some id)
    (hfree : ∀ x, ¬ Holds identityAt (standing (s.current b)) id x) (hnew : Extended s b p d l b') :
    Progress s reads (id :: done) b' ∧ ∀ j x, Holds identityAt (standing (s.current b')) j x ↔
      if j = id then x = d else Holds identityAt (standing (s.current b)) j x := by
  have hperm := hnew.documents
  obtain ⟨hsingle, hhold⟩ := h.single.added hfree hd hperm (standing_of_current hnew.current)
  -- the file of the new document is still a plain one, and the other documents stand
  refine ⟨h.write hnew.current ?_ hall hsingle ?_ hnew.cold hnew.clear hnew.flag, hhold⟩
  · rintro _ ⟨⟩
    refine ⟨⟨?_, properPath_of_valid hval, fun _ => ⟨?_, fun x hx => ?_⟩, ?_⟩, hread⟩
    · by_contra hname
      simp only [validateResolvedPlacementPath, Bool.and_eq_true, decide_eq_true_eq] at hval
      rw [allows_of_isKustomizationFile (by simpa using hname)
        (filepathToSlash_of_notMem hval.1.1.2.1)] at hall
      cases hall
    · rintro rfl
      simpa using hperm.length_eq
    · rcases List.mem_append.mp (hperm.mem_iff.mp hx) with hx | hx
      · cases hcur : s.current b p with
        | none => simp [standing, hcur] at hx
        | some cur =>
          rw [standing_eq hcur] at hx
          exact ((h.plain p cur hcur).claimed hall).2 x hx
      · rw [List.mem_singleton.mp hx, claimAt_of_identityAt hd]
        simp
    · intro h
      rw [hall] at h
      cases h
  · intro j hj x hx
    simp [hperm.mem_iff, ne_of_identityAt hx hd hj]

theorem Extended.congr (h : Extended s b p d l b') (hbuf : b''.buffers = b'.buffers)
    (hbundle : b''.coldBundles = b'.coldBundles) (hput : b''.putToKustomize = b'.putToKustomize) :
    Extended s b p d l b'' := by
  have hcur : ∀ q, s.current b'' q = s.current b' q := fun q => current_congr hbuf
  refine ⟨h.documents, fun q => (hcur q).trans (h.current q), fun q hq => ?_, ?_, hput.trans h.flag⟩
  · rw [hcur, hbundle]
    exact h.cold q hq
  · rw [hbundle]
    exact h.clear

end Writing

/-! ### Placing a new document -/

section Placing

variable {s : Setting} {reads : Path → Bool} {done : List Identity} {b : Batch} {e : Event}
  {placement : PlacementResult} {doc : Document} (h : Progress s reads done b)
  (hbuild : s.tools.buildContentForWrite e = .ok doc)
include h hbuild

theorem placeNewDocument_appended (happend : placement.append = true)
    (hread : s.contentByPath.lookup placement.path = some c) :
    ∃ b₁ l, s.placeNewDocument b e placement = .ok (b₁, .created) ∧
      Extended s b placement.path doc l b₁ := by
  refine ⟨b.set placement.path (some (standing (s.current b) placement.path ++ [doc])), _, ?_,
    ⟨.refl _, fun q => current_set, fun q hq => ?_, h.clear, h.flag⟩⟩
  · simp [Setting.placeNewDocument, happend, Setting.appendNewDocument, hbuild, appendYAMLDocument,
      standing]
  · rw [current_set, if_neg]
    · exact h.cold q hq
    · rintro rfl
      rw [hread] at hq
      cases hq

theorem placeNewDocument_cold (hinsensitive : s.tools.isSensitive e.identifier = false)
    (happend : placement.append = false) (hread : s.contentByPath.lookup placement.path = none) :
    ∃ b₁ l, s.placeNewDocument b e placement = .ok (b₁, .created) ∧
      Extended s b placement.path doc l b₁ := by
  -- the bundle of the file so far
  have hstand : standing (s.current b) placement.path =
      ((b.coldBundles.lookup placement.path).getD []).map ColdBundleMember.document := by
    rw [standing, h.cold _ hread]
    cases b.coldBundles.lookup placement.path <;> rfl
  have hclean : ∀ m ∈ (b.coldBundles.lookup placement.path).getD [], m.sensitive = false := by
    intro m hm
    cases hbundle : b.coldBundles.lookup placement.path with
    | none => simp [hbundle] at hm
    | some ms => exact h.clear _ ms hbundle m (by simpa [hbundle] using hm)
  have hany : ((b.coldBundles.lookup placement.path).getD []).any ColdBundleMember.sensitive = false :=
    List.any_eq_false.mpr (fun m hm => by simp [hclean m hm])
  generalize hmem : (((b.coldBundles.lookup placement.path).getD []) ++
    [(⟨e.identifier, doc, false⟩ : ColdBundleMember)]).insertionSort
      (fun x y => x.identifier.key ≤ y.identifier.key) = members
  have hperm : members.Perm (((b.coldBundles.lookup placement.path).getD []) ++
      [⟨e.identifier, doc, false⟩]) := hmem ▸ List.perm_insertionSort _ _
  refine ⟨{ b.set placement.path (some (members.map ColdBundleMember.document)) with
    coldBundles := b.coldBundles.insert placement.path members },
    members.map ColdBundleMember.document, ?_, ⟨?_, fun q => current_insert rfl, fun q hq => ?_,
    fun q ms hms m hm => ?_, h.flag⟩⟩
  · simp [Setting.placeNewDocument, happend, hread, hinsensitive, hany,
      Setting.writeColdBundleMember, hbuild, hmem]
  · rw [hstand]
    simpa using hperm.map ColdBundleMember.document
  · rw [current_insert (b := b) (p := placement.path) rfl, lookup_insert_ite]
    split
    · rfl
    · exact h.cold q hq
  · rw [lookup_insert_ite] at hms
    split at hms
    · obtain rfl := Option.some.inj hms
      rcases List.mem_append.mp (hperm.mem_iff.mp hm) with hm | hm
      · exact hclean m hm
      · rw [List.mem_singleton.mp hm]
    · exact h.clear q ms hms m hm

end Placing

/-! ## 3. One event -/

section Events

variable {D : Type} {decode : Document → D} {tools : Tools} {lookup : Lookup} {folder : Folder}
  {policy : Option PlacementPolicy} {pruneMode : PruneMode} {s : Setting} {reads : Path → Bool}
  {done : List Identity} {b : Batch} {e : Event} {id : Identity}
  (hs : s = newWriteBatch tools lookup {} folder policy pruneMode)
  (hplain : PlainFiles (fun p => s.contentByPath.lookup p)) (hnone : Unattributed tools.kustomize)
  (hwhole : EditsWhole decode tools) (hsingle : Single identityAt s.shelf)
  (h : Progress s reads done b) (hid : id ∉ done) (he : PlainEvent tools lookup e id)

def Dealt (decode : Document → D) (s : Setting) (reads : Path → Bool) (done : List Identity)
    (id : Identity) (e : Event) (b b' : Batch) : Prop :=
  Progress s reads (id :: done) b' ∧ said decode (standing (s.current b')) =
    applyAt (fun _ : Event => id) (verdict decode s.tools s.pruneMode)
      (said decode (standing (s.current b))) e

theorem overlayAuthorKustomization_plain (p : Path)
    (hs : s = newWriteBatch tools lookup {} folder policy pruneMode) :
    s.overlayAuthorKustomization p = none := by
  subst hs
  simp [Setting.overlayAuthorKustomization, newWriteBatch]

variable {d : Document} {p : Path}

theorem mem_shelf {i : Nat} (hd : (s.shelf p)[i]? = some d) :
    d ∈ s.shelf p ∧ s.contentByPath.lookup p ≠ none := by
  refine ⟨List.mem_of_getElem? hd, fun hread => ?_⟩
  simp [Setting.shelf, standing, hread] at hd

/-! ### Deletes -/

include hs hplain hsingle he in
theorem resolveDelete_of_standing
    (hsole : ∀ dm ∈ s.store.documents, dm.resource = some e.identifier → dm.identity = id) {i : Nat}
    (hd : (s.shelf p)[i]? = some d)
    (hclaim : identityAt p d = some id) : s.resolveDelete e = some ⟨p, id⟩ := by
  have hfound := byManifestIdentity_of_standing hs hplain hsingle hd hclaim
  obtain ⟨hidentity, hinherit⟩ := modelAt_identity hs hplain p i id
  have hraw : Setting.rawManifestID id (modelAt tools lookup folder p i id) = id := by
    simp [Setting.rawManifestID, hinherit]
  have hfile : (modelAt tools lookup folder p i id).file = p := rfl
  rw [Setting.resolveDelete]
  cases hobj : e.object with
  | some o =>
    obtain rfl := he.object o hobj
    obtain ⟨hversion, hkind, hname⟩ := he.complete
    simp [manifestIdentity, hversion, hkind, hname, hfound, hidentity, hraw, hfile]
  | none =>
    -- without an object the store is asked by resource; only one document answers to it
    have hserve := (modelAt_resource hs hplain p i id).trans he.served
    obtain ⟨a, ha⟩ := Option.ne_none_iff_exists'.mp
      (planDelete_of_standing hs hplain hsingle hd hclaim hserve)
    obtain ⟨q, j, d', hd', hclaim', hq, haid⟩ := planDelete_plain hs hplain hsole ha
    obtain rfl := (hsingle id).place q p (countP_pos_of_mem (List.mem_of_getElem? hd') hclaim')
      (countP_pos_of_mem (List.mem_of_getElem? hd) hclaim)
    simp [manifestIdentity, ha, haid, hfound, hraw, hq]

include hs hplain he in
theorem resolveDelete_of_free
    (hsole : ∀ dm ∈ s.store.documents, dm.resource = some e.identifier → dm.identity = id)
    (hfree : ∀ d, ¬ Holds identityAt s.shelf id d) : s.resolveDelete e = none := by
  have hunknown : (manifestIdentity e.object).bind s.store.byManifestIdentity = none := by
    cases hobj : e.object with
    | none => rfl
    | some o =>
      obtain rfl := he.object o hobj
      obtain ⟨hversion, hkind, hname⟩ := he.complete
      simp [manifestIdentity, hversion, hkind, hname, byManifestIdentity_of_free hs hplain hfree]
  rw [Setting.resolveDelete, hunknown]
  cases hplan : s.store.planDelete e.identifier with
  | none => rfl
  | some a =>
    obtain ⟨p, i, d, hd, hclaim, -⟩ := planDelete_plain hs hplain hsole hplan
    exact absurd ⟨p, List.mem_of_getElem? hd, hclaim⟩ (hfree d)

theorem deleteDocument_plain (hfile : PlainFile p (l ++ d :: l')) (hall : allows p = false) :
    (deleteDocument (l ++ d :: l') l.length).getD [] = l ++ l' ∧
      deleteDocument (l ++ d :: l') l.length ≠ some [] := by
  have hrest : (l ++ d :: l').eraseIdx l.length = l ++ l' := by
    rw [List.eraseIdx_append_of_length_le (Nat.le_refl _), Nat.sub_self, List.eraseIdx_cons_zero]
  -- a blank document claims nothing
  have hblank : l ++ l' ≠ [.blank ""] := by
    intro heq
    have hmem : Document.blank "" ∈ l ++ l' := by simp [heq]
    refine (hfile.claimed hall).2 (.blank "") ?_ rfl
    exact (List.mem_append.mp hmem).elim (List.mem_append_left _) (fun h => by simp [h])
  simp only [deleteDocument, hrest]
  split_ifs with hnone
  · rcases hnone with hnil | ⟨-, hone⟩
    · simp [hnil]
    · exact absurd hone hblank
  · simp only [not_or] at hnone
    simp [hnone.1]

include hs hplain in
theorem deleteAt_plain (b : Batch) (t : Setting.DeleteTarget) (cur : Content) (i : Nat) :
    (∀ q, s.current (s.deleteAt b t cur i) q =
        if q = t.file then deleteDocument cur i else s.current b q) ∧
      (s.deleteAt b t cur i).coldBundles = b.coldBundles ∧
      (s.deleteAt b t cur i).putToKustomize = b.putToKustomize := by
  -- no kustomization lists the file, so none is edited when the file goes
  have hlist : s.kustomizationsListing t.file = [] := by
    rw [Setting.kustomizationsListing, kusts_eq_empty hs hplain]
    rfl
  have hintent : ∀ i : WriteIntent, (b.intend i).putToKustomize = b.putToKustomize := by
    intro i
    unfold Batch.intend
    split <;> rfl
  simp only [Setting.deleteAt, Setting.dropKustomizationResource, hlist]
  cases deleteDocument cur i with
  | none =>
    refine ⟨fun q => ?_, by simp [Batch.set], by simp [Batch.set, hintent]⟩
    rw [List.foldl_nil, current_set]
    split
    · rfl
    · exact current_congr (by simp)
  | some rest =>
    refine ⟨fun q => ?_, by simp [Batch.set], by simp [Batch.set, hintent]⟩
    rw [current_set]
    split
    · rfl
    · exact current_congr (by simp)

include hs hplain hsingle h hid he in
theorem applyDelete_dealt (hdel : e.delete = true)
    (hsole : ∀ dm ∈ s.store.documents, dm.resource = some e.identifier → dm.identity = id) :
    Dealt decode s reads done id e b (s.applyDelete b e) := by
  have hverdict : verdict decode s.tools s.pruneMode e =
      fun before => if s.pruneMode.orDefault.appliesEventDeletes then ∅ else before := by
    funext before
    rw [verdict, if_pos hdel]
  by_cases hprune : s.pruneMode.orDefault.appliesEventDeletes = true
  · by_cases hheld : ∃ d, Holds identityAt s.shelf id d
    · obtain ⟨d, p, hd, hclaim⟩ := hheld
      obtain ⟨i, hi⟩ := List.mem_iff_getElem?.mp hd
      obtain ⟨l, l', hcurrent, hindex⟩ := h.located hid hd hclaim
      have happly : s.applyDelete b e = s.deleteAt b ⟨p, id⟩ (l ++ d :: l') l.length := by
        simp [Setting.applyDelete, hprune,
          resolveDelete_of_standing hs hplain hsingle he hsole hi hclaim, hcurrent, hindex,
          overlayAuthorKustomization_plain p hs]
      obtain ⟨hcur, hbundle, hput⟩ := deleteAt_plain hs hplain b ⟨p, id⟩ (l ++ d :: l') l.length
      obtain ⟨hprogress, hhold⟩ := h.removed hcurrent (mem_shelf hi).2 hclaim hbundle hput
        (deleteDocument_plain (h.plain p _ hcurrent) (allows_of_identityAt hclaim)) hcur
      rw [happly]
      refine ⟨hprogress, ?_⟩
      have hgone : ∀ j x, Holds identityAt (standing (s.current (s.deleteAt b ⟨p, id⟩ (l ++ d :: l')
          l.length))) j x ↔
            if j = id then False else Holds identityAt (standing (s.current b)) j x := by
        intro j x
        rw [hhold]
        by_cases hj : j = id <;> simp [hj]
      have hempty : {x | ∃ d, False ∧ decode d = x} = (∅ : Set D) := by
        ext x
        simp
      rw [said_update hgone, hempty, applyAt, hverdict]
      simp [hprune]
    · -- there is nothing to delete
      have hfree : ∀ d, ¬ Holds identityAt s.shelf id d := not_exists.mp hheld
      have happly : s.applyDelete b e = b := by
        simp [Setting.applyDelete, resolveDelete_of_free hs hplain he hsole hfree]
      rw [happly]
      refine ⟨h.pass id, ?_⟩
      have hsilent : said decode (standing (s.current b)) id = ∅ := by
        ext x
        refine iff_of_false ?_ (Set.notMem_empty x)
        rintro ⟨d, hd, -⟩
        exact h.free hid hfree d hd
      rw [applyAt, hverdict]
      simp only [hprune, if_true]
      rw [← hsilent, Function.update_eq_self]
  · have happly : s.applyDelete b e = b := by simp [Setting.applyDelete, hprune]
    rw [happly]
    refine ⟨h.pass id, ?_⟩
    rw [applyAt, hverdict]
    simp [hprune]

/-! ### Upserts -/

theorem intend_putToKustomize (i : WriteIntent) : (b.intend i).putToKustomize = b.putToKustomize := by
  unfold Batch.intend
  split <;> rfl

theorem patchDocument_plain (live : Object)
    (edited : Option Node) (hcur : s.current b p = some (l ++ .node n :: l'))
    (hdisallow : n.disallowed = none) (hsops : n.sops = false) (hrender : dm.rendered = none) :
    (∀ q, s.current (s.patchDocument b live p (l ++ .node n :: l') l.length dm edited []).1 q =
        if q = p then some (l ++ .node (edited.elim n (editedNode n)) :: l') else s.current b q) ∧
      (s.patchDocument b live p (l ++ .node n :: l') l.length dm edited []).1.coldBundles =
        b.coldBundles ∧
      (s.patchDocument b live p (l ++ .node n :: l') l.length dm edited []).1.putToKustomize =
        b.putToKustomize := by
  have hedit : editDocument (l ++ .node n :: l') l.length (fun _ => edited) =
      edited.map (fun edited => l ++ .node (editedNode n edited) :: l') := by
    simp [editDocument, hdisallow, hsops]
  have hroute : ∀ b : Batch, s.applyOverrideEdits b [] = (b, false) := fun b => rfl
  simp only [Setting.patchDocument, hedit, hroute, hrender]
  cases edited with
  | none =>
    -- the document said so already
    have hsame : ∀ b' : Batch, b'.buffers = b.buffers → ∀ q, s.current b' q =
        if q = p then some (l ++ .node n :: l') else s.current b q := by
      intro b' hbuf q
      rw [current_congr hbuf]
      split
      · rename_i hq
        rw [hq, hcur]
      · rfl
    simp only [Option.map_none, Batch.put, Option.elim_none, Option.isSome_none, Bool.or_false]
    split
    · exact ⟨hsame _ (by simp), by simp, by simp [intend_putToKustomize]⟩
    · exact ⟨hsame _ rfl, rfl, rfl⟩
  | some edited =>
    simp only [Option.map_some, Batch.put, Option.elim_some, Option.isSome_none, Bool.or_false,
      Bool.true_or, if_true]
    refine ⟨fun q => ?_, by simp [Batch.set], by simp [Batch.set, intend_putToKustomize]⟩
    rw [current_congr (b := b.set p (some (l ++ .node (editedNode n edited) :: l'))) (by simp),
      current_set]

include hs hplain hnone hwhole hsingle h hid he in
theorem applyUpsert_of_standing (hdel : e.delete = false) (htakes : s.takes reads e = true)
    {i : Nat} (hd : (s.shelf p)[i]? = some d) (hclaim : identityAt p d = some id) :
    ∃ r, s.applyUpsert b e = .ok r ∧ Dealt decode s reads done id e b r.1 := by
  obtain ⟨o, ho⟩ := Option.ne_none_iff_exists'.mp (he.told hdel)
  obtain rfl := he.object o ho
  obtain ⟨hversion, hkind, hname⟩ := he.complete
  have htool : s.tools = tools := by rw [hs]; rfl
  have hfound := byManifestIdentity_of_standing hs hplain hsingle hd hclaim
  obtain ⟨-, hinherit⟩ := modelAt_identity hs hplain p i (identityOfObject o)
  obtain ⟨hoverride, hrender, -⟩ := modelAt_ungoverned hs hplain hnone p i (identityOfObject o)
  obtain ⟨n, rfl, hidentity, hcomplete, hmap, hdisallow, hkey⟩ := claimAt_eq_some (claimAt_of_identityAt hclaim)
  -- the editor takes the object
  have hfile : (modelAt tools lookup folder p i (identityOfObject o)).file = p := rfl
  have hread : (s.contentByPath.lookup (modelAt tools lookup folder p i (identityOfObject o)).file).bind
      (fun docs => docs[(modelAt tools lookup folder p i (identityOfObject o)).index]?) =
        some (.node n) := by
    show (s.contentByPath.lookup p).bind (fun docs => docs[i]?) = some (.node n)
    cases hc : s.contentByPath.lookup p with
    | none => exact absurd hc (mem_shelf hd).2
    | some c => simpa [Setting.shelf, standing, hc] using hd
  simp only [Setting.takes, hdel, ho, hfound, hread, htool, Bool.false_or, Bool.and_eq_true,
    Bool.not_eq_true'] at htakes
  obtain ⟨hsops, hok⟩ := htakes
  cases hedit : tools.editInPlace n (modelAt tools lookup folder p i (identityOfObject o)) o none with
  | error kind =>
    rw [hedit] at hok
    cases hok
  | ok r =>
    obtain ⟨edited, edits⟩ := r
    obtain ⟨rfl, hdecode⟩ := hwhole n _ o none edited edits hoverride hrender hdisallow hsops hidentity hedit
    obtain ⟨l, l', hcurrent, hindex⟩ := h.located hid (mem_shelf hd).1 hclaim
    obtain ⟨hcur, hbundle, hput⟩ := patchDocument_plain o edited hcurrent hdisallow hsops hrender
    have happly : s.applyUpsert b e = .ok (s.patchDocument b o p (l ++ .node n :: l') l.length
        (modelAt tools lookup folder p i (identityOfObject o)) edited []) := by
      simp [Setting.applyUpsert, ho, manifestIdentity, hversion, hkind, hname, hfound, htool,
        he.insensitive, Setting.patchExisting, hfile, hcurrent, Setting.rawManifestID,
        hinherit, hindex, Setting.stripNamespace, overlayAuthorKustomization_plain p hs, hedit]
    have hclaim' : identityAt p (.node (edited.elim n (editedNode n))) = some (identityOfObject o) := by
      have hsame : ∀ m : Node, claimAt p (.node (editedNode n m)) = claimAt p (.node n) :=
        fun m => rfl
      cases edited with
      | none => exact hclaim
      | some m => rw [Option.elim_some, identityAt, hsame, ← identityAt, hclaim]
    obtain ⟨hprogress, hhold⟩ := h.replaced hcurrent (mem_shelf hd).2 hclaim hclaim' hbundle hput hcur
    refine ⟨_, happly, hprogress, ?_⟩
    rw [said_update hhold, applyAt, verdict_upsert hdel ho, htool, ← hdecode]
    congr 1
    ext x
    simp [eq_comm]

theorem createNew_written (ho : e.object = some o)
    (hplace : locateNew s.store s.policy (s.placementRequest e) = .ok placement)
    (hkust : placement.kustomization = none)
    (hinherit : placement.namespaceInherited = false)
    (hwrite : s.placeNewDocument b e placement = .ok (b₁, .created)) :
    ∃ b₂, s.createNew b e = .ok (b₂, .created) ∧ b₂.buffers = b₁.buffers ∧
      b₂.coldBundles = b₁.coldBundles ∧ b₂.putToKustomize = b₁.putToKustomize := by
  have hevent : Setting.placedEvent e placement = e := by
    obtain ⟨identifier, object, delete, fieldPatch⟩ := e
    obtain rfl : object = some o := ho
    simp [Setting.placedEvent, hinherit, Setting.stripNamespace]
  have hentry : s.withEntry b placement = b := by rw [Setting.withEntry, hkust]
  have hcreate : UpsertOutcome.created.wroteBytes = true := rfl
  simp only [Setting.createNew, hplace, hentry, hevent, hwrite, hcreate, hkust, ho,
    Bool.not_true, Bool.false_eq_true, if_false, Option.isSome_none, Bool.or_false]
  exact ⟨_, rfl, by simp, by simp, by simp [intend_putToKustomize]⟩

include hs hplain h hid he in
theorem applyUpsert_of_free (hdel : e.delete = false) (htakes : s.takes reads e = true)
    (hfree : ∀ d, ¬ Holds identityAt s.shelf id d) :
    ∃ r, s.applyUpsert b e = .ok r ∧ Dealt decode s reads done id e b r.1 := by
  obtain ⟨o, ho⟩ := Option.ne_none_iff_exists'.mp (he.told hdel)
  obtain rfl := he.object o ho
  obtain ⟨hverdict, hkind, hname⟩ := he.complete
  have htool : s.tools = tools := by rw [hs]; rfl
  have hpolicy : s.policy = policy := by rw [hs]; rfl
  have hmiss := byManifestIdentity_of_free hs hplain hfree
  simp only [Setting.takes, hdel, ho, hmiss, Bool.false_or] at htakes
  cases hplace : locateNew s.store s.policy (s.placementRequest e) with
  | error err =>
    rw [hplace] at htakes
    cases htakes
  | ok placement =>
    rw [hplace] at htakes
    simp only [Bool.and_eq_true, Bool.not_eq_true'] at htakes
    obtain ⟨⟨hreads, hall⟩, hsops⟩ := htakes
    obtain ⟨hval, happend, -, -⟩ := locateNew_ok hplace
    rw [fileIsAppendSafe_plain hs hplain hall] at happend
    obtain ⟨hkust, hinherit⟩ := locateNew_plain hs hplain (hpolicy ▸ hplace)
    have hbuild : s.tools.buildContentForWrite e = .ok (tools.plainDocument o) := by
      simp [Tools.buildContentForWrite, ho, htool, he.insensitive]
    have hclaim : identityAt placement.path (tools.plainDocument o) = some (identityOfObject o) := by
      rw [identityAt, if_neg (by simp [hall])]
      refine claimAt_of_node rfl he.complete rfl (fun hpath => ?_)
      rw [hsops] at hpath
      cases hpath
    -- the file takes one more document, at its end or among the new ones
    obtain ⟨b₁, l, hwrite, hnew⟩ : ∃ b₁ l, s.placeNewDocument b e placement = .ok (b₁, .created) ∧
        Extended s b placement.path (tools.plainDocument o) l b₁ := by
      cases hread : s.contentByPath.lookup placement.path with
      | some c => exact placeNewDocument_appended h hbuild (by simp [happend, hread]) hread
      | none =>
        exact placeNewDocument_cold h hbuild (htool ▸ he.insensitive) (by simp [happend, hread]) hread
    obtain ⟨b₂, hcreate, hbuf, hbundle, hflag⟩ := createNew_written ho hplace hkust hinherit hwrite
    obtain ⟨hprogress, hhold⟩ := h.added hval hreads hall hclaim (h.free hid hfree)
      (hnew.congr hbuf hbundle hflag)
    refine ⟨(b₂, .created), ?_, hprogress, ?_⟩
    · simp [Setting.applyUpsert, ho, manifestIdentity, hverdict, hkind, hname, hmiss, hcreate]
    · rw [said_update hhold, applyAt, verdict_upsert hdel ho, htool]
      congr 1
      ext x
      simp [eq_comm]

include hs hplain hnone hwhole hsingle h hid he in
theorem applyEvent_dealt (htakes : s.takes reads e = true)
    (hsole : ∀ dm ∈ s.store.documents, dm.resource = some e.identifier → dm.identity = id) :
    ∃ b', s.applyEvent b e = .ok b' ∧ Dealt decode s reads done id e b b' := by
  cases hdel : e.delete with
  | true =>
    refine ⟨s.applyDelete b e, by simp [Setting.applyEvent, he.whole, hdel], ?_⟩
    exact applyDelete_dealt hs hplain hsingle h hid he hdel hsole
  | false =>
    have hupsert : ∃ r, s.applyUpsert b e = .ok r ∧ Dealt decode s reads done id e b r.1 := by
      by_cases hheld : ∃ d, Holds identityAt s.shelf id d
      · obtain ⟨d, p, hd, hclaim⟩ := hheld
        obtain ⟨i, hi⟩ := List.mem_iff_getElem?.mp hd
        exact applyUpsert_of_standing hs hplain hnone hwhole hsingle h hid he hdel htakes hi hclaim
      · exact applyUpsert_of_free hs hplain h hid he hdel htakes (not_exists.mp hheld)
    obtain ⟨r, hr, hdealt⟩ := hupsert
    exact ⟨r.1, by simp [Setting.applyEvent, he.whole, hdel, hr, Except.map], hdealt⟩

end Events

/-! ## 4. Whole batches -/

/-- A folder of plain manifests that the acceptance gate lets pass. -/
structure PlainFolder (s : Setting) : Prop where
  files : PlainFiles (fun p => s.contentByPath.lookup p)
  accepted : s.store.Accepted

section Batches

variable {D : Type} {decode : Document → D} {tools : Tools} {lookup : Lookup} {folder : Folder}
  {policy : Option PlacementPolicy} {pruneMode : PruneMode} {s : Setting} {events : List Event}
  {ident : Event → Identity}
  (hs : s = newWriteBatch tools lookup {} folder policy pruneMode) (hplain : PlainFolder s)
  (hnone : Unattributed tools.kustomize) (hwhole : EditsWhole decode tools)
  (hevents : ∀ e ∈ events, PlainEvent tools lookup e (ident e))
  (hnodup : (events.map ident).Nodup)
  (htakes : ∀ e ∈ events, s.takes (({} : Scope).reads tools.nameMatch folder) e = true)
  (hsole : ∀ e ∈ events, ∀ dm ∈ s.store.documents,
    dm.resource = some e.identifier → dm.identity = ident e)

include hs hplain in
theorem Progress.start : Progress s (({} : Scope).reads tools.nameMatch folder) [] {} where
  plain := hplain.files
  single := ((accepted_plain_iff hs hplain.files).mp hplain.accepted).1
  read := by
    intro p c hc
    rw [current_empty, hs, lookup_contentByPath] at hc
    split_ifs at hc with hread
    exact hread
  kept := fun _ _ => rfl
  pending := fun _ _ _ _ _ => Iff.rfl
  cold := fun p hp => hp
  clear := fun _ _ h => (nomatch h)
  flag := rfl

include hs hplain hnone hwhole hevents hnodup htakes hsole in
theorem perform_plain : ∃ b done, s.perform (.events events) = .ok b ∧
    Progress s (({} : Scope).reads tools.nameMatch folder) done b ∧
    said decode (standing (s.current b)) =
      events.foldl (applyAt ident (verdict decode s.tools s.pruneMode)) (said decode s.shelf) := by
  have hsingle := ((accepted_plain_iff hs hplain.files).mp hplain.accepted).1
  -- `done` are the identities of the events dealt with; those of the rest are still as read
  suffices hrun : ∀ (rest : List Event) (b : Batch) (done : List Identity), (∀ e ∈ rest, e ∈ events) →
      (rest.map ident).Nodup → (∀ e ∈ rest, ident e ∉ done) →
      Progress s (({} : Scope).reads tools.nameMatch folder) done b →
      ∃ b' done', s.applyEvents b rest = .ok b' ∧
        Progress s (({} : Scope).reads tools.nameMatch folder) done' b' ∧
        said decode (standing (s.current b')) = rest.foldl
          (applyAt ident (verdict decode s.tools s.pruneMode))
          (said decode (standing (s.current b))) from
    hrun events {} [] (fun _ he => he) hnodup (fun _ _ => List.not_mem_nil) (.start hs hplain)
  intro rest
  induction rest with
  | nil => exact fun b done _ _ _ hb => ⟨b, done, rfl, hb, rfl⟩
  | cons e rest ih =>
    intro b done hmem hdisallow hfree hb
    obtain ⟨hnew, hdisallow⟩ := List.nodup_cons.mp hdisallow
    have he := hmem e List.mem_cons_self
    obtain ⟨b₁, happly, hb₁, hsaid⟩ := applyEvent_dealt hs hplain.files hnone hwhole hsingle hb
      (hfree e List.mem_cons_self) (hevents e he) (htakes e he) (hsole e he)
    obtain ⟨b₂, done', hrest, hb₂, hsaid'⟩ := ih b₁ (ident e :: done)
      (fun x hx => hmem x (List.mem_cons_of_mem e hx)) hdisallow
      (fun x hx hdone => by
        rcases List.mem_cons.mp hdone with hsame | hdone
        · exact hnew (List.mem_map.mpr ⟨x, hx, hsame⟩)
        · exact hfree x (List.mem_cons_of_mem e hx) hdone) hb₁
    refine ⟨b₂, done', ?_, hb₂, ?_⟩
    · rw [Setting.applyEvents, List.foldlM_cons, happly]
      exact hrest
    · rw [hsaid', hsaid]
      rfl

include hs hplain hnone hwhole hevents hnodup htakes hsole in

/-- The flush of such a batch leaves a folder of plain manifests that say what the events say. -/
theorem run_plain : ∃ folder', s.run (.events events) folder = .ok folder' ∧
    ∀ s', s' = newWriteBatch tools lookup {} folder' policy pruneMode → PlainFolder s' ∧
      said decode s'.shelf =
        events.foldl (applyAt ident (verdict decode tools pruneMode)) (said decode s.shelf) := by
  obtain ⟨b, done, hperform, hb, hsaid⟩ := perform_plain hs hplain hnone hwhole hevents hnodup htakes hsole
  have hset : s.tools = tools ∧ s.pruneMode = pruneMode := by
    rw [hs]
    exact ⟨rfl, rfl⟩
  -- what changed is a file of manifests, before or after
  have hchange : ∀ p, s.current b p ≠ s.contentByPath.lookup p → properPath p = true ∧
      ({} : Scope).reads tools.nameMatch folder p = true ∧ allows p = false := by
    intro p hp
    have hall : allows p = false := by
      by_contra hall
      exact hp (hb.kept p (by simpa using hall))
    cases hcur : s.current b p with
    | some c => exact ⟨(hb.plain p c hcur).proper, hb.read p c hcur, hall⟩
    | none =>
      cases hc : s.contentByPath.lookup p with
      | none => exact absurd (hcur.trans hc.symm) hp
      | some c =>
        exact ⟨(hplain.files p c hc).proper, (Progress.start hs hplain).read p c hc, hall⟩
  obtain ⟨folder', hflush⟩ := flush_eq_ok_iff.mpr (permitted_plain hs hplain.files hnone hb.flag hchange)
  refine ⟨folder', by rw [Setting.run, hperform]; exact hflush, fun s' hs' => ?_⟩
  have hres : (fun p => s'.contentByPath.lookup p) = s.current b := by
    funext p
    rw [lookup_rescan hs hflush hs']
    split_ifs with hread
    · rfl
    · cases hcur : s.current b p with
      | none => rfl
      | some c => exact absurd (hb.read p c hcur) hread
  have hfile : PlainFiles (fun p => s'.contentByPath.lookup p) := by
    rw [hres]
    exact hb.plain
  have hshelf : s'.shelf = standing (s.current b) := congrArg standing hres
  obtain ⟨-, hforeign, hissue⟩ := (accepted_plain_iff hs hplain.files).mp hplain.accepted
  obtain ⟨hforeign', hissue'⟩ := foreign_after_flush hs hflush hs'
  refine ⟨⟨hfile, (accepted_plain_iff hs' hfile).mpr
    ⟨?_, hforeign'.trans hforeign, hissue'.trans hissue⟩⟩, ?_⟩
  · rw [hshelf]
    exact hb.single
  · rw [hshelf, hsaid, hset.1, hset.2]

end Batches

end GitopsReverser.Flush
