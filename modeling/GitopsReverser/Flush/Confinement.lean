import GitopsReverser.Flush.WriteJail
import GitopsReverser.Reasoning.Runs

/-!
# Confinement — what becomes of sensitive content

A sensitive resource is written sealed, alone in its file, or not at all. Whether a file holds a
sealed document is asked of the index, and the index goes by the name of the file: a sealed document
in a file without the `.sops` suffix counts as plain when the next batch places its documents.
-/

namespace GitopsReverser.Flush

open Reasoning Manifest
open Git (Path PruneMode)

/-! ## 1. Sealed and plain documents -/

def isSealed : Document → Bool
  | .node n => n.sops
  | _ => false

def isPlain : Document → Bool
  | .node n => !n.sops
  | _ => false

/-- A build directive: a kustomization, or a patch that removes an inherited document. -/
def isDirective : Document → Bool
  | .node n => n.kustomization.isSome ||
      decide (Document.node n = Setting.inheritedDeletePatchDocument n.identity)
  | _ => false

theorem not_isPlain_of_isSealed (h : isSealed d = true) : isPlain d = false := by
  cases d with
  | node n => simpa [isSealed, isPlain] using h
  | blank text | comment text | invalid error text => rfl

theorem not_isBlank_of_isSealed (h : isSealed d = true) : d.isBlank = false := by
  cases d with
  | blank text => cases h
  | comment text | invalid error text | node n => rfl

theorem not_isBlank_of_isPlain (h : isPlain d = true) : d.isBlank = false := by
  cases d with
  | blank text => cases h
  | comment text | invalid error text | node n => rfl

/-- In a file with the suffix the index sees sealed documents only, and those are not edited. -/
theorem not_edited_of_isSOPSFile {id : Identity}
    (hp : isSOPSFile p = true) (hidx : currentDocIndex p cur id = some i)
    (hedit : editDocument cur i f = some c) : False := by
  rw [currentDocIndex_eq, List.findIdx?_eq_some_iff_getElem] at hidx
  obtain ⟨hlt, hcarry, -⟩ := hidx
  obtain ⟨r, hr, heditable, -⟩ := exists_record_of_carries hcarry
  unfold editDocument at hedit
  rw [List.getElem?_eq_getElem hlt] at hedit
  split at hedit
  · rename_i n hn
    rw [Option.some.inj hn] at hr
    split_ifs at hedit with hleft
    simp only [Bool.or_eq_true, not_or, Bool.not_eq_true, Option.isSome_eq_false_iff,
      Option.isNone_iff_eq_none] at hleft
    simp only [indexDocument, hleft.1, hp, hleft.2, if_true, Bool.false_eq_true, if_false] at hr
    split at hr <;> simp at hr
  · cases hedit

/-! ## 2. The property -/

def Action.sensitive (tools : Tools) : Action → Bool
  | .event e => tools.isSensitive e.identifier
  | .drop a => tools.isSensitive a.resource

def Setting.heldAt (s : Setting) (b : Batch) (p : Path) : Content := (s.current b p).getD []

/-- An action for a sensitive resource adds sealed documents and build directives only. -/
def AddsNoPlaintext (s : Setting) (b : Batch) (a : Action) : Prop :=
  a.sensitive s.tools = true → ∀ b', s.act b a = .ok b' →
    ∀ p, ∀ d ∈ s.heldAt b' p, d ∉ s.heldAt b p → isSealed d = true ∨ isDirective d = true

def Tools.cannotSeal (tools : Tools) (o : Object) : Bool :=
  match tools.encrypt o with
  | .error _ => true
  | .ok _ => false

def Unsealable (tools : Tools) (e : Event) : Prop :=
  e.object.all (fun o => tools.cannotSeal o && tools.cannotSeal (Setting.stripNamespace true o)) = true
  deriving Decidable

/-- A sensitive object that cannot be sealed fails the batch, or changes nothing. -/
def FailsClosed (s : Setting) (b : Batch) (a : Action) : Prop :=
  ∀ e, a = .event e → e.fieldPatch = none → e.delete = false →
    s.tools.isSensitive e.identifier = true → Unsealable s.tools e →
    ∀ b', s.act b a = .ok b' → ∀ p, s.current b' p = s.current b p

/-- A sealed document that a file gains stands in it alone, and a plain one that it gains has no
    sealed one beside it. -/
def KeepsApart (folder folder' : Folder) : Prop :=
  ∀ p c, folder'.yaml.lookup p = some c → ∀ d ∈ c,
    ((folder.yaml.lookup p).getD []).count d < c.count d → (isSealed d = true → decoded c = [d]) ∧
      (isPlain d = true → ∀ d' ∈ c, isSealed d' = false)

structure Confined (s : Setting) (work : Setting.Work) (folder : Folder) : Prop where
  sealed : Throughout s.act (AddsNoPlaintext s) {} (s.actions work)
  apart : KeepsApart folder (s.worktree work folder)
  closed : Throughout s.act (FailsClosed s) {} (s.actions work)
  failed : ∀ err, s.perform work = .error err → s.worktree work folder = folder

/-! ## 3. The condition -/

def Setting.destinations (s : Setting) (e : Event) : List Path :=
  match locateNew s.store s.policy (s.placementRequest e) with
  | .ok placement => [placement.path]
  | .error _ => []

/-- A secret that is refused at its destination leaves the kustomization alone too. -/
def Setting.refusedInPlace (s : Setting) (b : Batch) (e : Event) : Bool :=
  match locateNew s.store s.policy (s.placementRequest e) with
  | .error _ => true
  | .ok placement =>
    decide ((s.withEntry b placement).buffers = b.buffers) ||
      decide (s.current (s.withEntry b placement) placement.path = none) ||
      (s.contentByPath.lookup placement.path).isSome

/-- The rendering of a resource that is not sensitive has no `sops` stanza of its own. -/
def Tools.unstamped (tools : Tools) (o : Object) : Bool :=
  !(tools.marshal o).sops && !(tools.marshal (Setting.stripNamespace true o)).sops

/-- Sensitive resources have their documents in files with the suffix, and get them there. -/
def Guarded (s : Setting) (b : Batch) : Action → Prop
  | .drop _ => True
  | .event e =>
    if s.tools.isSensitive e.identifier then
      (∀ p ∈ s.homes (.event e), isSOPSFile p = true) ∧
      (∀ p ∈ s.destinations e, isSOPSFile p = true) ∧
      (Unsealable s.tools e → s.refusedInPlace b e = true)
    else e.object.all s.tools.unstamped = true

instance (s : Setting) (b : Batch) (a : Action) : Decidable (Guarded s b a) :=
  match a with
  | .drop _ => instDecidableTrue
  | .event _ => inferInstanceAs (Decidable (ite _ _ _))

/-- The sealed documents of a folder stand in files with the suffix. -/
def SealedNamed (folder : Folder) : Prop :=
  ∀ p c, folder.yaml.lookup p = some c → ∀ d ∈ c, isSealed d = true → isSOPSFile p = true

/-! ## 4. One write -/

def Settled (old c : Content) : Prop :=
  (∃ d, decoded c = [d]) ∨ (∀ d ∈ c, isSealed d = false) ∨ c.Sublist old

theorem Settled.of_sublist (h : Settled old c) (hsub : c'.Sublist c) : Settled old c' := by
  rcases h with ⟨d, hd⟩ | hnone | hold
  · have hdecode : (decoded c').Sublist [d] := hd ▸ hsub.filter _
    rcases List.sublist_singleton.mp hdecode with hnil | hone
    · refine .inr (.inl (fun x hx => ?_))
      by_contra hseal
      have hmem : x ∈ decoded c' := by
        refine List.mem_filter.mpr ⟨hx, ?_⟩
        rw [not_isBlank_of_isSealed (by simpa using hseal)]
        rfl
      rw [hnil] at hmem
      cases hmem
    · exact .inl ⟨d, hone⟩
  · exact .inr (.inl (fun x hx => hnone x (hsub.subset hx)))
  · exact .inr (.inr (hsub.trans hold))

structure Calm (s : Setting) (cold : Dict Path (List ColdBundleMember))
    (cur : Path → Option Content) : Prop where
  named : ∀ p c, cur p = some c → ∀ d ∈ c, isSealed d = true → isSOPSFile p = true
  settled : ∀ p c, cur p = some c → isSOPSFile p = true → Settled ((s.contentByPath.lookup p).getD []) c
  bundled : ∀ p ms, cold.lookup p = some ms → s.contentByPath.lookup p = none ∧
    (cur p).isSome = true ∧ ∀ m ∈ ms, m.sensitive = false → isSealed m.document = false

section Writes

variable {s : Setting} {b b' : Batch} {cold : Dict Path (List ColdBundleMember)}
  {cur : Path → Option Content} {edited : Path → Prop}
  {patched : Path → Identity → Prop} {p : Path} {c : Option Content}

theorem Calm.write (h : Calm s cold cur)
    (hname : ∀ c', c = some c' → ∀ d ∈ c', isSealed d = true → isSOPSFile p = true)
    (hset : ∀ c', c = some c' → isSOPSFile p = true → Settled ((s.contentByPath.lookup p).getD []) c')
    (hkept : s.contentByPath.lookup p = none → c.isSome = true) :
    Calm s cold (fun q => if q = p then c else cur q) where
  named := by
    intro q c' hq
    by_cases hqp : q = p
    · subst hqp
      rw [if_pos rfl] at hq
      exact hname c' hq
    · rw [if_neg hqp] at hq
      exact h.named q c' hq
  settled := by
    intro q c' hq
    by_cases hqp : q = p
    · subst hqp
      rw [if_pos rfl] at hq
      exact hset c' hq
    · rw [if_neg hqp] at hq
      exact h.settled q c' hq
  bundled := by
    intro q ms hms
    obtain ⟨hfree, hopen, hplain⟩ := h.bundled q ms hms
    refine ⟨hfree, ?_, hplain⟩
    by_cases hqp : q = p
    · subst hqp
      rw [if_pos rfl]
      exact hkept hfree
    · rwa [if_neg hqp]

variable {content written : Content} {edit : KustomizationFile → Option KustomizationFile}
  {doc : Document} {e : Event} {placement : PlacementResult}

theorem sealed_of_editDocument (h : editDocument content i f = some written) (hd : d ∈ written)
    (hseal : isSealed d = true) : d ∈ content := by
  unfold editDocument at h
  split at h
  · rename_i n hn
    split_ifs at h with hleft
    obtain ⟨edited, -, rfl⟩ := Option.map_eq_some_iff.mp h
    rcases List.mem_or_eq_of_mem_set hd with hold | rfl
    · exact hold
    · have hsops : n.sops = true := hseal
      simp [hsops] at hleft
  · cases h

theorem mem_editKustomization (h : editKustomization edit content = some written)
    (hd : d ∈ written) : d ∈ content ∨ isDirective d = true := by
  obtain ⟨n, k, k', -, -, -, -, rfl⟩ := editKustomization_eq_some h
  obtain ⟨x, hx, rfl⟩ := List.mem_map.mp hd
  cases hblank : x.isBlank with
  | true => exact .inl (by simpa [hblank] using hx)
  | false => exact .inr (by simp [isDirective])

theorem sealed_of_editKustomization (h : editKustomization edit content = some written)
    (hd : d ∈ written) (hseal : isSealed d = true) : ∃ d' ∈ content, isSealed d' = true := by
  obtain ⟨n, k, k', hone, -, -, -, rfl⟩ := editKustomization_eq_some h
  obtain ⟨x, hx, rfl⟩ := List.mem_map.mp hd
  cases hblank : x.isBlank with
  | true => exact ⟨x, hx, by simpa [hblank] using hseal⟩
  | false =>
    have hn : Document.node n ∈ content.filter (fun d => !d.isBlank) := by
      rw [hone]
      simp
    refine ⟨.node n, (List.mem_filter.mp hn).1, ?_⟩
    simpa [hblank, isSealed] using hseal

theorem Calm.rewrite (h : Calm s cold (s.current b)) (hwrite : Rewrite s edited patched b p c) :
    Calm s cold (fun q => if q = p then c else s.current b q) := by
  cases hwrite with
  | edit _ hcur hidx hedit =>
    refine h.write ?_ ?_ (fun _ => rfl)
    · rintro c' hc d hd hseal
      cases hc
      exact h.named p _ hcur d (sealed_of_editDocument hedit hd hseal) hseal
    · exact fun _ _ hp => (not_edited_of_isSOPSFile hp hidx hedit).elim
  | kustomization hcur hedit =>
    refine h.write ?_ ?_ (fun _ => rfl)
    · rintro c' hc d hd hseal
      cases hc
      obtain ⟨d', hd', hseal'⟩ := sealed_of_editKustomization hedit hd hseal
      exact h.named p _ hcur d' hd' hseal'
    · rintro c' hc -
      cases hc
      -- a kustomization is one document, so nothing can stand beside a secret
      obtain ⟨n, k, k', -, -, -, hone⟩ := decoded_editKustomization hedit
      exact .inl ⟨_, hone⟩
  | erase hread hcur hidx =>
    refine h.write ?_ ?_ (fun hfree => by simp [hfree] at hread)
    · intro c' hc d hd
      exact h.named p _ hcur d ((deleteDocument_sublist hc).subset hd)
    · intro c' hc hp
      exact (h.settled p _ hcur hp).of_sublist (deleteDocument_sublist hc)
  | patch authorInto id _ hid hfree =>
    refine h.write ?_ ?_ (fun _ => rfl)
    · rintro c' hc d hd hseal
      cases hc
      rw [List.mem_singleton.mp hd] at hseal
      cases hseal
    · rintro c' hc -
      cases hc
      exact .inl ⟨_, rfl⟩

theorem Calm.revises (h : Calm s cold (s.current b)) (hrev : Revises s edited patched b b') :
    Calm s cold (s.current b') :=
  buffers_invariant (fun _ _ _ hcalm hwrite => hcalm.rewrite hwrite) h hrev.2

/-! ## 5. One action -/

theorem isSealed_of_buildContentForWrite (hbuild : s.tools.buildContentForWrite e = .ok doc)
    (hsensitive : s.tools.isSensitive e.identifier = true) : isSealed doc = true := by
  unfold Tools.buildContentForWrite at hbuild
  split at hbuild
  · cases hbuild
  · rw [if_pos hsensitive] at hbuild
    split at hbuild
    · cases hbuild
      rfl
    · cases hbuild

theorem decoded_of_buildContentForWrite
    (hbuild : s.tools.buildContentForWrite e = .ok doc) : decoded [doc] = [doc] := by
  unfold Tools.buildContentForWrite at hbuild
  split at hbuild
  · cases hbuild
  · split_ifs at hbuild
    · split at hbuild
      · cases hbuild
        rfl
      · cases hbuild
    · cases hbuild
      rfl

theorem unsealed_of_creates (hnew : s.Creates e placement doc)
    (hplain : s.tools.isSensitive e.identifier = false)
    (hunstamped : e.object.all s.tools.unstamped = true) : isSealed doc = false := by
  have hbuilt := hnew.built
  have hplace : s.tools.isSensitive (Setting.placedEvent e placement).identifier = false := hplain
  unfold Tools.buildContentForWrite at hbuilt
  split at hbuilt
  · cases hbuilt
  · rename_i o ho
    rw [hplace] at hbuilt
    cases hbuilt
    obtain ⟨live, hlive, rfl⟩ := Option.map_eq_some_iff.mp ho
    rw [hlive] at hunstamped
    simp only [Option.all_some, Tools.unstamped, Bool.and_eq_true, Bool.not_eq_true'] at hunstamped
    cases placement.namespaceInherited with
    | false => exact hunstamped.1
    | true => exact hunstamped.2

/-- The destination of a new sensitive document, the condition and what it says. -/
theorem Guarded.sensitive (h : Guarded s b (.event e))
    (hsensitive : s.tools.isSensitive e.identifier = true) :
    (∀ p ∈ s.homes (.event e), isSOPSFile p = true) ∧
      (∀ placement doc, s.Creates e placement doc → isSOPSFile placement.path = true) ∧
      (Unsealable s.tools e → s.refusedInPlace b e = true) := by
  simp only [Guarded, hsensitive, if_true] at h
  refine ⟨h.1, fun placement doc hnew => h.2.1 _ ?_, h.2.2⟩
  simp [Setting.destinations, hnew.located]

theorem Guarded.plain (h : Guarded s b (.event e)) (hplain : s.tools.isSensitive e.identifier = false) :
    e.object.all s.tools.unstamped = true := by
  simpa only [Guarded, hplain, Bool.false_eq_true, if_false] using h

/-- In a file with the suffix every document that claims an identity is known to be sealed. -/
def KnowsSealed (s : Setting) : Prop :=
  ∀ dm ∈ s.store.documents, isSOPSFile dm.file = true → dm.claimsIdentity = true → dm.cause = .encrypted

theorem not_isSOPSFile_of_append (hknow : KnowsSealed s) (hsafe : s.store.fileIsAppendSafe p = true)
    (hplain : s.store.fileHoldsEncryptedDocument p = false) : isSOPSFile p = false := by
  by_contra hp
  obtain ⟨dm, hdm, rfl⟩ := document_of_fileIsAppendSafe hsafe
  have hfile : dm ∈ s.store.fileDocuments dm.file := List.mem_filter.mpr ⟨hdm, by simp⟩
  simp only [ManifestStore.fileIsAppendSafe, Bool.and_eq_true, List.all_eq_true] at hsafe
  have hcause := hknow dm hdm (by simpa using hp) (hsafe.2 dm hfile)
  have hnot := List.any_eq_false.mp hplain dm hfile
  exact hnot (decide_eq_true hcause)

theorem Calm.withEntry (h : Calm s b.coldBundles (s.current b)) (placement : PlacementResult) :
    Calm s b.coldBundles (s.current (s.withEntry b placement)) :=
  h.revises (withEntry_revises placement : Revises s (fun _ => False) (fun _ _ => False) b _)

/-- A new document joins members that are not sensitive, or it is the first. -/
theorem Calm.members (h : Calm s b.coldBundles (s.current b))
    (hopen : (s.current (s.withEntry b placement) placement.path).isSome = true →
      s.tools.isSensitive e.identifier = false ∧
        ∀ m ∈ (b.coldBundles.lookup placement.path).getD [], m.sensitive = false) :
    b.coldBundles.lookup placement.path = none ∨ (s.tools.isSensitive e.identifier = false ∧
        ∀ m ∈ (b.coldBundles.lookup placement.path).getD [], isSealed m.document = false) := by
  cases hold : b.coldBundles.lookup placement.path with
  | none => exact .inl rfl
  | some old =>
    obtain ⟨-, htake, hplace⟩ := (h.withEntry placement).bundled _ old hold
    obtain ⟨hsensitive, hmem⟩ := hopen htake
    rw [hold] at hmem
    exact .inr ⟨hsensitive, fun m hm => hplace m hm (hmem m hm)⟩

theorem Calm.effect (hknow : KnowsSealed s) (hgua : Guarded s b a)
    (h : Calm s b.coldBundles (s.current b)) (heffect : Effect s b a b') :
    Calm s b'.coldBundles (s.current b') := by
  cases heffect with
  | @append e placement doc _ hnew happend hbuf hcold =>
    obtain ⟨-, hsafe, hplain, -⟩ := locateNew_ok hnew.located
    obtain ⟨hsensitive, hunsealed⟩ := hplain happend
    have hdoc := unsealed_of_creates hnew hsensitive (hgua.plain hsensitive)
    have hp := not_isSOPSFile_of_append hknow (hsafe ▸ happend) hunsealed
    rw [hcold, current_eq_of_insert hbuf]
    refine (h.withEntry placement).write ?_ (fun _ _ hsops => by simp [hp] at hsops) (fun _ => rfl)
    rintro c' hc d hd hseal
    cases hc
    rcases List.mem_append.mp hd with hold | hnewer
    · cases hcur : s.current (s.withEntry b placement) placement.path with
      | none => simp [hcur] at hold
      | some cur =>
        rw [hcur] at hold
        exact (h.withEntry placement).named _ cur hcur d hold hseal
    · rw [List.mem_singleton.mp hnewer, hdoc] at hseal
      cases hseal
  | @cold e placement doc _ members hnew hfree hopen hmem hbuf hcold =>
    have hfirst := h.members hopen
    -- every member but the new one is unsealed, and the new one unless it is sensitive
    have hold : ∀ m ∈ members, isSealed m.document = true →
        m = ⟨e.identifier, doc, s.tools.isSensitive e.identifier⟩ := by
      intro m hm hseal
      rw [hmem.mem_iff, List.mem_append, List.mem_singleton] at hm
      refine hm.resolve_left (fun hm => ?_)
      rcases hfirst with hnone | ⟨-, hplain⟩
      · simp [hnone] at hm
      · rw [hplain m hm] at hseal
        cases hseal
    have hdoc : isSealed doc = true → s.tools.isSensitive e.identifier = true := by
      intro hseal
      by_contra hplain
      rw [Bool.not_eq_true] at hplain
      rw [unsealed_of_creates hnew hplain (hgua.plain hplain)] at hseal
      cases hseal
    have hmany : Settled ((s.contentByPath.lookup placement.path).getD [])
        (members.map ColdBundleMember.document) := by
      rcases hfirst with hnone | ⟨hplain, -⟩
      · rw [hnone, Option.getD_none, List.nil_append, List.perm_singleton] at hmem
        rw [hmem]
        exact .inl ⟨doc, decoded_of_buildContentForWrite hnew.built⟩
      · refine .inr (.inl (fun d hd => ?_))
        obtain ⟨m, hm, rfl⟩ := List.mem_map.mp hd
        by_contra hseal
        rw [Bool.not_eq_false] at hseal
        rw [hold m hm hseal] at hseal
        rw [hdoc hseal] at hplain
        cases hplain
    have hcalm := (h.withEntry placement).write (c := some (members.map ColdBundleMember.document))
      (p := placement.path) ?_ (fun c' hc _ => Option.some.inj hc ▸ hmany) (fun _ => rfl)
    · rw [hcold, current_eq_of_insert hbuf]
      refine ⟨hcalm.named, hcalm.settled, fun q ms hq => ?_⟩
      by_cases hqp : q = placement.path
      · subst hqp
        obtain rfl : members = ms := by simpa using hq
        refine ⟨hfree, by simp, fun m hm hsensitive => ?_⟩
        by_contra hseal
        rw [Bool.not_eq_false] at hseal
        rw [hold m hm hseal] at hsensitive hseal
        rw [hdoc hseal] at hsensitive
        cases hsensitive
      · exact hcalm.bundled q ms (by simpa [AList.lookup_insert_ne hqp] using hq)
    · rintro c' hc d hd hseal
      cases hc
      obtain ⟨m, hm, rfl⟩ := List.mem_map.mp hd
      rw [hold m hm hseal] at hseal
      exact (hgua.sensitive (hdoc hseal)).2.1 placement doc hnew
  | @whole e placement doc _ hnew hread hcount hbuf hcold =>
    rw [hcold, current_eq_of_insert hbuf]
    refine (h.withEntry placement).write ?_ ?_ (fun _ => rfl)
    · rintro c' hc d hd hseal
      cases hc
      rw [List.mem_singleton.mp hd] at hseal
      cases hsensitive : s.tools.isSensitive e.identifier with
      | true => exact (hgua.sensitive hsensitive).2.1 placement doc hnew
      | false =>
        rw [unsealed_of_creates hnew hsensitive (hgua.plain hsensitive)] at hseal
        cases hseal
    · rintro c' hc -
      cases hc
      exact .inl ⟨doc, decoded_of_buildContentForWrite hnew.built⟩
  | @reseal e dm doc _ hfound hcount hbuf hcold =>
    rw [hcold, current_eq_of_insert hbuf]
    refine h.write ?_ ?_ (fun _ => rfl)
    · rintro c' - d - -
      refine (hgua.sensitive hfound.sensitive).1 dm.file ?_
      simp [Setting.homes, hfound.upsert.1, hfound.found]
    · rintro c' hc -
      cases hc
      exact .inl ⟨doc, decoded_of_buildContentForWrite hfound.built⟩
  | revise hrev =>
    rw [hrev.1]
    exact h.revises hrev

theorem directives_of_revises (hsops : ∀ p, edited p → isSOPSFile p = true)
    (hrev : Revises s edited patched b b') (q : Path) :
    ∀ d ∈ s.heldAt b' q, d ∈ s.heldAt b q ∨ isDirective d = true := by
  refine buffers_invariant (s := s)
    (I := fun cur => ∀ q, ∀ d ∈ (cur q).getD [], d ∈ s.heldAt b q ∨ isDirective d = true)
    ?_ (fun q d hd => .inl hd) hrev.2 q
  intro b₁ p c hall hwrite q d hd
  dsimp only at hd
  by_cases hqp : q = p
  · subst hqp
    rw [if_pos rfl] at hd
    cases hwrite with
    -- every file that may be edited in place is sealed, and the editor leaves a sealed one alone
    | edit hp _ hidx hedit => exact (not_edited_of_isSOPSFile (hsops q hp) hidx hedit).elim
    | kustomization hcur hedit =>
      rcases mem_editKustomization hedit hd with hold | hdir
      · exact hall q d (by rwa [hcur])
      · exact .inr hdir
    | @erase _ cur _ i _ hcur _ =>
      cases hrest : deleteDocument cur i with
      | none => simp [hrest] at hd
      | some rest =>
        rw [hrest] at hd
        exact hall q d (by rw [hcur]; exact (deleteDocument_sublist hrest).subset hd)
    | patch authorInto id _ hid hfree =>
      rw [List.mem_singleton.mp hd]
      exact .inr (by simp [isDirective, Setting.inheritedDeletePatchDocument])
  · rw [if_neg hqp] at hd
    exact hall q d hd

theorem addsNoPlaintext_of_effect (hgua : Guarded s b a)
    (h : Calm s b.coldBundles (s.current b)) (heffect : Effect s b a b')
    (hsensitive : a.sensitive s.tools = true) (q : Path) :
    ∀ d ∈ s.heldAt b' q, d ∉ s.heldAt b q → isSealed d = true ∨ isDirective d = true := by
  -- the destination holds the sealed document alone, the other files are those after the entry
  have hplaced : ∀ (placement : PlacementResult) {doc : Document}, isSealed doc = true →
      b'.buffers = (s.withEntry b placement).buffers.insert placement.path (some [doc]) →
      ∀ d ∈ s.heldAt b' q, d ∉ s.heldAt b q → isSealed d = true ∨ isDirective d = true := by
    intro placement doc hdoc hbuf d hd hfresh
    rw [Setting.heldAt, current_insert hbuf] at hd
    split_ifs at hd with hq
    · rw [List.mem_singleton.mp hd]
      exact .inl hdoc
    · have hrev : Revises s (fun _ => False) (fun _ _ => False) b (s.withEntry b placement) :=
        withEntry_revises placement
      exact .inr ((directives_of_revises (fun _ hp => hp.elim) hrev q d hd).resolve_left hfresh)
  cases heffect with
  | append hnew happend hbuf hcold =>
    obtain ⟨-, -, hplace, -⟩ := locateNew_ok hnew.located
    have hnot : s.tools.isSensitive _ = false := (hplace happend).1
    rw [Action.sensitive, hnot] at hsensitive
    cases hsensitive
  | @cold e placement doc _ members hnew hfree hopen hmem hbuf hcold =>
    refine hplaced placement (isSealed_of_buildContentForWrite hnew.built hsensitive) (hbuf.trans ?_)
    rcases h.members hopen with hnone | ⟨hplace, -⟩
    · rw [hnone, Option.getD_none, List.nil_append, List.perm_singleton] at hmem
      rw [hmem]
      rfl
    · rw [Action.sensitive, hplace] at hsensitive
      cases hsensitive
  | whole hnew hread hcount hbuf hcold =>
    exact hplaced _ (isSealed_of_buildContentForWrite hnew.built hsensitive) hbuf
  | reseal hfound hcount hbuf hcold =>
    intro d hd hfresh
    rw [Setting.heldAt, current_insert hbuf] at hd
    split_ifs at hd with hq
    · rw [List.mem_singleton.mp hd]
      exact .inl (isSealed_of_buildContentForWrite hfound.built hfound.sensitive)
    · exact (hfresh hd).elim
  | revise hrev =>
    intro d hd hfresh
    refine .inr ((directives_of_revises (fun p hp => ?_) hrev q d hd).resolve_left hfresh)
    cases a with
    | drop a => cases hp
    | event e => exact (hgua.sensitive hsensitive).1 p hp

theorem placeNewDocument_unbuilt (hbuild : ∀ doc, s.tools.buildContentForWrite e ≠ .ok doc)
    (h : s.placeNewDocument b e placement = .ok r) :
    r = (b, .skippedUnsafe) ∧ s.contentByPath.lookup placement.path = none ∧
      s.current b placement.path ≠ none := by
  unfold Setting.placeNewDocument at h
  split_ifs at h with hap hnone hskip
  · unfold Setting.appendNewDocument at h
    split at h
    · cases h
    · rename_i doc hdoc
      exact (hbuild doc hdoc).elim
  · simp only [Bool.and_eq_true] at hskip
    cases h
    exact ⟨rfl, Option.isNone_iff_eq_none.mp hnone, Option.isSome_iff_ne_none.mp hskip.1⟩
  · unfold Setting.writeColdBundleMember at h
    split at h
    · cases h
    · rename_i doc hdoc
      exact (hbuild doc hdoc).elim
  · obtain ⟨doc, hdoc, -⟩ := writeWholeFile_cases h
    exact (hbuild doc hdoc).elim

theorem not_built_of_unsealable (inherited : Bool)
    (hsensitive : s.tools.isSensitive e.identifier = true) (hunsealable : Unsealable s.tools e)
    (hid : e'.identifier = e.identifier)
    (hobj : e'.object = e.object.map (Setting.stripNamespace inherited)) (doc : Document) :
    s.tools.buildContentForWrite e' ≠ .ok doc := by
  intro hbuild
  unfold Tools.buildContentForWrite at hbuild
  rw [hid, hsensitive, hobj] at hbuild
  cases hlive : e.object with
  | none => simp [hlive] at hbuild
  | some o =>
    simp only [Unsealable, hlive, Option.all_some, Bool.and_eq_true] at hunsealable
    have hcannot : s.tools.cannotSeal (Setting.stripNamespace inherited o) = true := by
      cases inherited with
      | false => exact hunsealable.1
      | true => exact hunsealable.2
    simp only [hlive, Option.map_some, if_true] at hbuild
    unfold Tools.cannotSeal at hcannot
    split at hcannot
    · rename_i err herr
      simp [herr] at hbuild
    · cases hcannot

theorem createNew_unsealable
    (hsensitive : s.tools.isSensitive e.identifier = true) (hunsealable : Unsealable s.tools e)
    (href : s.refusedInPlace b e = true) (h : s.createNew b e = .ok r) :
    r.1.buffers = b.buffers := by
  unfold Setting.createNew at h
  unfold Setting.refusedInPlace at href
  split at h
  · cases h
    rfl
  · rename_i placement hplace
    rw [hplace] at href
    split at h
    · cases h
    · rename_i b₁ outcome hput
      have hunbuilt : ∀ doc, s.tools.buildContentForWrite (Setting.placedEvent e placement) ≠ .ok doc :=
        not_built_of_unsealable placement.namespaceInherited hsensitive hunsealable rfl rfl
      obtain ⟨hsame, hfree, htake⟩ := placeNewDocument_unbuilt hunbuilt hput
      cases hsame
      cases h
      simpa [hfree, htake] using href

/-- A sensitive object that cannot be sealed is not written, and what is refused is left alone. -/
theorem failsClosed_of_guarded (hgua : Guarded s b a) : FailsClosed s b a := by
  rintro e rfl hpatch hdel hsensitive hunsealable b' hact p
  have href := (hgua.sensitive hsensitive).2.2 hunsealable
  -- nothing is built for a secret that cannot be sealed, so no buffer is written
  suffices hbuf : b'.buffers = b.buffers from current_congr hbuf
  simp only [Setting.act, Setting.applyEvent, hpatch, hdel, Bool.false_eq_true, if_false] at hact
  cases hup : s.applyUpsert b e with
  | error err =>
    rw [hup] at hact
    cases hact
  | ok r =>
    rw [hup] at hact
    cases hact
    unfold Setting.applyUpsert at hup
    split at hup
    · rename_i live id hlive _
      split at hup
      · exact createNew_unsealable hsensitive hunsealable href hup
      · rw [if_pos hsensitive] at hup
        unfold Setting.rewriteSensitive at hup
        split at hup
        · cases hup
        · rename_i b₁ outcome hwrite
          obtain ⟨doc, hdoc, -⟩ := writeWholeFile_cases hwrite
          refine (not_built_of_unsealable false hsensitive hunsealable rfl ?_ doc hdoc).elim
          rw [hlive]
          rfl
    · exact createNew_unsealable hsensitive hunsealable href hup

end Writes

/-! ## 6. One flush -/

section Flushes

variable {tools : Tools} {lookup : Lookup} {scope : Scope} {folder : Folder}
  {policy : Option PlacementPolicy} {pruneMode : PruneMode} {s : Setting} {work : Setting.Work}
  {b : Batch}

variable (hs : s = newWriteBatch tools lookup scope folder policy pruneMode)

include hs

theorem newWriteBatch_knowsSealed : KnowsSealed s := by
  subst hs
  intro dm hdm hp hclaim
  obtain ⟨f, r, -, hr, -, rfl⟩ := mem_documents.mp hdm
  obtain ⟨d, i, -, r₀, hr₀, rfl⟩ := mem_indexOneFile.mp hr
  have hpath : isSOPSFile f.path = true := hp
  -- a record of such a file is sealed, or a construct the editor refuses
  cases d with
  | blank text | comment text | invalid error text => cases hr₀
  | node n =>
    simp only [indexDocument] at hr₀
    split at hr₀
    · cases hr₀
    · split at hr₀
      · cases hr₀
        cases hclaim
      · rw [if_pos hpath] at hr₀
        split_ifs at hr₀
        · cases hr₀
          rfl
        · cases hr₀

def GuardedWork (s : Setting) (work : Setting.Work) : Prop :=
  Throughout s.act (Guarded s) {} (s.actions work)
  deriving Decidable

theorem calm_init (hname : SealedNamed folder) : Calm s ∅ (s.current {}) where
  named := fun p c hc => hname p c (yaml_of_contentByPath hs hc)
  settled := by
    intro p c hc _
    have hread : s.contentByPath.lookup p = some c := hc
    refine .inr (.inr ?_)
    rw [hread]
    exact List.Sublist.refl c
  bundled := fun p ms hms => by simp at hms

theorem calm_step (ha : a ∈ s.actions work) (hgua : Guarded s b a) (hact : s.act b a = .ok b')
    (h : Calm s b.coldBundles (s.current b)) :
    Effect s b a b' ∧ Calm s b'.coldBundles (s.current b') := by
  have hsound : StoreSound s := hs ▸ newWriteBatch_sound
  have heffect := act_effect hsound (fun d hd => drop_read hsound (hd ▸ ha)) hact
  exact ⟨heffect, h.effect (newWriteBatch_knowsSealed hs) hgua heffect⟩

section

variable (hname : SealedNamed folder)

include hname

section

variable (hgua : GuardedWork s work)

include hgua

theorem calm_perform (h : s.perform work = .ok b) : Calm s b.coldBundles (s.current b) := by
  rw [perform_eq] at h
  exact Throughout.invariant (P := fun b => Calm s b.coldBundles (s.current b))
    (fun b b' a ha hok hact hcalm => (calm_step hs ha hok hact hcalm).2) hgua
    (calm_init hs hname) h

theorem keepsApart_of_guarded : KeepsApart folder (s.worktree work folder) := by
  intro p c hc d hd hgain
  rcases worktree_cases s work folder with hsame | ⟨b, hpermitted, hflush⟩
  · rw [hsame] at hc
    simp [hc] at hgain
  · obtain ⟨-, -, -, -, hleaves⟩ := flush_ok hflush
    have hcalm := calm_perform hs hname hgua hpermitted
    rw [hleaves p] at hc
    by_cases hsame : s.current b p = s.contentByPath.lookup p
    · rw [leaves_of_same hsame] at hc
      simp [hc] at hgain
    · rw [leaves_of_changed hsame] at hc
      by_cases hp : isSOPSFile p = true
      · rcases hcalm.settled p c hc hp with ⟨x, hx⟩ | hnone | hold
        · have hx' : ∀ y ∈ c, y.isBlank = false → y = x := by
            intro y hy hblank
            have hmem : y ∈ decoded c := List.mem_filter.mpr ⟨hy, by rw [hblank]; rfl⟩
            rwa [hx, List.mem_singleton] at hmem
          constructor
          · intro hseal
            rw [hx, hx' d hd (not_isBlank_of_isSealed hseal)]
          · intro hplain d' hd'
            by_contra hseal
            rw [Bool.not_eq_false] at hseal
            have heq := (hx' d hd (not_isBlank_of_isPlain hplain)).trans
              (hx' d' hd' (not_isBlank_of_isSealed hseal)).symm
            rw [heq, not_isPlain_of_isSealed hseal] at hplain
            cases hplain
        · refine ⟨fun hseal => ?_, fun _ => hnone⟩
          rw [hnone d hd] at hseal
          cases hseal
        · -- the documents of the file are some of those that were read
          cases hread : s.contentByPath.lookup p with
          | none =>
            rw [hread, Option.getD_none, List.sublist_nil] at hold
            rw [hold] at hd
            cases hd
          | some old =>
            rw [hread, Option.getD_some] at hold
            rw [yaml_of_contentByPath hs hread, Option.getD_some] at hgain
            exact absurd (hold.count_le d) (Nat.not_le.mpr hgain)
      · have hnone : ∀ d' ∈ c, isSealed d' = false := by
          intro d' hd'
          by_contra hseal
          exact hp (hcalm.named p c hc d' hd' (by simpa using hseal))
        refine ⟨fun hseal => ?_, fun _ => hnone⟩
        rw [hnone d hd] at hseal
        cases hseal

theorem confined_of_guarded : Confined s work folder where
  sealed := Throughout.mono (P := fun b => Calm s b.coldBundles (s.current b))
    (fun b b' a ha hok hact hcalm => (calm_step hs ha hok hact hcalm).2)
    (fun b a ha hok hcalm hsensitive b' hact =>
      addsNoPlaintext_of_effect hok hcalm (calm_step hs ha hok hact hcalm).1 hsensitive)
    hgua (calm_init hs hname)
  apart := keepsApart_of_guarded hs hname hgua
  closed := Throughout.mono (P := fun _ => True) (fun _ _ _ _ _ _ _ => trivial)
    (fun _ _ _ hok _ => failsClosed_of_guarded hok) hgua trivial
  failed := by
    intro err herr
    simp only [Setting.worktree, Setting.run, herr]

theorem sealedNamed_worktree : SealedNamed (s.worktree work folder) := by
  intro p c hc
  rcases worktree_cases s work folder with hsame | ⟨b, hpermitted, hflush⟩
  · rw [hsame] at hc
    exact hname p c hc
  · obtain ⟨-, -, -, -, hleaves⟩ := flush_ok hflush
    rw [hleaves p] at hc
    by_cases hsame : s.current b p = s.contentByPath.lookup p
    · rw [leaves_of_same hsame] at hc
      exact hname p c hc
    · rw [leaves_of_changed hsame] at hc
      exact (calm_perform hs hname hgua hpermitted).named p c hc

end

end

end Flushes

/-! ## 7. Runs -/

def sealingTools : Tools :=
  { literalTools with
    sensitive := fun group resource => decide (group = "" ∧ resource = "secrets")
    encrypt := fun o => .ok { identity := identityOfObject o, body := "ENC" } }

def coreLookup : Lookup where
  ready := true
  byGVK := fun apiVersion kind =>
    if apiVersion = "v1" ∧ kind = "Secret" then some ⟨⟨"", "v1", "secrets"⟩, true, true⟩
    else configMapLookup.byGVK apiVersion kind

def secret (ns name : String) : Object := ⟨"", "v1", "Secret", ns, name, ""⟩

def secretId (ns name : String) : ResourceIdentifier := ⟨"", "v1", "secrets", ns, name⟩

def samePolicy (template : String) : PlacementPolicy where
  byType := (AList.insert "v1/secrets".toList template.toList ∅).insert
    "v1/configmaps".toList template.toList

def storeSecret (template : String) : Request where
  tools := sealingTools
  lookup := coreLookup
  policy := some (samePolicy template)
  work := .events [{ identifier := secretId "prod" "token", object := some (secret "prod" "token") }]

def storeConfigMap (template : String) : Request :=
  { storeSecret template with
    work := .events [{ identifier := configMapId "prod" "token",
                       object := some (configMap "prod" "token") }] }

def plainTemplate : String := "\x7bnamespace\x7d/\x7bname\x7d.yaml"

def suffixTemplate : String := "\x7bnamespace\x7d/\x7bname\x7d\x7bsensitiveSuffix\x7d"

end GitopsReverser.Flush
