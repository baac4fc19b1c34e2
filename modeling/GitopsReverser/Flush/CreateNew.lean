import GitopsReverser.Flush.Scope

/-!
# CreateNew — what a new resource does to the files that are there

A new document goes to the end of a file whose documents are all managed, to a path without a file,
or over the one document of a file the store does not manage. The kustomization of its folder gains
an entry first.
-/

namespace GitopsReverser.Flush

open Reasoning Manifest
open Git (Path PruneMode)

/-! ## 1. The batch after one creation -/

section Placing

variable {s : Setting} {e : Event} {b : Batch} {placement : PlacementResult} {outcome : UpsertOutcome}

def Setting.placed (s : Setting) (placement : PlacementResult) (doc : Document) : Option Content :=
  let cur := s.current (s.withEntry {} placement) placement.path
  if placement.append then some (appendYAMLDocument (cur.getD []) doc)
  else match cur with
    | none => some [doc]
    | some c =>
      if 1 < documentCount c ∨ c = [doc] ∨ s.tools.semanticallyEqual c [doc] then some c
      else some [doc]

theorem placed_of_unguarded {doc : Document} (happend : placement.append = false)
    (h : ¬ ∃ c, s.current (s.withEntry {} placement) placement.path = some c ∧
      (1 < documentCount c ∨ c = [doc] ∨ s.tools.semanticallyEqual c [doc] = true)) :
    s.placed placement doc = some [doc] := by
  simp only [Setting.placed, happend, Bool.false_eq_true, if_false]
  split
  · rfl
  · rename_i c hc
    exact if_neg (fun hspared => h ⟨c, hc, hspared⟩)

theorem current_withEntry (placement : PlacementResult) (q : Path) :
    s.current (s.withEntry {} placement) q = s.contentByPath.lookup q ∨
      ∃ k old c entry, placement.kustomization = some k ∧ q = k.path ∧
        s.contentByPath.lookup q = some old ∧
        editKustomization (appendResource entry) old = some c ∧
        s.current (s.withEntry {} placement) q = some c := by
  unfold Setting.withEntry
  split
  · rename_i k hk
    simp only [Setting.appendKustomizationResource, Setting.editKustomizationAt, current_empty]
    generalize hr : (s.contentByPath.lookup k.path).bind (editKustomization _) = r
    cases r with
    | none => exact .inl rfl
    | some c =>
      obtain ⟨old, hold, hedit⟩ := Option.bind_eq_some_iff.mp hr
      by_cases hq : q = k.path
      · subst hq
        exact .inr ⟨k, old, c, _, hk, rfl, hold, hedit, by simp [Batch.put]⟩
      · exact .inl (by simp [Batch.put, hq])
  · exact .inl rfl

theorem current_withEntry_of_new {placement : PlacementResult} {q : Path}
    (h : s.contentByPath.lookup q = none) : s.current (s.withEntry {} placement) q = none := by
  rcases current_withEntry (s := s) placement q with heq | ⟨_, old, _, _, _, _, hold, _⟩
  · rw [heq, h]
  · rw [h] at hold
    cases hold

theorem placeNewDocument_current {r : Batch × UpsertOutcome}
    (h : s.placeNewDocument (s.withEntry {} placement) e placement = .ok r) :
    ∃ doc, s.tools.buildContentForWrite e = .ok doc ∧
      ∀ q, s.current r.1 q = if q = placement.path then s.placed placement doc
        else s.current (s.withEntry {} placement) q := by
  unfold Setting.placeNewDocument at h
  by_cases happend : placement.append = true
  · rw [if_pos happend] at h
    unfold Setting.appendNewDocument at h
    split at h
    · cases h
    · rename_i doc hdoc
      cases h
      refine ⟨doc, hdoc, fun q => ?_⟩
      simp [Setting.placed, happend]
  · rw [if_neg happend] at h
    by_cases hnew : (s.contentByPath.lookup placement.path).isNone = true
    · -- a path that was not read has no buffer yet and no members waiting
      have hcur : s.current (s.withEntry {} placement) placement.path = none :=
        current_withEntry_of_new (Option.isNone_iff_eq_none.mp hnew)
      rw [if_pos hnew, if_neg (by simp [hcur])] at h
      unfold Setting.writeColdBundleMember at h
      split at h
      · cases h
      · rename_i doc hdoc
        cases h
        refine ⟨doc, hdoc, fun q => ?_⟩
        refine (current_insert rfl).trans ?_
        simp [Setting.placed, happend, hcur]
    · rw [if_neg hnew] at h
      unfold Setting.writeWholeFile at h
      split at h
      · cases h
      · rename_i doc hdoc
        refine ⟨doc, hdoc, fun q => ?_⟩
        simp only [Setting.placed, happend, Bool.false_eq_true, if_false]
        cases hcur : s.current (s.withEntry {} placement) placement.path with
        | none =>
          simp only [hcur] at h
          cases h
          simp
        | some cur =>
          simp only [hcur] at h
          have hkept : ∀ q, s.current (s.withEntry {} placement) q =
              if q = placement.path then some cur else s.current (s.withEntry {} placement) q := by
            intro q
            by_cases hq : q = placement.path
            · rw [if_pos hq, hq, hcur]
            · rw [if_neg hq]
          by_cases hcount : 1 < documentCount cur
          · rw [if_pos hcount] at h
            cases h
            simpa [hcount] using hkept q
          · rw [if_neg hcount] at h
            by_cases hsame : cur = [doc] ∨ s.tools.semanticallyEqual cur [doc] = true
            · rw [if_pos hsame] at h
              cases h
              simpa [hsame] using hkept q
            · rw [if_neg hsame] at h
              cases h
              simp [hcount, hsame]

theorem createNew_current (h : s.createNew {} e = .ok (b, outcome)) :
    (∃ err, locateNew s.store s.policy (s.placementRequest e) = .error err ∧
      s.current b = s.contentByPath.lookup) ∨
    ∃ placement doc, locateNew s.store s.policy (s.placementRequest e) = .ok placement ∧
      s.tools.buildContentForWrite (Setting.placedEvent e placement) = .ok doc ∧
      ∀ q, s.current b q = if q = placement.path then s.placed placement doc
        else s.current (s.withEntry {} placement) q := by
  unfold Setting.createNew at h
  split at h
  · rename_i err herr
    cases h
    exact .inl ⟨err, herr, rfl⟩
  · rename_i placement hpla
    split at h
    · cases h
    · rename_i b₁ outcome₁ hput
      obtain ⟨doc, hdoc, hcur⟩ := placeNewDocument_current hput
      refine .inr ⟨placement, doc, hpla, hdoc, fun q => ?_⟩
      rw [← hcur q]
      -- what follows is bookkeeping
      split at h
      · cases h
        rfl
      · split at h
        · cases h
          exact current_congr rfl
        · cases h
          exact current_congr (by simp)

end Placing

/-! ## 2. What the files keep -/

def Keeps (p : Path) (old new : Content) : Prop :=
  if isKustomizationFile p then
    new = old ∨ ∃ entry, editKustomization (appendResource entry) old = some new
  else decoded old <+: decoded new

theorem Keeps.refl (p : Path) (c : Content) : Keeps p c c := by
  unfold Keeps
  split
  · exact .inl rfl
  · exact List.prefix_refl _

/-- Nothing that was in the folder is gone. -/
structure KeepsAll (folder folder' : Folder) : Prop where
  others : folder'.others = folder.others
  symlinks : folder'.symlinks = folder.symlinks
  ignoreFile : folder'.ignoreFile = folder.ignoreFile
  files : ∀ p old, folder.yaml.lookup p = some old →
    ∃ new, folder'.yaml.lookup p = some new ∧ Keeps p old new

/-- A file stands at the destination that the new document does not extend, and the guard of
    `writeWholeFile` lets the write through: the file was not read, or it holds one document at most
    and not the new one. -/
def Overwrites (s : Setting) (folder : Folder) (placement : PlacementResult) (doc : Document) : Prop :=
  placement.append = false ∧
    (∃ old, folder.yaml.lookup placement.path = some old ∧ ¬ Keeps placement.path old [doc]) ∧
    ∀ cur, s.current (s.withEntry {} placement) placement.path = some cur →
      documentCount cur ≤ 1 ∧ cur ≠ [doc] ∧ s.tools.semanticallyEqual cur [doc] = false

section Frame

variable {tools : Tools} {lookup : Lookup} {scope : Scope} {folder folder' : Folder}
  {policy : Option PlacementPolicy} {pruneMode : PruneMode} {s : Setting} {e : Event} {b : Batch}
  {outcome : UpsertOutcome} {placement : PlacementResult} {p : Path} {old : Content}

variable (hs : s = newWriteBatch tools lookup scope folder policy pruneMode)

include hs

theorem not_kustomization_of_append_safe
    (hval : validateResolvedPlacementPath p = true) (h : s.store.fileIsAppendSafe p = true) :
    isKustomizationFile p = false := by
  obtain ⟨dm, hmem, rfl⟩ := document_of_fileIsAppendSafe h
  simp only [validateResolvedPlacementPath, Bool.and_eq_true, decide_eq_true_eq] at hval
  by_contra hname
  rw [Bool.not_eq_false] at hname
  have hall := allows_of_isKustomizationFile hname (filepathToSlash_of_notMem hval.1.1.2.1)
  rw [not_allows_of_document hs hmem] at hall
  cases hall

omit hs in
theorem keeps_of_flush {new : Content} (hold : folder.yaml.lookup p = some old)
    (hlook : folder'.yaml.lookup p = s.leaves b folder p)
    (hcur : s.current b p = some new) (hkept : Keeps p old new) :
    ∃ new, folder'.yaml.lookup p = some new ∧ Keeps p old new := by
  by_cases hsame : s.current b p = s.contentByPath.lookup p
  · rw [leaves_of_same hsame, hold] at hlook
    exact ⟨old, hlook, .refl p old⟩
  · rw [leaves_of_changed hsame, hcur] at hlook
    exact ⟨new, hlook, hkept⟩

section

variable (hpla : locateNew s.store s.policy (s.placementRequest e) = .ok placement)

include hpla

theorem keeps_of_entry (hold : folder.yaml.lookup p = some old)
    (hlook : folder'.yaml.lookup p = s.leaves b folder p)
    (hcur : s.current b p = s.current (s.withEntry {} placement) p) :
    ∃ new, folder'.yaml.lookup p = some new ∧ Keeps p old new := by
  rcases current_withEntry (s := s) placement p with heq | ⟨k, old', c, entry, hk, rfl, hread, hedit, hc⟩
  · rw [leaves_of_same (hcur.trans heq), hold] at hlook
    exact ⟨old, hlook, .refl p old⟩
  · obtain ⟨-, dir, hdir⟩ := (locateNew_ok hpla).2.2.2 k hk
    have hsrc := yaml_of_contentByPath hs hread
    rw [hold, Option.some.injEq] at hsrc
    subst hsrc
    refine keeps_of_flush hold hlook (hcur.trans hc) ?_
    rw [Keeps, if_pos ((kusts_path hs hdir).1)]
    exact .inr ⟨entry, hedit⟩

theorem keeps_of_append
    (happend : placement.append = true) (hold : folder.yaml.lookup placement.path = some old)
    (doc : Document) :
    ∃ new, s.placed placement doc = some new ∧ Keeps placement.path old new := by
  obtain ⟨hval, hsafe, -, hkust⟩ := locateNew_ok hpla
  rw [happend] at hsafe
  have hname := not_kustomization_of_append_safe hs hval hsafe.symm
  have hread : s.contentByPath.lookup placement.path = some old := by
    have hsome := contentByPath_of_fileIsAppendSafe (hs ▸ newWriteBatch_sound) hsafe.symm
    obtain ⟨c, hc⟩ := Option.isSome_iff_exists.mp hsome
    rw [hc, ← yaml_of_contentByPath hs hc, hold]
  have hcur : s.current (s.withEntry {} placement) placement.path = some old := by
    rcases current_withEntry (s := s) placement placement.path with heq | ⟨k, _, _, _, hk, hpath, _⟩
    · rw [heq, hread]
    · obtain ⟨-, dir, hdir⟩ := hkust k hk
      rw [hpath, (kusts_path hs hdir).1] at hname
      cases hname
  refine ⟨appendYAMLDocument old doc, by simp [Setting.placed, happend, hcur], ?_⟩
  rw [Keeps, if_neg (by simp [hname]), appendYAMLDocument]
  simp only [decoded, List.filter_append]
  exact List.prefix_append _ _

end

end Frame

/-! ## 3. A file that happens to have the path -/

def occupiedFolder (disallowed : Option String) : Folder :=
  { yaml := (∅ : Tree).insert "prod/configmaps/x.yaml".toList
      [.node { identity := ⟨"v1", "ConfigMap", "prod", "y"⟩, disallowed := disallowed }] }

def occupiedSetting (disallowed : Option String) : Setting :=
  newWriteBatch literalTools configMapLookup {} (occupiedFolder disallowed) none .unset

def createX : Event :=
  { identifier := configMapId "prod" "x", object := some (configMap "prod" "x") }

end GitopsReverser.Flush
