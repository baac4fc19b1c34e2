import GitopsReverser.Manifest.KustomizationEdit

/-!
# ConsistentEdits — folding the routed edits of one object

The slots of an object propose edits of override entries; `collectConsistentEdits` keeps one edit
for each key and refuses when two proposals ask for different values under one key. A key has no
room for the name of an entry, and a new entry has no index: two new entries share a key.
-/

namespace GitopsReverser.Override

open Reasoning Manifest
open Git (Path)

/-! ## 1. The fold -/

def sectionOf : OverrideValue → String
  | .newName _ | .newTag _ | .digest _ => "images"
  | .count _ => "replicas"

def fieldOf : OverrideValue → String
  | .newName _ => "newName"
  | .newTag _ => "newTag"
  | .digest _ => "digest"
  | .count _ => "count"

structure EditKey where
  path : Path
  section_ : String
  index : Nat
  field : String
  deriving DecidableEq, Repr

def editKey (e : OverrideEdit) : EditKey :=
  ⟨e.kustomizationPath, sectionOf e.value, e.entryIndex, fieldOf e.value⟩

def EditKey.before (a b : EditKey) : Bool :=
  if a.path ≠ b.path then decide (a.path < b.path)
  else if a.section_ ≠ b.section_ then decide (a.section_ < b.section_)
  else if a.index ≠ b.index then decide (a.index < b.index)
  else decide (a.field < b.field)

/-- The body of the loop. Under one key the field is the same, so that comparing the values is
    comparing their texts. -/
def fileEdit (byKey : Dict EditKey OverrideEdit) (e : OverrideEdit) :
    Option (Dict EditKey OverrideEdit) :=
  match byKey.lookup (editKey e) with
  | some prev => if prev.value ≠ e.value then none else some (byKey.insert (editKey e) e)
  | none => some (byKey.insert (editKey e) e)

def collectConsistentEdits (edits : List OverrideEdit) : Option (List OverrideEdit) :=
  (edits.foldlM fileEdit ∅).map (fun byKey =>
    (byKey.entries.map Sigma.snd).insertionSort (fun a b => !(editKey b).before (editKey a)))

/-! ## 2. What the fold keeps -/

/-- Every edit filed so far is there by its key, with its value, and nothing else is. -/
structure Filed (done : List OverrideEdit) (byKey : Dict EditKey OverrideEdit) : Prop where
  present : ∀ e ∈ done, ∃ e', byKey.lookup (editKey e) = some e' ∧ e'.value = e.value
  known : ∀ k e, byKey.lookup k = some e → e ∈ done ∧ editKey e = k

variable {done edits : List OverrideEdit} {byKey byKey' : Dict EditKey OverrideEdit}
  {e : OverrideEdit}

theorem filed_nil : Filed [] ∅ where
  present := fun _ he => nomatch he
  known := fun _ _ h => nomatch h

theorem Filed.insert (h : Filed done byKey)
    (hsame : ∀ prev, byKey.lookup (editKey e) = some prev → prev.value = e.value) :
    Filed (done ++ [e]) (byKey.insert (editKey e) e) where
  present := by
    intro x hx
    rw [lookup_insert_ite]
    split_ifs with hkey
    · refine ⟨e, rfl, ?_⟩
      rcases List.mem_append.mp hx with hx | hx
      · obtain ⟨prev, hprev, hval⟩ := h.present x hx
        rw [hkey] at hprev
        rw [← hsame prev hprev, hval]
      · rw [List.mem_singleton.mp hx]
    · rcases List.mem_append.mp hx with hx | hx
      · exact h.present x hx
      · rw [List.mem_singleton.mp hx] at hkey
        exact absurd rfl hkey
  known := by
    intro k x hlook
    rw [lookup_insert_ite] at hlook
    split_ifs at hlook with hkey
    · cases hlook
      exact ⟨by simp, hkey.symm⟩
    · obtain ⟨hmem, hk⟩ := h.known k x hlook
      exact ⟨List.mem_append_left _ hmem, hk⟩

/-- One turn of the loop: the edit is filed, or it disagrees with one filed under its key. -/
theorem Filed.step (h : Filed done byKey) (e : OverrideEdit) :
    (∃ byKey', fileEdit byKey e = some byKey' ∧ Filed (done ++ [e]) byKey') ∨
      (fileEdit byKey e = none ∧ ∃ prev ∈ done, editKey prev = editKey e ∧ prev.value ≠ e.value) := by
  unfold fileEdit
  cases hprev : byKey.lookup (editKey e) with
  | none =>
    refine .inl ⟨_, rfl, h.insert (fun prev hp => ?_)⟩
    rw [hprev] at hp
    cases hp
  | some prev =>
    obtain ⟨hmem, hkey⟩ := h.known _ prev hprev
    by_cases hval : prev.value = e.value
    · refine .inl ⟨byKey.insert (editKey e) e, by simp [hval], h.insert (fun p hp => ?_)⟩
      rw [hprev] at hp
      cases hp
      exact hval
    · exact .inr ⟨by simp [hval], prev, hmem, hkey, hval⟩

theorem filed_run (h : Filed done byKey) (edits : List OverrideEdit) :
    (∃ byKey', edits.foldlM fileEdit byKey = some byKey' ∧ Filed (done ++ edits) byKey') ∨
      (edits.foldlM fileEdit byKey = none ∧ ∃ a ∈ done ++ edits, ∃ b ∈ done ++ edits,
        editKey a = editKey b ∧ a.value ≠ b.value) := by
  induction edits generalizing done byKey with
  | nil => exact .inl ⟨byKey, rfl, by simpa using h⟩
  | cons e edits ih =>
    have hsplit : done ++ e :: edits = done ++ [e] ++ edits := by simp
    rw [List.foldlM_cons, hsplit]
    rcases h.step e with ⟨byKey', hstep, hfile⟩ | ⟨hstep, prev, hprev, hkey, hval⟩
    · rw [hstep]
      exact ih hfile
    · rw [hstep]
      exact .inr ⟨rfl, prev, by simp [hprev], e, by simp, hkey, hval⟩

/-- What `collectConsistentEdits` answers: under each key proposed one of its proposals, with the
    value that all of them ask for; or nothing, when two of them disagree. -/
theorem collect_cases (edits : List OverrideEdit) : (∃ out, collectConsistentEdits edits = some out ∧
        (∀ e ∈ edits, ∃ e' ∈ out, editKey e' = editKey e ∧ e'.value = e.value) ∧
        (∀ e ∈ out, e ∈ edits) ∧
        (∀ a ∈ out, ∀ b ∈ out, editKey a = editKey b → a = b)) ∨
      (collectConsistentEdits edits = none ∧
        ∃ a ∈ edits, ∃ b ∈ edits, editKey a = editKey b ∧ a.value ≠ b.value) := by
  unfold collectConsistentEdits
  rcases filed_run filed_nil edits with ⟨byKey, hrun, hfile⟩ | ⟨hrun, hconflict⟩
  · left
    rw [hrun]
    have hmem : ∀ e, e ∈ (byKey.entries.map Sigma.snd).insertionSort
        (fun a b => !(editKey b).before (editKey a)) ↔ byKey.lookup (editKey e) = some e := by
      intro e
      rw [List.mem_insertionSort, List.mem_map]
      constructor
      · rintro ⟨⟨k, x⟩, hx, rfl⟩
        have hlook := mem_entries_iff.mp hx
        rw [(hfile.known k x hlook).2]
        exact hlook
      · exact fun h => ⟨⟨editKey e, e⟩, mem_entries_iff.mpr h, rfl⟩
    refine ⟨_, rfl, fun e he => ?_, fun e he => ?_, fun a ha b hb hkey => ?_⟩
    · obtain ⟨e', hlook, hval⟩ := hfile.present e he
      have hkey := (hfile.known _ e' hlook).2
      exact ⟨e', (hmem e').mpr (by rw [hkey]; exact hlook), hkey, hval⟩
    · exact (hfile.known _ e ((hmem e).mp he)).1
    · have ha := (hmem a).mp ha
      rw [hkey, (hmem b).mp hb] at ha
      exact (Option.some.inj ha).symm
  · right
    rw [hrun]
    exact ⟨rfl, hconflict⟩

/-! ## 3. Proposals for one entry -/

/-- The two edits are about one field of one entry: an update finds its entry by index, a new entry
    is named. -/
structure SameField (a b : OverrideEdit) : Prop where
  path : a.kustomizationPath = b.kustomizationPath
  section_ : sectionOf a.value = sectionOf b.value
  field : fieldOf a.value = fieldOf b.value
  create : a.create = b.create
  entry : if a.create then a.entryName = b.entryName else a.entryIndex = b.entryIndex

instance (a b : OverrideEdit) : Decidable (SameField a b) :=
  decidable_of_iff (a.kustomizationPath = b.kustomizationPath ∧
      sectionOf a.value = sectionOf b.value ∧ fieldOf a.value = fieldOf b.value ∧
      a.create = b.create ∧
      (if a.create then a.entryName = b.entryName else a.entryIndex = b.entryIndex))
    ⟨fun ⟨hp, hs, hf, hc, he⟩ => ⟨hp, hs, hf, hc, he⟩,
      fun ⟨hp, hs, hf, hc, he⟩ => ⟨hp, hs, hf, hc, he⟩⟩

/-- Two proposals ask for different values of one field of one entry. -/
def Conflicting (edits : List OverrideEdit) : Prop :=
  ∃ a ∈ edits, ∃ b ∈ edits, SameField a b ∧ a.value ≠ b.value

/-- No routed edit is lost: each proposal has an edit of its own entry in the output, and only
    proposals that really conflict are refused. -/
structure RoutesAll (edits : List OverrideEdit) : Prop where
  kept : ∀ out, collectConsistentEdits edits = some out →
    ∀ e ∈ edits, ∃ e' ∈ out, SameField e e' ∧ e'.value = e.value
  refused : collectConsistentEdits edits = none → Conflicting edits

/-- The key tells apart all the entries the proposals are about. -/
def KeysTellApart (edits : List OverrideEdit) : Prop :=
  ∀ a ∈ edits, ∀ b ∈ edits, editKey a = editKey b → SameField a b

theorem SameField.symm {a b : OverrideEdit} (h : SameField a b) : SameField b a where
  path := h.path.symm
  section_ := h.section_.symm
  field := h.field.symm
  create := h.create.symm
  entry := by
    have hentry := h.entry
    rw [h.create] at hentry
    split_ifs at hentry ⊢ with hcreate
    · exact hentry.symm
    · exact hentry.symm

theorem SameField.trans {a b c : OverrideEdit} (hab : SameField a b) (hbc : SameField b c) :
    SameField a c where
  path := hab.path.trans hbc.path
  section_ := hab.section_.trans hbc.section_
  field := hab.field.trans hbc.field
  create := hab.create.trans hbc.create
  entry := by
    have hfirst := hab.entry
    have hsecond := hbc.entry
    rw [← hab.create] at hsecond
    split_ifs at hfirst hsecond ⊢ with hcreate
    · exact hfirst.trans hsecond
    · exact hfirst.trans hsecond

theorem SameField.editKey_eq {a b : OverrideEdit} (h : SameField a b)
    (ha : a.create = true → a.entryIndex = 0) (hb : b.create = true → b.entryIndex = 0) :
    editKey a = editKey b := by
  have hindex : a.entryIndex = b.entryIndex := by
    have hentry := h.entry
    split_ifs at hentry with hcreate
    · rw [ha hcreate, hb (h.create ▸ hcreate)]
    · exact hentry
  simp only [editKey, h.path, h.section_, h.field, hindex]

/-- The fold loses no edit exactly when its key tells the proposed entries apart, or when it refuses
    for a real conflict. New entries are proposed without an index. -/
theorem routesAll_iff (edits : List OverrideEdit)
    (hcreate : ∀ e ∈ edits, e.create = true → e.entryIndex = 0) :
    RoutesAll edits ↔ Conflicting edits ∨ KeysTellApart edits := by
  rcases collect_cases edits with ⟨out, hout, hkept, hknown, hsole⟩ | ⟨hnone, a, ha, b, hb, hkey, hne⟩
  · constructor
    · intro h
      refine .inr (fun a ha b hb hkey => ?_)
      obtain ⟨a', ha', hsame, -⟩ := h.kept out hout a ha
      obtain ⟨b', hb', hsame', -⟩ := h.kept out hout b hb
      -- one edit stands under the key of both
      have hindex := fun x hx => hcreate x (hknown x hx)
      have heq : a' = b' := by
        refine hsole a' ha' b' hb' ?_
        rw [← hsame.editKey_eq (hcreate a ha) (hindex a' ha'), hkey,
          hsame'.editKey_eq (hcreate b hb) (hindex b' hb')]
      subst heq
      exact hsame.trans hsame'.symm
    · intro h
      refine ⟨fun out' hout' e he => ?_, fun hnone => ?_⟩
      · rw [hout] at hout'
        cases hout'
        obtain ⟨e', he', hkey, hvalue⟩ := hkept e he
        rcases h with ⟨a, ha, b, hb, hsame, hne⟩ | hapart
        · -- a real conflict would have been refused
          obtain ⟨a', ha', hkeya, hvaluea⟩ := hkept a ha
          obtain ⟨b', hb', hkeyb, hvalueb⟩ := hkept b hb
          have heq : a' = b' := by
            refine hsole a' ha' b' hb' ?_
            rw [hkeya, hkeyb]
            exact hsame.editKey_eq (hcreate a ha) (hcreate b hb)
          rw [heq, hvalueb] at hvaluea
          exact absurd hvaluea.symm hne
        · exact ⟨e', he', hapart e he e' (hknown e' he') hkey.symm, hvalue⟩
      · rw [hout] at hnone
        cases hnone
  · constructor
    · intro h
      exact .inl (h.refused hnone)
    · intro h
      refine ⟨fun out hout => ?_, fun _ => ?_⟩
      · rw [hnone] at hout
        cases hout
      · rcases h with hconflict | hapart
        · exact hconflict
        · exact ⟨a, ha, b, hb, hapart a ha b hb hkey, hne⟩

/-! ## 4. Two new entries -/

def overlay : Path := "overlays/prod/kustomization.yaml".toList

def authored (image tag : String) : OverrideEdit :=
  ⟨overlay, true, 0, image.toList, .newTag tag⟩

def updated (index : Nat) (image tag : String) : OverrideEdit :=
  ⟨overlay, false, index, image.toList, .newTag tag⟩

theorem updates_and_one_creation_routed :
    RoutesAll [updated 1 "nginx" "1.27", updated 2 "redis" "7.4", authored "busybox" "1.36"] :=
  (routesAll_iff _ (by decide)).mpr (.inr (by
    unfold KeysTellApart
    decide))

-- Both images of the base are raised to the same tag: one of the two entries is never authored.
-- Raised to different tags, they are refused as if they were one entry.
theorem creations_share_a_key :
    (collectConsistentEdits [authored "nginx" "2.0", authored "redis" "2.0"] =
        some [authored "redis" "2.0"] ∧
      collectConsistentEdits [authored "nginx" "1.27", authored "redis" "7.4"] = none) ∧
    ¬ RoutesAll [authored "nginx" "2.0", authored "redis" "2.0"] ∧
    ¬ RoutesAll [authored "nginx" "1.27", authored "redis" "7.4"] := by
  refine ⟨⟨by decide, by decide⟩, fun h => ?_, fun h => ?_⟩
  · have hlost : ∀ e' ∈ [authored "redis" "2.0"], ¬ SameField (authored "nginx" "2.0") e' := by decide
    obtain ⟨e', he', hsame, -⟩ := h.kept [authored "redis" "2.0"] (by decide)
      (authored "nginx" "2.0") (by decide)
    exact hlost e' he' hsame
  · have hnone : ¬ Conflicting [authored "nginx" "1.27", authored "redis" "7.4"] := by
      unfold Conflicting
      decide
    exact hnone (h.refused (by decide))

end GitopsReverser.Override
