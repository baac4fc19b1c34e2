import GitopsReverser.Reasoning.Lists
import GitopsReverser.Manifest.RenderVerify

/-!
# RenderOracle — when the verdict of the oracle can be relied on

The comparison goes by file, kind and name. A `nil` verdict says what the oracle is for exactly when
these tell every rendered object and every intent apart.
-/

namespace GitopsReverser.Manifest

open Reasoning
open Git (Path)

/-! ## 1. What the oracle is for -/

/-- An object without its content. -/
def Object.bare (o : Object) : Object := { o with json := "" }

def RenderedObject.bare (o : RenderedObject) : RenderedObject := { o with object := o.object.bare }

/-- The object an intent is about: the one of its key and, when the intent says what to render, the
    one that object is. -/
def WriteIntent.Targets (i : WriteIntent) (o : RenderedObject) : Prop :=
  i.key = o.key ∧ ∀ d ∈ i.desired, d.bare = o.object.bare
  deriving Decidable

/-- What is asked of one object of one render root: an object nobody writes is there before and
    after, one that is deleted is gone, and one that is written renders as desired. -/
def RendersAsIntended (render : Renderer) (before after : List FileContent)
    (intents : List WriteIntent) (root : Path) (o : RenderedObject) : Prop :=
  ((∀ i ∈ intents, ¬ i.Targets o) →
    o ∈ objectsAt render before root ∧ o ∈ objectsAt render after root) ∧
  (∀ i ∈ intents, i.Targets o → i.removed = true → o ∉ objectsAt render after root) ∧
  ∀ i ∈ intents, i.Targets o → i.removed = false → ∀ d ∈ i.desired,
    ⟨d, o.originPath⟩ ∈ objectsAt render after root ∧ (o ∈ objectsAt render after root → o.object = d)
  deriving Decidable

def bothTargets (before after : List FileContent) : List Path :=
  renderTargets (parseKustomizations before) ++ renderTargets (parseKustomizations after)

/-- And of one intent: what it desires is rendered somewhere. -/
def IntentRendered (render : Renderer) (before after : List FileContent) (i : WriteIntent) : Prop :=
  i.removed = false → ∀ d ∈ i.desired, ∃ root ∈ bothTargets before after,
    ∃ o ∈ objectsAt render after root, o.key = i.key ∧ o.object = d
  deriving Decidable

def OracleSound (render : Renderer) (before after : List FileContent)
    (intents : List WriteIntent) : Prop :=
  (∀ root ∈ bothTargets before after,
    ∀ o ∈ objectsAt render before root ++ objectsAt render after root,
      RendersAsIntended render before after intents root o) ∧
  ∀ i ∈ intents, IntentRendered render before after i
  deriving Decidable

/-! ## 2. What the comparison can tell apart -/

def refsAt (render : Renderer) (tree : List FileContent) (root : Path) : List RenderedObject :=
  (objectsAt render tree root).map RenderedObject.bare

/-- The renders have the same objects, with any contents. -/
def SameRefs (render render' : Renderer) (before after : List FileContent) : Prop :=
  ∀ tree ∈ [before, after], ∀ root, (render' tree root).map (List.map RenderedObject.bare) =
    (render tree root).map (List.map RenderedObject.bare)

/-- The intent the comparison takes for this key asks for `d`. -/
def Pinned (intents : List WriteIntent) (key : ChainKey) (d : Object) : Prop :=
  ∃ j ∈ (intentsByKey intents).lookup key,
    j.removed = false ∧ j.unchecked = false ∧ j.desired = some d
  deriving Decidable

/-- The comparison tells this object apart under this root. Nobody's object: the root is still one,
    no intent has its key and no second object has it. A deleted one: no such object is rendered
    afterwards. A written one: the root is still one, the intent taken for its key asks for the same,
    and only one such object is rendered afterwards. -/
def Discerned (render : Renderer) (before after : List FileContent) (intents : List WriteIntent)
    (root : Path) (x : RenderedObject) : Prop :=
  ((∀ i ∈ intents, ¬ i.Targets x) →
    root ∈ renderTargets (parseKustomizations after) ∧ (∀ i ∈ intents, i.key ≠ x.key) ∧
      (refsAt render before root).countP (fun y => y.key = x.key) ≤ 1 ∧
      (refsAt render after root).countP (fun y => y.key = x.key) ≤ 1) ∧
  (∀ i ∈ intents, i.Targets x → i.removed = true → x ∉ refsAt render after root) ∧
  ∀ i ∈ intents, i.Targets x → i.removed = false → ∀ d ∈ i.desired,
    root ∈ renderTargets (parseKustomizations after) ∧ Pinned intents x.key d ∧
      (refsAt render after root).count x ≤ 1
  deriving Decidable

def Discerning (render : Renderer) (before after : List FileContent)
    (intents : List WriteIntent) : Prop :=
  (∀ root ∈ bothTargets before after, ∀ x ∈ refsAt render before root ++ refsAt render after root,
    Discerned render before after intents root x) ∧
  ∀ i ∈ intents, i.removed = false → ∀ d ∈ i.desired, Pinned intents i.key d ∧
    ∃ root ∈ renderTargets (parseKustomizations after),
      ∃ x ∈ refsAt render before root ++ refsAt render after root, x.key = i.key
  deriving Decidable

section Discerning

variable {render : Renderer} {before after : List FileContent} {intents : List WriteIntent}
  {root : Path} {o : RenderedObject} {key : ChainKey} {objects was now : List RenderedObject}

theorem WriteIntent.Targets.of_bare {i : WriteIntent} {q : RenderedObject} (h : i.Targets o)
    (hbare : q.bare = o.bare) : i.Targets q :=
  ⟨h.1.trans (show o.bare.key = q.bare.key from congrArg RenderedObject.key hbare.symm),
    fun d hd => (h.2 d hd).trans (congrArg RenderedObject.object hbare.symm)⟩

theorem lookup_of_countP_le_one (ho : o ∈ objects)
    (h : (objects.map RenderedObject.bare).countP (fun y => y.key = o.key) ≤ 1) :
    (renderedByKey objects).lookup o.key = some o := by
  obtain ⟨p, hp⟩ := Option.isSome_iff_exists.mp (lookup_renderedByKey_isSome.mpr ⟨o, ho, rfl⟩)
  obtain ⟨hmem, hkey⟩ := lookup_renderedByKey_mem hp
  rw [List.countP_map] at h
  rw [hp, eq_of_countP_le_one h ho hmem (decide_eq_true rfl) (decide_eq_true hkey)]

/-! ### Sound when everything is told apart -/

theorem lookup_intentsByKey_none (h : ∀ i ∈ intents, i.key ≠ key) :
    (intentsByKey intents).lookup key = none := by
  have hnil : intents.filter (fun i => i.key = key) = [] :=
    List.filter_eq_nil_iff.mpr (fun i hi => by simpa using h i hi)
  rw [intentsByKey, lookup_overwrite, hnil]
  rfl

/-- Under a target of the resulting tree, a key with a pinned object renders it. -/
theorem rendered_of_pinned {d : Object} (hnil : verifyBatchRenders render before after intents = [])
    (hroot : root ∈ renderTargets (parseKustomizations after)) (hpinned : Pinned intents key d)
    (hkey : ∃ o ∈ objectsAt render before root ++ objectsAt render after root, o.key = key) :
    ∃ p ∈ objectsAt render after root, p.key = key ∧ p.object = d := by
  obtain ⟨was, now, hwas, hnow, hpasses⟩ := (verifyBatchRenders_nil_iff.mp hnil).1 root hroot
  obtain ⟨j, hj, hremoved, hunchecked, hdesired⟩ := hpinned
  obtain ⟨o, ho, rfl⟩ := hkey
  simp only [objectsAt, hwas, hnow] at ho ⊢
  have hpass := hpasses o ho
  rw [Option.mem_def.mp hj] at hpass
  simp only [KeyPasses, hremoved, hunchecked, hdesired, Bool.false_eq_true, if_false] at hpass
  obtain ⟨p, hp, hobject⟩ := hpass
  obtain ⟨hmem, hkey⟩ := lookup_renderedByKey_mem hp
  exact ⟨p, hmem, hkey, Option.some.inj hobject⟩

theorem rendersAsIntended_of_discerned (hnil : verifyBatchRenders render before after intents = [])
    (ho : o ∈ objectsAt render before root ++ objectsAt render after root)
    (h : Discerned render before after intents root o.bare) :
    RendersAsIntended render before after intents root o := by
  obtain ⟨huntouched, hremoved, hdesired⟩ := h
  refine ⟨fun hnone => ?_, fun i hi ht hremove hmem => ?_, fun i hi ht hremove d hd => ?_⟩
  · obtain ⟨hroot, hkeys, hbefore, hafter⟩ := huntouched hnone
    obtain ⟨was, now, hwas, hnow, hpasses⟩ := (verifyBatchRenders_nil_iff.mp hnil).1 root hroot
    simp only [refsAt, objectsAt, hwas, hnow] at ho hbefore hafter ⊢
    have hpass := hpasses o ho
    rw [lookup_intentsByKey_none (show ∀ i ∈ intents, i.key ≠ o.key from hkeys)] at hpass
    obtain ⟨p, q, hp, hq, hobject⟩ := hpass
    obtain ⟨hpmem, hpkey⟩ := lookup_renderedByKey_mem hp
    obtain ⟨hqmem, hqkey⟩ := lookup_renderedByKey_mem hq
    have hpq : p = q := by
      have horigin : p.originPath = q.originPath := congrArg ChainKey.originPath (hpkey.trans hqkey.symm)
      obtain ⟨po, pp⟩ := p
      obtain ⟨qo, qp⟩ := q
      simp_all
    rcases List.mem_append.mp ho with ho | ho
    · have hself := lookup_of_countP_le_one ho hbefore
      rw [hp, Option.some.injEq] at hself
      exact ⟨ho, hself ▸ hpq ▸ hqmem⟩
    · have hself := lookup_of_countP_le_one ho hafter
      rw [hq, Option.some.injEq] at hself
      exact ⟨hself ▸ hpq ▸ hpmem, ho⟩
  · exact hremoved i hi ht hremove (List.mem_map_of_mem hmem)
  · obtain ⟨hroot, hpinned, hcount⟩ := hdesired i hi ht hremove d hd
    obtain ⟨p, hp, hkey, rfl⟩ := rendered_of_pinned hnil hroot hpinned ⟨o, ho, rfl⟩
    have horigin : p.originPath = o.originPath := congrArg ChainKey.originPath hkey
    refine ⟨horigin ▸ hp, fun hmem => ?_⟩
    have hbare : p.bare = o.bare := by
      rw [RenderedObject.bare, RenderedObject.bare, ht.2 _ hd, horigin]
    rw [refsAt, List.count_eq_countP, List.countP_map] at hcount
    rw [eq_of_countP_le_one hcount hmem hp (by simp) (by simp [hbare])]

theorem sound_of_discerning (hnil : verifyBatchRenders render before after intents = [])
    (h : Discerning render before after intents) : OracleSound render before after intents := by
  refine ⟨fun root hroot o ho => rendersAsIntended_of_discerned hnil ho (h.1 root hroot _ ?_),
    fun i hi hremove d hd => ?_⟩
  · rw [refsAt, refsAt, ← List.map_append]
    exact List.mem_map_of_mem ho
  · obtain ⟨hpinned, root, hroot, x, hx, hkey⟩ := h.2 i hi hremove d hd
    rw [refsAt, refsAt, ← List.map_append] at hx
    obtain ⟨o, ho, rfl⟩ := List.mem_map.mp hx
    exact ⟨root, List.mem_append_right _ hroot,
      rendered_of_pinned hnil hroot hpinned ⟨o, ho, hkey⟩⟩

/-! ### Only then -/

def RenderedObject.withJson (o : RenderedObject) (json : String) : RenderedObject :=
  { o with object := { o.object with json := json } }

/-- Other contents, except for the last object of a key that is kept. -/
def disturb (keep : ChainKey → Bool) (json : String) : List RenderedObject → List RenderedObject
  | [] => []
  | o :: rest =>
    (if keep o.key && rest.all (fun p => p.key ≠ o.key) then o else o.withJson json) ::
      disturb keep json rest

variable {keep : ChainKey → Bool} {json : String}

theorem map_bare_disturb (keep : ChainKey → Bool) (json : String) (objects : List RenderedObject) :
    (disturb keep json objects).map RenderedObject.bare = objects.map RenderedObject.bare := by
  induction objects with
  | nil => rfl
  | cons o rest ih =>
    rw [disturb, List.map_cons, List.map_cons, ih]
    split <;> rfl

theorem exists_key_disturb :
    (∃ o ∈ disturb keep json objects, o.key = key) ↔ ∃ o ∈ objects, o.key = key := by
  have hrefs : ∀ l : List RenderedObject,
      (∃ o ∈ l, o.key = key) ↔ ∃ x ∈ l.map RenderedObject.bare, x.key = key := by
    intro l
    simp only [List.mem_map, exists_exists_and_eq_and]
    rfl
  rw [hrefs, hrefs objects, map_bare_disturb]

theorem lookup_disturb_none : (renderedByKey (disturb keep json objects)).lookup key = none ↔
    (renderedByKey objects).lookup key = none := by
  rw [← Option.not_isSome_iff_eq_none, ← Option.not_isSome_iff_eq_none, lookup_renderedByKey_isSome,
    lookup_renderedByKey_isSome, exists_key_disturb]

theorem lookup_cons_renderedByKey (o : RenderedObject) (rest : List RenderedObject) :
    (renderedByKey (o :: rest)).lookup key =
      ((renderedByKey rest).lookup key).or (if o.key = key then some o else none) := by
  rw [lookup_renderedByKey, lookup_renderedByKey, List.filter_cons]
  by_cases hkey : o.key = key
  · simp only [hkey, decide_true, if_true, List.getLast?_cons]
    cases (rest.filter (fun p => p.key = key)).getLast? <;> rfl
  · simp [hkey]

theorem all_keys_ne_iff (rest : List RenderedObject) :
    rest.all (fun p => p.key ≠ key) = true ↔ (renderedByKey rest).lookup key = none := by
  rw [← Option.not_isSome_iff_eq_none, lookup_renderedByKey_isSome]
  simp

theorem lookup_disturb_of_keep (hkeep : keep key = true) :
    (renderedByKey (disturb keep json objects)).lookup key = (renderedByKey objects).lookup key := by
  induction objects with
  | nil => rfl
  | cons o rest ih =>
    rw [disturb, lookup_cons_renderedByKey, lookup_cons_renderedByKey, ih]
    by_cases hkey : o.key = key
    · subst hkey
      cases hrest : (renderedByKey rest).lookup o.key with
      | some p => rfl
      | none => rw [hkeep, (all_keys_ne_iff rest).mpr hrest, Bool.and_self, if_pos rfl]
    · have hother : (if keep o.key && rest.all (fun p => p.key ≠ o.key) then o
          else o.withJson json).key = o.key := by split <;> rfl
      rw [hother, if_neg hkey, if_neg hkey]

/-- An object of the disturbed list has the new content, or is the last one of a kept key. -/
theorem of_mem_disturb (ho : o ∈ disturb keep json objects) : o.object.json = json ∨
    (o ∈ objects ∧ keep o.key = true ∧ (renderedByKey objects).lookup o.key = some o) := by
  induction objects with
  | nil => simp [disturb] at ho
  | cons p rest ih =>
    rw [disturb] at ho
    rcases List.mem_cons.mp ho with heq | ho
    · split at heq
      · rename_i hkept
        subst heq
        obtain ⟨hkeep, hlast⟩ := Bool.and_eq_true_iff.mp hkept
        refine .inr ⟨by simp, hkeep, ?_⟩
        rw [lookup_cons_renderedByKey, (all_keys_ne_iff rest).mp hlast]
        simp
      · exact .inl (heq ▸ rfl)
    · refine (ih ho).imp_right (fun ⟨hmem, hkeep, hlast⟩ => ⟨by simp [hmem], hkeep, ?_⟩)
      rw [lookup_cons_renderedByKey, hlast]
      rfl

theorem mem_disturb (keep : ChainKey → Bool) (json : String) (ho : o ∈ objects) :
    (∃ p ∈ disturb keep json objects, p.bare = o.bare ∧ p.object.json = json) ∨
      (keep o.key = true ∧ (renderedByKey objects).lookup o.key = some o) := by
  induction objects with
  | nil => cases ho
  | cons q rest ih =>
    rcases List.mem_cons.mp ho with rfl | ho
    · by_cases hkept : (keep o.key && rest.all (fun p => p.key ≠ o.key)) = true
      · obtain ⟨hkeep, hlast⟩ := Bool.and_eq_true_iff.mp hkept
        refine .inr ⟨hkeep, ?_⟩
        rw [lookup_cons_renderedByKey, (all_keys_ne_iff rest).mp hlast]
        simp
      · exact .inl ⟨o.withJson json, by rw [disturb, if_neg hkept]; exact List.mem_cons_self, rfl, rfl⟩
    · rcases ih ho with ⟨p, hp, hbare, hjson⟩ | ⟨hkeep, hlast⟩
      · exact .inl ⟨p, by rw [disturb]; exact List.mem_cons_of_mem _ hp, hbare, hjson⟩
      · refine .inr ⟨hkeep, ?_⟩
        rw [lookup_cons_renderedByKey, hlast]
        rfl

/-- Of two objects of one key the first is disturbed. -/
theorem disturbed_of_two (keep : ChainKey → Bool) (json : String) {P : RenderedObject → Bool}
    (hP : ∀ x y, P x = true → P y = true → x.key = y.key)
    (h : 1 < (objects.map RenderedObject.bare).countP P) :
    ∃ p ∈ disturb keep json objects, P p.bare = true ∧ p.object.json = json := by
  induction objects with
  | nil => simp at h
  | cons o rest ih =>
    rw [disturb]
    by_cases ho : P o.bare = true
    · rw [List.map_cons, List.countP_cons, if_pos ho] at h
      obtain ⟨x, hx, hPx⟩ := List.countP_pos_iff.mp (Nat.lt_of_succ_lt_succ h)
      obtain ⟨p, hp, rfl⟩ := List.mem_map.mp hx
      refine ⟨_, List.mem_cons_self, ?_⟩
      rw [if_neg]
      · exact ⟨ho, rfl⟩
      · simp only [Bool.and_eq_true, List.all_eq_true, not_and, not_forall]
        exact fun _ => ⟨p, hp, by simpa using (show p.key = o.key from hP p.bare o.bare hPx ho)⟩
    · rw [List.map_cons, List.countP_cons, if_neg ho] at h
      obtain ⟨p, hp, hPp, hjson⟩ := ih h
      exact ⟨p, List.mem_cons_of_mem _ hp, hPp, hjson⟩

/-- The keys whose last object the comparison looks at. -/
def keptBefore (after : List FileContent) (intents : List WriteIntent) (root : Path)
    (key : ChainKey) : Bool :=
  decide (root ∈ renderTargets (parseKustomizations after)) && ((intentsByKey intents).lookup key).isNone

def keptAfter (after : List FileContent) (intents : List WriteIntent) (root : Path)
    (key : ChainKey) : Bool :=
  decide (root ∈ renderTargets (parseKustomizations after)) &&
    ((intentsByKey intents).lookup key).all (fun i => !i.removed && !i.unchecked)

/-- The renderer with other contents wherever the comparison does not look. -/
def disturbed (render : Renderer) (before after : List FileContent) (intents : List WriteIntent)
    (wasJson nowJson : String) : Renderer := fun tree root =>
  if tree = before then (render tree root).map (disturb (keptBefore after intents root) wasJson)
  else if tree = after then (render tree root).map (disturb (keptAfter after intents root) nowJson)
  else render tree root

theorem lookup_intentsByKey_mem {j : WriteIntent} (h : (intentsByKey intents).lookup key = some j) :
    j ∈ intents ∧ j.key = key := by
  rw [intentsByKey, lookup_overwrite] at h
  have hlast : (intents.filter (fun i => i.key = key)).getLast? = some j := by simpa using h
  have hj := List.mem_filter.mp (List.mem_of_getLast? hlast)
  exact ⟨hj.1, of_decide_eq_true hj.2⟩

/-- What is kept under a key that has an intent is what the intent asks for. -/
theorem pinned_of_kept (hnil : verifyBatchRenders render before after intents = []) {i : WriteIntent}
    (hi : i ∈ intents) (hkey : i.key = key) (hkept : keptAfter after intents root key = true)
    (hlast : (renderedByKey (objectsAt render after root)).lookup key = some o) :
    root ∈ renderTargets (parseKustomizations after) ∧ Pinned intents key o.object := by
  obtain ⟨hroot, hasks⟩ := Bool.and_eq_true_iff.mp hkept
  have hroot := of_decide_eq_true hroot
  obtain ⟨was, now, hwas, hnow, hpasses⟩ := (verifyBatchRenders_nil_iff.mp hnil).1 root hroot
  rw [objectsAt, hnow] at hlast
  obtain ⟨hmem, rfl⟩ := lookup_renderedByKey_mem hlast
  obtain ⟨j, hj⟩ := Option.isSome_iff_exists.mp
    (AList.lookup_isSome.mpr (hkey ▸ key_mem_intentsByKey hi))
  have hpass := hpasses o (List.mem_append_right _ hmem)
  simp only [hj, Option.all_some, Bool.and_eq_true, Bool.not_eq_true'] at hasks
  simp only [hj, hlast, KeyPasses, hasks.1, hasks.2, Bool.false_eq_true, if_false] at hpass
  obtain ⟨p, hp, hobject⟩ := hpass
  obtain rfl := Option.some.inj hp
  exact ⟨hroot, j, hj, hasks.1, hasks.2, hobject.symm⟩

section Disturbed

variable {wasJson nowJson : String}

theorem disturbed_before : disturbed render before after intents wasJson nowJson before root =
    (render before root).map (disturb (keptBefore after intents root) wasJson) := if_pos rfl

theorem objectsAt_map {render' : Renderer} {tree : List FileContent}
    {f : List RenderedObject → List RenderedObject} (hf : f [] = [])
    (h : render' tree root = (render tree root).map f) :
    objectsAt render' tree root = f (objectsAt render tree root) := by
  unfold objectsAt
  rw [h]
  cases render tree root with
  | ok objects => rfl
  | error e => exact hf.symm

theorem objectsAt_disturbed_before :
    objectsAt (disturbed render before after intents wasJson nowJson) before root =
      disturb (keptBefore after intents root) wasJson (objectsAt render before root) :=
  objectsAt_map rfl disturbed_before

variable (hchange : before ≠ after)

include hchange

theorem disturbed_after : disturbed render before after intents wasJson nowJson after root =
    (render after root).map (disturb (keptAfter after intents root) nowJson) :=
  (if_neg hchange.symm).trans (if_pos rfl)

theorem objectsAt_disturbed_after :
    objectsAt (disturbed render before after intents wasJson nowJson) after root =
      disturb (keptAfter after intents root) nowJson (objectsAt render after root) :=
  objectsAt_map rfl (disturbed_after hchange)

theorem sameRefs_disturbed :
    SameRefs render (disturbed render before after intents wasJson nowJson) before after := by
  intro tree htree root
  have hmap : ∀ (r : Except String (List RenderedObject)) keep json,
      (r.map (disturb keep json)).map (List.map RenderedObject.bare) =
        r.map (List.map RenderedObject.bare) := by
    intro r keep json
    cases r with
    | error e => rfl
    | ok objects => exact congrArg Except.ok (map_bare_disturb keep json objects)
  rcases List.mem_cons.mp htree with rfl | htree
  · rw [disturbed_before, hmap]
  · obtain rfl := List.mem_singleton.mp htree
    rw [disturbed_after hchange, hmap]

theorem disturbed_nil (hnil : verifyBatchRenders render before after intents = []) :
    verifyBatchRenders (disturbed render before after intents wasJson nowJson) before after intents =
      [] := by
  rw [verifyBatchRenders_nil_iff] at hnil ⊢
  refine ⟨fun root hroot => ?_, fun i hi hgovern => ?_⟩
  · obtain ⟨was, now, hwas, hnow, hpasses⟩ := hnil.1 root hroot
    refine ⟨_, _, by rw [disturbed_before, hwas]; rfl, by rw [disturbed_after hchange, hnow]; rfl, ?_⟩
    intro o ho
    -- the key of the object is rendered without the disturbance too
    obtain ⟨p, hp, hkey⟩ : ∃ p ∈ was ++ now, p.key = o.key := by
      rcases List.mem_append.mp ho with ho | ho
      · obtain ⟨p, hp, hkey⟩ := exists_key_disturb.mp ⟨o, ho, rfl⟩
        exact ⟨p, List.mem_append_left _ hp, hkey⟩
      · obtain ⟨p, hp, hkey⟩ := exists_key_disturb.mp ⟨o, ho, rfl⟩
        exact ⟨p, List.mem_append_right _ hp, hkey⟩
    have hpass := hpasses p hp
    rw [hkey] at hpass
    cases hintent : (intentsByKey intents).lookup o.key with
    | none =>
      rw [hintent] at hpass
      rwa [lookup_disturb_of_keep (by simp [keptBefore, hroot, hintent]),
        lookup_disturb_of_keep (by simp [keptAfter, hroot, hintent])]
    | some i =>
      rw [hintent] at hpass
      simp only [KeyPasses] at hpass ⊢
      split
      · rename_i hremoved
        rw [if_pos hremoved] at hpass
        exact lookup_disturb_none.mpr hpass
      · rename_i hremoved
        rw [if_neg hremoved] at hpass
        split
        · trivial
        · rename_i hunchecked
          rw [if_neg hunchecked] at hpass
          rwa [lookup_disturb_of_keep (by simp [keptAfter, hroot, hintent, hremoved, hunchecked])]
  · obtain ⟨root, hroot, o, ho, hkey⟩ := hnil.2 i hi hgovern
    refine ⟨root, hroot, ?_⟩
    rw [objectsAt_disturbed_before, objectsAt_disturbed_after hchange]
    rcases List.mem_append.mp ho with ho | ho
    · obtain ⟨p, hp, hp'⟩ := exists_key_disturb.mpr ⟨o, ho, hkey⟩
      exact ⟨p, List.mem_append_left _ hp, hp'⟩
    · obtain ⟨p, hp, hp'⟩ := exists_key_disturb.mpr ⟨o, ho, hkey⟩
      exact ⟨p, List.mem_append_right _ hp, hp'⟩

variable (hnil : verifyBatchRenders render before after intents = [])
  (hsound : OracleSound (disturbed render before after intents wasJson nowJson) before after intents)
  (hne : wasJson ≠ nowJson)
  (hfresh : ∀ root ∈ bothTargets before after,
    ∀ o ∈ objectsAt render before root ++ objectsAt render after root,
      o.object.json ≠ wasJson ∧ o.object.json ≠ nowJson)
  (hdesired : ∀ i ∈ intents, ∀ d ∈ i.desired, d.json ≠ nowJson)
  (hroot : root ∈ bothTargets before after)

include hsound hne hfresh hroot in
/-- A disturbed object has to be somebody's target. -/
theorem targeted_of_disturbed (o : RenderedObject)
    (ho : (o ∈ disturb (keptBefore after intents root) wasJson (objectsAt render before root) ∧
        o.object.json = wasJson) ∨
      (o ∈ disturb (keptAfter after intents root) nowJson (objectsAt render after root) ∧
        o.object.json = nowJson)) :
    ∃ i ∈ intents, i.Targets o := by
  by_contra hnone
  push Not at hnone
  have hmem : o ∈ objectsAt (disturbed render before after intents wasJson nowJson) before root ++
      objectsAt (disturbed render before after intents wasJson nowJson) after root := by
    rw [objectsAt_disturbed_before, objectsAt_disturbed_after hchange]
    exact List.mem_append.mpr (ho.imp And.left And.left)
  obtain ⟨hbefore, hafter⟩ := (hsound.1 root hroot o hmem).1 hnone
  rw [objectsAt_disturbed_before] at hbefore
  rw [objectsAt_disturbed_after hchange] at hafter
  rcases ho with ⟨-, hjson⟩ | ⟨-, hjson⟩
  · rcases of_mem_disturb hafter with hother | ⟨horiginal, -⟩
    · exact hne (hjson.symm.trans hother)
    · exact (hfresh root hroot o (List.mem_append_right _ horiginal)).1 hjson
  · rcases of_mem_disturb hbefore with hother | ⟨horiginal, -⟩
    · exact hne (hother.symm.trans hjson)
    · exact (hfresh root hroot o (List.mem_append_left _ horiginal)).2 hjson

include hsound hne hfresh hroot in
/-- An object that is nobody's target is one the comparison looks at. -/
theorem kept_of_untargeted (hnone : ∀ i ∈ intents, ¬ i.Targets o)
    (ho : o ∈ objectsAt render before root ++ objectsAt render after root) :
    keptBefore after intents root o.key = true ∨ (keptAfter after intents root o.key = true ∧
      (renderedByKey (objectsAt render after root)).lookup o.key = some o) := by
  have htargeted := targeted_of_disturbed hchange hsound hne hfresh hroot
  have hquiet : ∀ q : RenderedObject, q.bare = o.bare → ¬ ∃ i ∈ intents, i.Targets q := by
    rintro q hq ⟨i, hi, ht⟩
    exact hnone i hi (ht.of_bare hq.symm)
  rcases List.mem_append.mp ho with ho | ho
  · rcases mem_disturb (keptBefore after intents root) wasJson ho with
      ⟨q, hq, hbare, hjson⟩ | ⟨hkeep, -⟩
    · exact absurd (htargeted q (.inl ⟨hq, hjson⟩)) (hquiet q hbare)
    · exact .inl hkeep
  · rcases mem_disturb (keptAfter after intents root) nowJson ho with ⟨q, hq, hbare, hjson⟩ | hkept
    · exact absurd (htargeted q (.inr ⟨hq, hjson⟩)) (hquiet q hbare)
    · exact .inr hkept

include hnil hsound hne hfresh hroot in
theorem discerned_untouched (hnone : ∀ i ∈ intents, ¬ i.Targets o)
    (ho : o ∈ objectsAt render before root ++ objectsAt render after root) :
    root ∈ renderTargets (parseKustomizations after) ∧ (∀ i ∈ intents, i.key ≠ o.key) ∧
      (refsAt render before root).countP (fun y => y.key = o.key) ≤ 1 ∧
      (refsAt render after root).countP (fun y => y.key = o.key) ≤ 1 := by
  have htargeted := targeted_of_disturbed hchange hsound hne hfresh hroot
  have hkept := kept_of_untargeted hchange hsound hne hfresh hroot hnone ho
  have hstays : root ∈ renderTargets (parseKustomizations after) := by
    rcases hkept with hkept | ⟨hkept, -⟩
    · exact of_decide_eq_true (Bool.and_eq_true_iff.mp hkept).1
    · exact of_decide_eq_true (Bool.and_eq_true_iff.mp hkept).1
  have hkeys : ∀ i ∈ intents, i.key ≠ o.key := by
    intro i hi hkey
    rcases hkept with hkept | ⟨hkept, hlast⟩
    · have hlookup := AList.lookup_isSome.mpr (hkey ▸ key_mem_intentsByKey hi)
      rw [Option.isNone_iff_eq_none.mp (Bool.and_eq_true_iff.mp hkept).2] at hlookup
      cases hlookup
    · -- the intent taken for the key asks for this very object
      obtain ⟨-, j, hj, -, -, hobject⟩ := pinned_of_kept hnil hi hkey hkept hlast
      obtain ⟨hjmem, hjkey⟩ := lookup_intentsByKey_mem hj
      refine hnone j hjmem ⟨hjkey, fun d hd => ?_⟩
      rw [hobject, Option.mem_some_iff] at hd
      rw [hd]
  have hsame : ∀ x y : RenderedObject, decide (x.key = o.key) = true →
      decide (y.key = o.key) = true → x.key = y.key :=
    fun x y hx hy => (of_decide_eq_true hx).trans (of_decide_eq_true hy).symm
  refine ⟨hstays, hkeys, not_lt.mp (fun htwo => ?_), not_lt.mp (fun htwo => ?_)⟩
  · obtain ⟨q, hq, hkey, hjson⟩ :=
      disturbed_of_two (keptBefore after intents root) wasJson hsame htwo
    obtain ⟨i, hi, ht⟩ := htargeted q (.inl ⟨hq, hjson⟩)
    exact hkeys i hi (ht.1.trans (of_decide_eq_true hkey))
  · obtain ⟨q, hq, hkey, hjson⟩ :=
      disturbed_of_two (keptAfter after intents root) nowJson hsame htwo
    obtain ⟨i, hi, ht⟩ := htargeted q (.inr ⟨hq, hjson⟩)
    exact hkeys i hi (ht.1.trans (of_decide_eq_true hkey))

include hnil hdesired in
/-- What an intent desires is rendered despite the disturbance only where it is pinned. -/
theorem pinned_of_rendered {i : WriteIntent} {d : Object} (hi : i ∈ intents) (hd : d ∈ i.desired)
    (ho : o ∈ objectsAt (disturbed render before after intents wasJson nowJson) after root)
    (hkey : i.key = o.key) (hobject : o.object = d) :
    root ∈ renderTargets (parseKustomizations after) ∧ Pinned intents i.key d ∧
      o ∈ objectsAt render after root := by
  rw [objectsAt_disturbed_after hchange] at ho
  rcases of_mem_disturb ho with hjson | ⟨hmem, hkept, hlast⟩
  · exact absurd (hobject ▸ hjson) (hdesired i hi d hd)
  · obtain ⟨hstays, hpinned⟩ := pinned_of_kept hnil hi hkey hkept hlast
    exact ⟨hstays, by rw [hkey, ← hobject]; exact hpinned, hmem⟩

include hnil hsound hdesired hroot in
theorem discerned_desired {i : WriteIntent} {d : Object} (hi : i ∈ intents)
    (ho : o ∈ objectsAt (disturbed render before after intents wasJson nowJson) before root ++
      objectsAt (disturbed render before after intents wasJson nowJson) after root)
    (ht : i.Targets o) (hremove : i.removed = false) (hd : d ∈ i.desired) :
    root ∈ renderTargets (parseKustomizations after) ∧ Pinned intents o.key d ∧
      (refsAt render after root).count o.bare ≤ 1 := by
  have hrendered := ((hsound.1 root hroot o ho).2.2 i hi ht hremove d hd).1
  have hkey : i.key = RenderedObject.key ⟨d, o.originPath⟩ := by
    refine ht.1.trans ?_
    have hbare : d.bare = o.object.bare := ht.2 d hd
    simp only [RenderedObject.key, ChainKey.mk.injEq, true_and]
    exact ⟨(congrArg Object.kind hbare).symm, (congrArg Object.name hbare).symm⟩
  obtain ⟨hstays, hpinned, -⟩ := pinned_of_rendered hchange hnil hdesired hi hd hrendered hkey rfl
  refine ⟨hstays, ht.1 ▸ hpinned, not_lt.mp (fun htwo => ?_)⟩
  -- a second object of this kind is disturbed, and is not what the intent desires
  rw [List.count_eq_countP] at htwo
  obtain ⟨q, hq, hbare, hjson⟩ := disturbed_of_two (keptAfter after intents root) nowJson
    (fun x y hx hy => by rw [eq_of_beq hx, eq_of_beq hy]) htwo
  have hbare := eq_of_beq hbare
  rw [← objectsAt_disturbed_after hchange] at hq
  have hobject := ((hsound.1 root hroot q (List.mem_append_right _ hq)).2.2 i hi
    (ht.of_bare hbare) hremove d hd).2 hq
  exact hdesired i hi d hd (hobject ▸ hjson)

include hnil hsound hne hfresh hdesired in
theorem discerning_of_sound : Discerning render before after intents := by
  refine ⟨fun root hroot x hx => ?_, fun i hi hremove d hd => ?_⟩
  · have hrefs : refsAt render before root ++ refsAt render after root =
        (objectsAt (disturbed render before after intents wasJson nowJson) before root ++
          objectsAt (disturbed render before after intents wasJson nowJson) after root).map
          RenderedObject.bare := by
      rw [objectsAt_disturbed_before, objectsAt_disturbed_after hchange, List.map_append,
        map_bare_disturb, map_bare_disturb]
      rfl
    obtain ⟨p, hp, rfl⟩ := List.mem_map.mp (hrefs ▸ hx)
    refine ⟨fun hnone => ?_, fun i hi ht hremove hmem => ?_, fun i hi ht hremove d hd => ?_⟩
    · rw [refsAt, refsAt, ← List.map_append] at hx
      obtain ⟨o, ho, hbare⟩ := List.mem_map.mp hx
      rw [← hbare] at hnone ⊢
      exact discerned_untouched (o := o) hchange hnil hsound hne hfresh hroot hnone ho
    · rw [refsAt, ← map_bare_disturb (keptAfter after intents root) nowJson,
        ← objectsAt_disturbed_after hchange] at hmem
      obtain ⟨q, hq, hbare⟩ := List.mem_map.mp hmem
      exact (hsound.1 root hroot q (List.mem_append_right _ hq)).2.1 i hi
        (WriteIntent.Targets.of_bare (o := p) ht hbare) hremove hq
    · exact discerned_desired (o := p) hchange hnil hsound hdesired hroot hi hp ht hremove hd
  · obtain ⟨root, -, o, ho, hkey, hobject⟩ := hsound.2 i hi hremove d hd
    obtain ⟨hstays, hpinned, hmem⟩ :=
      pinned_of_rendered hchange hnil hdesired hi hd ho hkey.symm hobject
    exact ⟨hpinned, root, hstays, o.bare, List.mem_append_right _ (List.mem_map_of_mem hmem), hkey⟩

end Disturbed

theorem SameRefs.refsAt_eq {render' : Renderer} (h : SameRefs render render' before after)
    {tree : List FileContent} (htree : tree ∈ [before, after]) (root : Path) :
    refsAt render' tree root = refsAt render tree root := by
  have hmap := h tree htree root
  unfold refsAt objectsAt
  cases hrender : render tree root with
  | error err =>
    cases hrender' : render' tree root with
    | error err' => rfl
    | ok objects => simp [hrender, hrender', Except.map] at hmap
  | ok objects =>
    cases hrender' : render' tree root with
    | error err' => simp [hrender, hrender', Except.map] at hmap
    | ok objects' => simpa [hrender, hrender', Except.map] using hmap

end Discerning

/-! ## 3. One image entry over several Deployments -/

def deployment (ns name image : String) : Object :=
  ⟨"apps", "v1", "Deployment", ns, name, image⟩

def imageFolder (tag : String) : List FileContent :=
  [⟨"apps/kustomization.yaml".toList, [.node
    { identity := ⟨"", "", "", ""⟩
      kustomization := some
        { resources := some ["api.yaml".toList, "web.yaml".toList]
          images := [⟨"nginx".toList, "", tag, "", []⟩] } }]⟩]

def currentTag (tree : List FileContent) : String :=
  match (parseKustomizations tree).lookup "apps".toList with
  | some k => (k.images.map ImageEntry.newTag).headD ""
  | none => ""

/-- The entry governs `api`, and whatever else is said to follow the tag. -/
def imageRender (others : String → List RenderedObject) : Renderer := fun tree _ =>
  .ok (⟨deployment "prod" "api" ("nginx:" ++ currentTag tree), "apps/api.yaml".toList⟩ ::
    others (currentTag tree))

def bumpApi : WriteIntent :=
  { sourcePath := "apps/api.yaml".toList, kind := "Deployment", name := "api"
    desired := some (deployment "prod" "api" "nginx:1.1"), governed := true }

/-- Two Deployments of one name in one file, in two namespaces: only the first runs the image. -/
def webPair (tag : String) : List RenderedObject :=
  [⟨deployment "blue" "web" ("nginx:" ++ tag), "apps/web.yaml".toList⟩,
   ⟨deployment "green" "web" "redis:7", "apps/web.yaml".toList⟩]

/-- `api` moves to another namespace with the tag. -/
def movingRender : Renderer := fun tree _ =>
  let ns := if currentTag tree = "1.0" then "prod" else "test"
  .ok [⟨deployment ns "api" ("nginx:" ++ currentTag tree), "apps/api.yaml".toList⟩]

def desiring (d : Object) : WriteIntent := { bumpApi with desired := some d }

/-- Flushes over the folder with the tag 1.0: the renderer, the resulting tree and the intents. -/
def blindFlushes : List (Renderer × List FileContent × List WriteIntent) :=
  -- `web` in `blue` moves with the tag; only the object of `green` is compared, which has the same
  -- file, kind and name
  [(imageRender webPair, imageFolder "1.1", [bumpApi]),
   -- the render root is gone
   (imageRender (fun _ => []), [], []),
   -- a second intent of the same key takes the place of the first
   (imageRender (fun _ => []), imageFolder "1.1",
     [desiring (deployment "prod" "api" "nginx:9"), bumpApi]),
   -- the intent is about another namespace than the object that was there
   (movingRender, imageFolder "1.1", [desiring (deployment "test" "api" "nginx:1.1")]),
   -- an unchecked intent desires something
   (imageRender (fun _ => []), imageFolder "1.1",
     [{ desiring (deployment "prod" "api" "nginx:9") with unchecked := true }]),
   -- no root renders the object of the second intent
   (imageRender (fun _ => []), imageFolder "1.1",
     [bumpApi, { desiring (deployment "prod" "job" "nginx:1.1") with
        name := "job", governed := false }])]

end GitopsReverser.Manifest
