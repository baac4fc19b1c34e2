import GitopsReverser.Edit.Decision

/-!
# Locality — an edit leaves the other documents of the file alone

Whatever an edit makes of its document, the file splits into the same documents around it. Two
kinds of edit do more. Deleting the first document drops the separator of the second one, with the
content that may stand on it. And the splitter does not know the end marker: what stands behind one
is part of the document before it, and is lost with what that document held.
-/

namespace GitopsReverser.Edit

open Reasoning

/-! ## 1. What a document holds -/

/-- The content behind the dashes of a separator; a comment is none. -/
def separatorContent (sep : Text) : Text :=
  let rest := trimBy isTrailingSpace (sep.drop 3)
  if rest.head? = some '#' then [] else rest

def contents (docs : List RawDoc) : List (Text × Text) :=
  (docs.map (fun d => (separatorContent d.sep, d.body))).filter (· ≠ ([], []))

variable (ed : Editor) (c : Comparison)

/-- Splitting the edited file gives the other documents, and one in the place of one that was
    patched or replaced. What stands behind an end marker of the edited document is content of
    others: it stays. -/
def LocalEdit : Prop :=
  let docs := splitDocuments c.content
  let after := splitDocuments (c.edit ed).content
  match (c.decide ed).action with
  | .delete => contents after = contents (docs.eraseIdx c.documentIndex.toNat) ∧
      ∀ target ∈ c.target, behindMarker target = []
  | .patch | .replace => ∃ body, after = withBody docs c.documentIndex.toNat body ∧
      ∀ target ∈ c.target, behindMarker body = behindMarker target
  | .noChange | .skip => after = docs

/-- The modes of an edit that wrote or removed its document. -/
def EditMode.writes : EditMode → Bool
  | .patched | .wholeReplace | .deleted => true
  | .noChange | .skipped => false

/-! ## 2. Documents put in the place of others -/

variable {ed c} {before after : List RawDoc} {d e : RawDoc}

theorem closed_text {d : RawDoc} (hbody : d.body ≠ []) :
    Closed isNewline d.text ↔ Closed isNewline d.body := by
  obtain ⟨x, hx⟩ := Option.ne_none_iff_exists'.mp
    (fun hnone => hbody (List.getLast?_eq_none_iff.mp hnone))
  simp [Closed, RawDoc.text, List.getLast?_append, hx]

/-- A document that takes the place of `d`: behind the same separator, and closed where another
    document follows. -/
structure Replaces (d e : RawDoc) (after : List RawDoc) : Prop where
  sep : e.sep = d.sep
  proper : Proper e
  closed : after ≠ [] → e.body ≠ [] ∧ Closed isNewline e.body

theorem Carved.replace (h : Carved (before ++ d :: after)) (he : Replaces d e after) :
    Carved (before ++ e :: after) := by
  have hrest := h.closed
  rw [List.dropLast_append_cons] at hrest
  refine ⟨by simp, ?_, ?_, ?_, ?_⟩
  · intro x hx hsep
    cases before with
    | nil =>
      obtain rfl : e = x := by simpa using hx
      by_cases hafter : after = []
      · exact .inr (by rw [hafter]; rfl)
      · exact .inl (he.closed hafter).1
    | cons first before => simpa using h.first x hx hsep
  · intro x hx
    cases before with
    | nil => exact h.later x hx
    | cons first before =>
      rcases List.mem_append.mp hx with hx | hx
      · exact h.later x (List.mem_append_left _ hx)
      · rcases List.mem_cons.mp hx with rfl | hx
        · rw [he.sep]
          exact h.later d (by simp)
        · exact h.later x (by simp [hx])
  · intro x hx
    rcases List.mem_append.mp hx with hx | hx
    · exact h.proper x (by simp [hx])
    · rcases List.mem_cons.mp hx with rfl | hx
      · exact he.proper
      · exact h.proper x (by simp [hx])
  · intro x hx
    rw [List.dropLast_append_cons] at hx
    rcases List.mem_append.mp hx with hx | hx
    · exact hrest x (List.mem_append_left _ hx)
    · cases after with
      | nil => simp at hx
      | cons next after =>
        rw [List.dropLast_cons_cons] at hx hrest
        rcases List.mem_cons.mp hx with rfl | hx
        · obtain ⟨hne, hclose⟩ := he.closed (by simp)
          exact (closed_text hne).mpr hclose
        · exact hrest x (by simp [hx])

theorem Carved.remove (h : Carved (before ++ d :: after)) (hbefore : before ≠ []) :
    Carved (before ++ after) := by
  obtain ⟨first, before, rfl⟩ := List.exists_cons_of_ne_nil hbefore
  have hsub : ∀ x ∈ first :: (before ++ after), x ∈ first :: (before ++ d :: after) := by
    simp only [List.mem_cons, List.mem_append]
    tauto
  have hrest := h.closed
  rw [List.dropLast_append_cons] at hrest
  refine ⟨by simp, fun x hx hsep => .inl ?_, fun x hx => h.later x ?_,
    fun x hx => h.proper x (hsub x hx), fun x hx => ?_⟩
  · rcases h.first x hx hsep with hne | hone
    · exact hne
    · simp at hone
  · rcases List.mem_append.mp hx with hx | hx
    · exact List.mem_append_left _ hx
    · exact List.mem_append_right _ (List.mem_cons_of_mem _ hx)
  · cases after with
    | nil => exact hrest x (List.mem_append_left _ (List.mem_of_mem_dropLast (by simpa using hx)))
    | cons next after =>
      rw [List.dropLast_append_cons] at hx
      rw [List.dropLast_cons_cons] at hrest
      rcases List.mem_append.mp hx with hx | hx
      · exact hrest x (List.mem_append_left _ hx)
      · exact hrest x (List.mem_append_right _ (List.mem_cons_of_mem _ hx))

theorem Carved.tail (h : Carved (d :: e :: after)) : Carved (e :: after) := by
  have hrest := h.closed
  rw [List.dropLast_cons_cons] at hrest
  refine ⟨by simp, fun x hx hsep => ?_, fun x hx => h.later x (List.mem_cons_of_mem _ hx),
    fun x hx => h.proper x (List.mem_cons_of_mem _ hx),
    fun x hx => hrest x (List.mem_cons_of_mem _ hx)⟩
  exact absurd hsep (h.later x (List.mem_of_mem_head? hx))

theorem Carved.bare (h : Carved (d :: after)) (hbody : d.body ≠ []) :
    Carved (⟨[], d.body⟩ :: after) := by
  have hproper := List.forall_mem_cons.mp h.proper
  refine ⟨by simp, fun x hx _ => ?_, h.later,
    List.forall_mem_cons.mpr ⟨⟨fun hsep => absurd rfl hsep, hproper.1.2⟩, hproper.2⟩, ?_⟩
  · obtain rfl : ⟨[], d.body⟩ = x := by simpa using hx
    exact .inl hbody
  · have hrest := h.closed
    cases after with
    | nil => simp
    | cons next after =>
      rw [List.dropLast_cons_cons] at hrest ⊢
      have hcons := List.forall_mem_cons.mp hrest
      exact List.forall_mem_cons.mpr ⟨(closed_text hbody).mp hcons.1, hcons.2⟩

/-! ## 3. The edits -/

variable {docs : List RawDoc}

theorem exists_split {i : Nat} (hd : docs[i]? = some d) :
    ∃ before after, docs = before ++ d :: after ∧ before.length = i := by
  obtain ⟨hlt, rfl⟩ := List.getElem?_eq_some_iff.mp hd
  exact ⟨docs.take i, docs.drop (i + 1), by simp, by simp [Nat.le_of_lt hlt]⟩

theorem withBody_split (before after : List RawDoc) (d : RawDoc) (body : Text) :
    withBody (before ++ d :: after) before.length body =
      before ++ { d with body := body } :: after := by
  induction before with
  | nil => rfl
  | cons first before ih => exact congrArg (first :: ·) ih

theorem withBody_injective {i : Nat} (hd : docs[i]? = some d) :
    Function.Injective (withBody docs i) := by
  obtain ⟨before, after, rfl, rfl⟩ := exists_split hd
  intro body body' h
  simpa [withBody_split] using h

/-- A text that can stand in the place of a body. -/
structure Fits (target body : Text) : Prop where
  plain : Plain body
  closed : target.getLast? = some '\n' → body ≠ [] ∧ Closed isNewline body
  behind : behindMarker body = []

theorem splitDocuments_withBody {i : Nat} {body : Text} (h : Carved docs) (hd : docs[i]? = some d)
    (hbody : d.body ≠ []) (hfits : Fits d.body body) :
    splitDocuments (joinDocuments (withBody docs i body)) = withBody docs i body := by
  obtain ⟨before, after, rfl, rfl⟩ := exists_split hd
  rw [withBody_split]
  refine Carved.splitDocuments_joinDocuments
    (h.replace ⟨rfl, ⟨fun hsep => ?_, hfits.plain⟩, fun hmore => ?_⟩)
  · have hold := (h.proper d (by simp)).1 hsep
    exact ⟨hold.line, hold.separator, fun _ => hold.closed hbody⟩
  · -- a document that another one follows ends in a newline
    apply hfits.closed
    have hmem : d ∈ (before ++ d :: after).dropLast := by
      rw [List.dropLast_append_cons]
      obtain ⟨next, after, rfl⟩ := List.exists_cons_of_ne_nil hmore
      simp
    have hend := (closed_text hbody).mp (h.closed d hmem)
    obtain ⟨x, hx⟩ := Option.ne_none_iff_exists'.mp
      (fun hnone => hbody (List.getLast?_eq_none_iff.mp hnone))
    rw [hx, show x = '\n' by simpa [isNewline] using hend x hx]

theorem OneDocument.fits {s : Text} (h : OneDocument s) (target : Text) : Fits target s :=
  ⟨h.plain, fun _ => ⟨h.nonempty, h.closed⟩, h.behindMarker⟩

theorem OneDocument.fits_reskin {s : Text} (h : OneDocument s) (target : Text) :
    Fits target (reskinDocument target s) := by
  refine ⟨(framingOf target).plain_apply h, fun hend => Framing.closed_apply ?_ h,
    (framingOf target).behindMarker_apply h⟩
  simp [framingOf, hend]

section Edit

variable (hencode : ∀ n s, ed.yaml.encodeNode n = some s → OneDocument s)
  (hrender : ∀ render desired s, c.render = some render → render desired = some s → OneDocument s)
  {docs : List RawDoc} {i : Nat} {target : Text} {desired : List (Text × Value)}

/-- What the patch and the replacement make of a file: nothing, or one body in its place. -/
def OneBody (docs : List RawDoc) (i : Nat) (target : Text) (r : EditResult) : Prop :=
  (r.content = joinDocuments docs ∧ r.mode.writes = false) ∨
    ∃ body, Fits target body ∧ r.content = joinDocuments (withBody docs i body) ∧
      r.mode.writes = true

include hrender in
theorem applyReplace_oneBody : OneBody docs i target (applyReplace c docs i desired) := by
  unfold applyReplace
  cases hr : c.render.bind (fun render => render desired) with
  | none => exact .inl ⟨rfl, rfl⟩
  | some rendered =>
    obtain ⟨render, hsome, hdone⟩ := Option.bind_eq_some_iff.mp hr
    exact .inr ⟨rendered, (hrender render desired rendered hsome hdone).fits target, rfl, rfl⟩

include hencode hrender in
theorem applyPatch_oneBody : OneBody docs i target (applyPatch ed c docs i target desired) := by
  unfold applyPatch
  split
  · split
    · exact applyReplace_oneBody hrender
    · exact .inl ⟨rfl, rfl⟩
    · split
      · exact applyReplace_oneBody hrender
      · rename_i encoded henc
        exact .inr ⟨_, (hencode _ _ henc).fits_reskin target, rfl, rfl⟩
  · exact applyReplace_oneBody hrender

end Edit

/-! ## 4. Locality -/

theorem contents_cons (d : RawDoc) (docs : List RawDoc) :
    contents (d :: docs) = if separatorContent d.sep = [] ∧ d.body = [] then contents docs
      else (separatorContent d.sep, d.body) :: contents docs := by
  rw [contents, List.map_cons, List.filter_cons]
  by_cases h : separatorContent d.sep = [] ∧ d.body = []
  · rw [if_neg (by simp [h]), if_pos h]
    rfl
  · rw [if_pos (by rw [decide_eq_true_eq]; exact fun heq => h (Prod.mk.inj heq)), if_neg h]
    rfl

theorem contents_splitDocuments_nil : contents (splitDocuments []) = [] := by decide

theorem contents_bare (h : Carved (d :: e :: after)) :
    contents (splitDocuments (joinDocuments (⟨[], e.body⟩ :: after))) = contents (e :: after) ↔
      separatorContent e.sep = [] := by
  rw [contents_cons e]
  by_cases hbody : e.body = []
  · have hjoin : joinDocuments (⟨[], e.body⟩ :: after) = joinDocuments after := by
      rw [hbody]
      rfl
    have hrest : contents (splitDocuments (joinDocuments after)) = contents after := by
      cases after with
      | nil => exact contents_splitDocuments_nil
      | cons next after => rw [h.tail.tail.splitDocuments_joinDocuments]
    rw [hjoin, hrest]
    by_cases hsep : separatorContent e.sep = []
    · simp [hsep, hbody]
    · simp [hsep]
  · rw [(h.tail.bare hbody).splitDocuments_joinDocuments, contents_cons, if_neg (by simp [hbody]),
      if_neg (by simp [hbody]), List.cons.injEq, Prod.mk.injEq,
      show separatorContent [] = [] by decide]
    simp only [and_true]
    exact eq_comm

theorem contents_applyDelete {i : Nat} (h : Carved docs) (hi : i < docs.length) :
    contents (splitDocuments (applyDelete docs i).content) = contents (docs.eraseIdx i) ↔
      ¬ (i = 0 ∧ ∃ d, docs[1]? = some d ∧ separatorContent d.sep ≠ []) := by
  unfold applyDelete
  split_ifs with hone hzero
  · -- the only document
    obtain ⟨d, rfl⟩ := List.length_eq_one_iff.mp hone
    obtain rfl : i = 0 := by simpa using hi
    exact iff_of_true contents_splitDocuments_nil (by simp)
  · subst hzero
    match docs, hi with
    | d :: e :: after, _ => simpa using contents_bare h
    | [d], _ => exact absurd rfl hone
  · obtain ⟨d, hd⟩ : ∃ d, docs[i]? = some d := ⟨_, List.getElem?_eq_getElem hi⟩
    obtain ⟨before, after, rfl, rfl⟩ := exists_split hd
    have herase : (before ++ d :: after).eraseIdx before.length = before ++ after := by
      rw [List.eraseIdx_append_of_length_le le_rfl]
      simp
    have hbefore : before ≠ [] := fun hnil => hzero (by rw [hnil]; rfl)
    refine iff_of_true ?_ (fun hfirst => hzero hfirst.1)
    simp only [herase, (h.remove hbefore).splitDocuments_joinDocuments]

theorem getElem?_of_target {target : Text} (h : c.target = some target) :
    ∃ d, (splitDocuments c.content)[c.documentIndex.toNat]? = some d ∧ d.body = target ∧
      0 ≤ c.documentIndex := by
  unfold Comparison.target documentBody at h
  split_ifs at h with hidx
  obtain ⟨d, hd, hbody⟩ := Option.map_eq_some_iff.mp h
  exact ⟨d, hd, hbody, hidx⟩

theorem target_ne_nil {desired : List (Text × Value)} {target : Text} (h : c.target = some target)
    (hdesired : c.desired = some desired) (hskip : (c.decide ed).action ≠ .skip) :
    target ≠ [] := by
  rintro rfl
  apply hskip
  rw [Comparison.decide, h]
  simp only [hdesired, decideContentEdit,
    show decodeDoc ed.yaml [] = .ok none from if_pos (by decide)]

theorem decideContentEdit_ne_delete (yaml : Yaml) (target : Text) (desired : List (Text × Value)) :
    decideContentEdit yaml target desired ≠ .delete := by
  unfold decideContentEdit
  intro h
  repeat' split at h
  all_goals cases h

theorem OneBody.local_iff {r : EditResult} {i : Nat} (hcarved : Carved docs) (hd : docs[i]? = some d)
    (hbody : d.body ≠ []) (hr : OneBody docs i d.body r) :
    (∃ body, splitDocuments r.content = withBody docs i body ∧
        behindMarker body = behindMarker d.body) ↔
      (r.mode.writes = true → behindMarker d.body = []) := by
  rcases hr with ⟨hcontent, hmode⟩ | ⟨body, hfits, hcontent, hmode⟩
  · -- nothing was written: the file has the body it had
    have hsame : docs = withBody docs i d.body := by
      obtain ⟨before, after, hdocs, hlen⟩ := exists_split hd
      rw [hdocs, ← hlen, withBody_split]
    refine iff_of_true ⟨d.body, ?_, rfl⟩ (by simp [hmode])
    rw [hcontent, hcarved.splitDocuments_joinDocuments]
    exact hsame
  · rw [hcontent, splitDocuments_withBody hcarved hd hbody hfits]
    constructor
    · rintro ⟨written, hwritten, hbehind⟩ -
      rw [← hbehind, ← withBody_injective hd hwritten, hfits.behind]
    · exact fun h => ⟨body, rfl, by rw [hfits.behind, h hmode]⟩

/-- An editor that reads `a: x` as the first document of every text and writes `a: y`. -/
def oneMapEditor : Editor where
  yaml :=
    { resolve := fun _ _ _ => none
      parse := fun _ => .ok (some (.mapping ⟨⟨.plain, false⟩, [], [], []⟩ [] []
        [(plainScalar "a", plainScalar "x")]))
      encodeValue := fun _ => some (plainScalar "y")
      encodeNode := fun _ => some "a: y\n".toList }
  hashBody := id
where
  plainScalar (value : String) : Node := .scalar ⟨⟨.plain, false⟩, [], [], []⟩ [] [] value.toList

def inlineFile : Text := "a: x\n--- \x7bb: z\x7d\n".toList
def endedFile : Text := "a: x\n...\nb: z\n".toList

/-- Document `i` compared with an object that has `a: y`, or with none. -/
def comparing (content : Text) (i : Int) (wanted : Bool) : Comparison where
  content := content
  documentIndex := i
  desired := if wanted then some [("a".toList, .leaf (.str "y".toList))] else none
  render := none
  merge := ⟨none, []⟩

end GitopsReverser.Edit
