import GitopsReverser.Edit.Framing
import GitopsReverser.Edit.Merge

/-!
# Decision — one document of a file compared with the object it should hold

`Decide` states what is to be done with a document and `Apply` does it, on the documents around it
as exact bytes. Reasons and diagnostics are left out, and a comparison always has its document.
-/

namespace GitopsReverser.Edit

open Reasoning

/-- What the editor is given: the YAML library and the fingerprint of a body. -/
structure Editor where
  yaml : Yaml
  hashBody : Text → Text

/-- `Comparison`: a document of a file, the object it should hold (none: the document should go),
    the canonical renderer and the strategies of the merge. -/
structure Comparison where
  content : Text
  documentIndex : Int
  desired : Option (List (Text × Value))
  render : Option (List (Text × Value) → Option Text)
  merge : MergeCtx

inductive DecisionAction where
  | noChange
  | patch
  | replace
  | delete
  | skip
  deriving DecidableEq

structure Decision where
  action : DecisionAction
  documentIndex : Int
  bodyHash : Text
  identity : Identity

inductive EditMode where
  | noChange
  | patched
  | wholeReplace
  | skipped
  | deleted
  deriving DecidableEq

structure EditResult where
  content : Text
  mode : EditMode
  deriving DecidableEq

variable (ed : Editor) (c : Comparison)

def Comparison.target : Option Text := documentBody c.content c.documentIndex

def noIdentity : Identity := ⟨[], [], [], []⟩

/-! ## 1. Decide -/

def normalizedRoot (yaml : Yaml) (root : Node) : Option Value :=
  (decodeRootWith yaml yaml.resolve root).bind normalizeJSON

def decideContentEdit (yaml : Yaml) (target : Text) (desired : List (Text × Value)) :
    DecisionAction :=
  match decodeDoc yaml target with
  | .error _ | .ok none => .skip
  | .ok (some root) =>
    if (hasDisallowed root).isSome then .skip
    -- encrypted documents go through the writer that encrypts
    else if (nodeMapGet (some root) "sops".toList).isSome then .skip
    else match root with
      | .mapping .. =>
        if normalizedRoot yaml root = some ((Reasoning.Tree.map desired).mapLeaves Atom.normalize) then
          .noChange
        else .patch
      | _ => .replace

def observedIdentity (yaml : Yaml) (target : Text) : Identity :=
  match decodeDoc yaml target with
  | .ok (some root) => identityFromNode root
  | _ => noIdentity

def Comparison.decide : Decision :=
  match c.target with
  | none => ⟨.skip, 0, [], noIdentity⟩
  | some target =>
    let action := match c.desired with
      | none => .delete
      | some desired => decideContentEdit ed.yaml target desired
    ⟨action, c.documentIndex, ed.hashBody target,
      if action = .skip then noIdentity else observedIdentity ed.yaml target⟩

/-! ## 2. Apply -/

def validateSnapshot (d : Decision) (target : Text) : Bool :=
  let id := observedIdentity ed.yaml target
  decide (d.documentIndex = c.documentIndex ∧ (d.bodyHash = [] ∨ ed.hashBody target = d.bodyHash) ∧
    (d.identity = noIdentity ∨ id.apiVersion = [] ∨ id.kind = [] ∨ id.name = [] ∨ id = d.identity))

def applyDelete (docs : List RawDoc) (i : Nat) : EditResult :=
  if docs.length = 1 then ⟨[], .deleted⟩
  else
    let rest := docs.eraseIdx i
    ⟨joinDocuments (if i = 0 then rest.modify 0 (fun d => { d with sep := [] }) else rest), .deleted⟩

def withBody (docs : List RawDoc) (i : Nat) (body : Text) : List RawDoc :=
  docs.modify i (fun d => { d with body := body })

def applyReplace (docs : List RawDoc) (i : Nat) (desired : List (Text × Value)) : EditResult :=
  match c.render.bind (fun render => render desired) with
  | none => ⟨joinDocuments docs, .skipped⟩
  | some rendered => ⟨joinDocuments (withBody docs i rendered), .wholeReplace⟩

def applyPatch (docs : List RawDoc) (i : Nat) (target : Text) (desired : List (Text × Value)) :
    EditResult :=
  match decodeDoc ed.yaml target with
  | .ok (some (.mapping dress anchor tag content)) =>
    match mergeMapping ed.yaml c.merge [] content desired with
    | none => applyReplace c docs i desired
    | some (_, false) => ⟨joinDocuments docs, .noChange⟩
    | some (merged, true) =>
      match ed.yaml.encodeNode (.mapping dress anchor tag merged) with
      | none => applyReplace c docs i desired
      | some encoded =>
        ⟨joinDocuments (withBody docs i (reskinDocument target encoded)), .patched⟩
  | _ => applyReplace c docs i desired

def applyDecision (d : Decision) (docs : List RawDoc) (i : Nat) (target : Text) : EditResult :=
  match d.action, c.desired with
  | .delete, _ => applyDelete docs i
  | .replace, some desired => applyReplace c docs i desired
  | .patch, some desired => applyPatch ed c docs i target desired
  | .noChange, _ => ⟨c.content, .noChange⟩
  | _, _ => ⟨c.content, .skipped⟩

def Comparison.apply (d : Decision) : EditResult :=
  if d.action = .skip then ⟨c.content, .skipped⟩
  else match c.target with
    | none => ⟨c.content, .skipped⟩
    | some target =>
      if validateSnapshot ed c d target then
        applyDecision ed c d (splitDocuments c.content) c.documentIndex.toNat target
      else ⟨c.content, .skipped⟩

/-- `patch.go`, `PatchDocument`, and `delete.go`, `DeleteDocument`, which reads an empty result as
    the end of the file: Decide and Apply. -/
def Comparison.edit : EditResult := c.apply ed (c.decide ed)

/-! ## 3. The decision is applied -/

variable {ed c}

theorem validateSnapshot_decide {target : Text} (h : c.target = some target) :
    validateSnapshot ed c (c.decide ed) target = true := by
  unfold validateSnapshot Comparison.decide
  rw [h]
  simp only [decide_eq_true_eq, true_and, or_true]
  split_ifs <;> simp

theorem edit_eq (ed : Editor) {target : Text} (h : c.target = some target) :
    c.edit ed = if (c.decide ed).action = .skip then ⟨c.content, .skipped⟩
      else applyDecision ed c (c.decide ed) (splitDocuments c.content) c.documentIndex.toNat
        target := by
  rw [Comparison.edit, Comparison.apply, h]
  simp only [validateSnapshot_decide h, if_true]

end GitopsReverser.Edit
