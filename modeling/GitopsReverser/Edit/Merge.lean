import GitopsReverser.Edit.Node

/-!
# Merge — the desired object merged onto the nodes of a document

`merge.go` changes the node tree in place; here each function returns the new content with the
`changed` flag, and nothing when the merge asks for a whole replacement. Nodes are told apart by
pointer in one place only, the check whether a keyed list was reordered, where the pointer of an
item is its position.
-/

namespace GitopsReverser.Edit

open Reasoning

/-- `mergeCtx`: which paths are owned (all of them without a predicate) and the field that pairs
    list items, empty for pairing by position. -/
structure MergeCtx where
  owns : Option (List Text → Bool)
  keyField : Text

def MergeCtx.ownsPath (ctx : MergeCtx) (path : List Text) : Bool :=
  match ctx.owns with
  | none => true
  | some owns => owns path

/-! ## 1. Single nodes -/

def isPreservableStringStyle (s : Style) : Bool :=
  !s.tagged && decide (s.form ∈ [.singleQuoted, .doubleQuoted, .literal, .folded])

def isString : Value → Bool
  | .leaf (.str _) => true
  | _ => false

def isScalar : Node → Bool
  | .scalar .. => true
  | _ => false

/-- A fresh node in the comments of the old one and, for strings, in its quoting. -/
def replaceNode (yaml : Yaml) (node : Node) (desired : Value) : Option Node :=
  (yaml.encodeValue desired).map (fun fresh =>
    let keepStyle := isScalar node && isScalar fresh && isString desired &&
      isPreservableStringStyle node.dress.style
    fresh.withDress { node.dress with
      style := if keepStyle then node.dress.style else fresh.dress.style })

def nodeEqualsValue (yaml : Yaml) (node : Node) (desired : Value) : Bool :=
  decide ((decode yaml node).bind normalizeJSON = some (desired.mapLeaves Atom.normalize))

def newKey (k : Text) : Node := .scalar ⟨⟨.plain, false⟩, [], [], []⟩ [] strTag k

/-! ## 2. Keyed lists -/

def itemKey (key : Text) (item : Node) : Text := scalarOf (nodeMapGet (some item) key)

def indexNodesByKey (items : List Node) (key : Text) : Option (List (Text × Node × Nat)) :=
  let keys := items.map (itemKey key)
  if [] ∉ keys ∧ keys.Nodup then some (keys.zip (items.zipIdx)) else none

def desiredKey (key : Text) : Value → Text
  | .map entries =>
    match entries.lookup key with
    | some (.leaf (.str s)) => s
    | _ => []
  | _ => []

def keyedDesiredItems (desired : List Value) (key : Text) : Bool :=
  let keys := desired.map (desiredKey key)
  decide ([] ∉ keys ∧ keys.Nodup)

/-- An item of the rebuilt list: the node, where it was taken from, and whether it changed. -/
structure Rebuilt where
  node : Node
  origin : Option Nat
  changed : Bool

def sequenceReordered (original : List Node) (rebuilt : List Rebuilt) : Bool :=
  decide (rebuilt.map Rebuilt.origin ≠ (List.range original.length).map some)

/-! ## 3. The merge -/

mutual

/-- `merge.go`, `mergeMapping`, on the content of the mapping node. -/
def mergeMapping (yaml : Yaml) (ctx : MergeCtx) (path : List Text) (content : List (Node × Node))
    (desired : List (Text × Value)) : Option (List (Node × Node) × Bool) :=
  let merged := collect (fun e : Node × Node =>
    match _h : desired.lookup e.1.value with
    | none =>
      -- an owned field that is absent from desired goes
      if ctx.ownsPath (path ++ [e.1.value]) then some (none, true) else some (some e, false)
    | some d =>
      (mergeValue yaml ctx (path ++ [e.1.value]) e.2 d).map (fun r => (some (e.1, r.1), r.2)))
    content
  let extra := Tree.sortedKeys ((desired.map Prod.fst).filter
    (fun k => k ∉ content.map (fun e => e.1.value)))
  let added := collect (fun k =>
    ((desired.lookup k).bind yaml.encodeValue).map (fun n => (newKey k, n))) extra
  merged.bind (fun merged => added.map (fun added =>
    (merged.filterMap Prod.fst ++ added, merged.any Prod.snd || decide (added ≠ []))))
termination_by 4 * (Reasoning.Tree.map desired).size
decreasing_by
  have := Tree.size_lookup_lt _h
  omega

def mergeValue (yaml : Yaml) (ctx : MergeCtx) (path : List Text) (node : Node) (desired : Value) :
    Option (Node × Bool) :=
  match desired, node with
  | .map entries, .mapping dress anchor tag content =>
    (mergeMapping yaml ctx path content entries).map (fun r =>
      (.mapping dress anchor tag r.1, r.2))
  | .list items, .sequence dress anchor tag content =>
    (mergeSequence yaml ctx path content items).map (fun r =>
      (.sequence dress anchor tag r.1, r.2))
  | .leaf a, node =>
    if nodeEqualsValue yaml node (.leaf a) then some (node, false)
    else (replaceNode yaml node (.leaf a)).map (fun n => (n, true))
  | desired, node => (replaceNode yaml node desired).map (fun n => (n, true))
termination_by 4 * desired.size + 3

def mergeSequence (yaml : Yaml) (ctx : MergeCtx) (path : List Text) (content : List Node)
    (desired : List Value) : Option (List Node × Bool) :=
  if ctx.keyField ≠ [] then
    match mergeSequenceKeyed yaml ctx path content desired with
    | some result => result
    | none => mergeSequenceByIndex yaml ctx path content desired
  else mergeSequenceByIndex yaml ctx path content desired
termination_by 4 * (Tree.list desired).size + 2

def mergeSequenceByIndex (yaml : Yaml) (ctx : MergeCtx) (path : List Text) (content : List Node)
    (desired : List Value) : Option (List Node × Bool) :=
  match content, desired with
  | [], desired =>
    (collect yaml.encodeValue desired).map (fun fresh => (fresh, decide (desired ≠ [])))
  | _ :: _, [] => some ([], true)
  | n :: content, d :: desired =>
    (mergeValue yaml ctx path n d).bind (fun r =>
      (mergeSequenceByIndex yaml ctx path content desired).map (fun rest =>
        (r.1 :: rest.1, r.2 || rest.2)))
termination_by 4 * (Tree.list desired).size + 1
decreasing_by
  all_goals
    have := Tree.size_pos d
    simp only [Tree.size, Tree.size.sizes]
    omega

/-- Without an answer the items are not keyed; an inner answer is missing when the merge of an item
    fails. -/
def mergeSequenceKeyed (yaml : Yaml) (ctx : MergeCtx) (path : List Text) (content : List Node)
    (desired : List Value) : Option (Option (List Node × Bool)) :=
  match indexNodesByKey content ctx.keyField with
  | none => none
  | some existing =>
    if keyedDesiredItems desired ctx.keyField then
      some ((mergeKeyedItems yaml ctx path existing desired).map (fun rebuilt =>
        (rebuilt.map Rebuilt.node, rebuilt.any Rebuilt.changed || sequenceReordered content rebuilt)))
    else none
termination_by 4 * (Tree.list desired).size + 1

def mergeKeyedItems (yaml : Yaml) (ctx : MergeCtx) (path : List Text)
    (existing : List (Text × Node × Nat)) (desired : List Value) : Option (List Rebuilt) :=
  match desired with
  | [] => some []
  | d :: desired =>
    let key := desiredKey ctx.keyField d
    let first : Option Rebuilt :=
      match existing.lookup key, d with
      | some (.mapping dress anchor tag content, pos), .map entries =>
        (mergeMapping yaml ctx (path ++ [key]) content entries).map (fun r =>
          ⟨.mapping dress anchor tag r.1, some pos, r.2⟩)
      | _, _ => (yaml.encodeValue d).map (fun fresh => ⟨fresh, none, false⟩)
    first.bind (fun item =>
      (mergeKeyedItems yaml ctx path existing desired).map (item :: ·))
termination_by 4 * (Tree.list desired).size
decreasing_by
  all_goals
    have := Tree.size_pos d
    simp only [Tree.size, Tree.size.sizes]
    omega
end

end GitopsReverser.Edit
