import GitopsReverser.Edit.Split
import GitopsReverser.Reasoning.Lists
import GitopsReverser.Reasoning.Tree

/-!
# Node — YAML nodes and the values they stand for

A document is edited as a tree of nodes, which keep comments, quoting and order, and compared as a
value: a tree of scalars, lists and maps. The YAML library between the two, and between nodes and
text, is a parameter; how it takes lists and mappings apart is written out.

Numbers are rationals. Every number Go holds is one: an integer of at most 64 bits, or a finite
floating point number.
-/

namespace GitopsReverser.Edit

open Reasoning
open Git (trimSpace)

/-! ## 1. Nodes -/

inductive Form where
  | plain
  | doubleQuoted
  | singleQuoted
  | literal
  | folded
  | flow
  deriving DecidableEq

/-- `yaml.Style`; a tag that is written out is a bit of its own. -/
structure Style where
  form : Form
  tagged : Bool
  deriving DecidableEq

/-- What a node carries besides its content. -/
structure Dress where
  style : Style
  headComment : Text
  lineComment : Text
  footComment : Text
  deriving DecidableEq

/-- `yaml.Node` of a parsed document, without positions. -/
inductive Node where
  | scalar (dress : Dress) (anchor tag value : Text)
  | mapping (dress : Dress) (anchor tag : Text) (content : List (Node × Node))
  | sequence (dress : Dress) (anchor tag : Text) (content : List Node)
  | aliasTo (dress : Dress) (anchor : Text)

namespace Node

def value : Node → Text
  | .scalar _ _ _ value => value
  | .aliasTo _ anchor => anchor
  | _ => []

def tag : Node → Text
  | .scalar _ _ tag _ | .mapping _ _ tag _ | .sequence _ _ tag _ => tag
  | .aliasTo _ _ => []

def dress : Node → Dress
  | .scalar dress _ _ _ | .mapping dress _ _ _ | .sequence dress _ _ _ | .aliasTo dress _ => dress

def withDress (dress : Dress) : Node → Node
  | .scalar _ anchor tag value => .scalar dress anchor tag value
  | .mapping _ anchor tag content => .mapping dress anchor tag content
  | .sequence _ anchor tag content => .sequence dress anchor tag content
  | .aliasTo _ anchor => .aliasTo dress anchor

end Node

def nodeMapGet (m : Option Node) (key : Text) : Option Node :=
  match m with
  | some (.mapping _ _ _ content) => (content.find? (fun e => e.1.value = key)).map Prod.snd
  | _ => none

def scalarOf : Option Node → Text
  | some (.scalar _ _ _ value) => value
  | _ => []

def strTag : Text := "!!str".toList

def binaryTag : Text := "!!binary".toList

def mergeTag : Text := "!!merge".toList

def isUnusualTag (tag : Text) : Bool :=
  if "!!".toList <+: tag then decide (tag = binaryTag) else decide ("!".toList <+: tag)

def ownReason (anchor tag : Text) : Option Text :=
  if anchor ≠ [] then some "anchor".toList
  else if isUnusualTag tag then some ("unusual tag ".toList ++ tag)
  else none

def mergeKey : Text := "<<".toList

def badKey (seen : List Text) : List (Node × Node) → Option Text
  | [] => none
  | (k, _) :: content =>
    if k.tag = mergeTag ∨ k.value = mergeKey then some "merge key".toList
    else if k.value ∈ seen then some ("duplicate key ".toList ++ k.value)
    else badKey (k.value :: seen) content

def hasDisallowed : Node → Option Text
  | .aliasTo _ _ => some "alias".toList
  | .scalar _ anchor tag _ => ownReason anchor tag
  | .sequence _ anchor tag content => (ownReason anchor tag).or (inItems content)
  | .mapping _ anchor tag content =>
    (ownReason anchor tag).or ((badKey [] content).or (inPairs content))
where
  inItems : List Node → Option Text
    | [] => none
    | n :: content => (hasDisallowed n).or (inItems content)
  inPairs : List (Node × Node) → Option Text
    | [] => none
    | (k, v) :: content => (hasDisallowed k).or ((hasDisallowed v).or (inPairs content))

/-- The identity of a manifest, as written. -/
structure Identity where
  apiVersion : Text
  kind : Text
  namespace_ : Text
  name : Text
  deriving DecidableEq, Inhabited

/-- `index.go`, `identityFromNode`, the identity alone: callers here ignore whether it is
    complete, and that of a root that is no mapping is empty. -/
def identityFromNode (root : Node) : Identity :=
  match root with
  | .mapping .. =>
    let md := nodeMapGet (some root) "metadata".toList
    { apiVersion := scalarOf (nodeMapGet (some root) "apiVersion".toList)
      kind := scalarOf (nodeMapGet (some root) "kind".toList)
      namespace_ := scalarOf (nodeMapGet md "namespace".toList)
      name := scalarOf (nodeMapGet md "name".toList) }
  | _ => ⟨[], [], [], []⟩

/-! ## 2. Values -/

inductive Atom where
  | null
  | bool (b : Bool)
  | num (q : ℚ)
  | str (s : Text)
  deriving DecidableEq

/-- What a scalar node decodes to: also times and the floating point numbers JSON does not have. -/
inductive Scalar where
  | json (a : Atom)
  | time (rfc3339 : Text)
  | nonFinite (text : Text)
  deriving DecidableEq

/-- A JSON value, a map with its keys in order. -/
abbrev Value := Tree Text Atom

/-- The nearest floating point number of 53 bits, halfway cases to the even one. -/
def roundToFloat64 (n : Int) : Int :=
  let a := n.natAbs
  if a ≤ 2 ^ 53 then n
  else
    let unit := 2 ^ (Nat.log2 a - 52)
    let m := a / unit
    let up := unit < 2 * (a % unit) ∨ (unit = 2 * (a % unit) ∧ m % 2 = 1)
    n.sign * ((if up then m + 1 else m) * unit : Nat)

/-- A number after `json.Marshal` and `json.Unmarshal`: a `float64`. A number that is not an
    integer was one already. -/
def normalizeNumber (q : ℚ) : ℚ := if q.den = 1 then (roundToFloat64 q.num : ℚ) else q

def Atom.normalize : Atom → Atom
  | .num q => .num (normalizeNumber q)
  | a => a

/-- A time is marshalled as text; a number that is not finite is not marshalled. -/
def Scalar.normalize : Scalar → Option Atom
  | .json a => some a.normalize
  | .time s => some (.str s)
  | .nonFinite _ => none

/-- A value that cannot be marshalled is returned as it is, and is equal to no JSON value. -/
def normalizeJSON (v : Tree Text Scalar) : Option Value := v.traverse Scalar.normalize

/-! ## 3. The YAML library -/

/-- `yaml.v3`. -/
structure Yaml where
  /-- The value of a scalar node, by style, tag and text. -/
  resolve : Style → Text → Text → Option Scalar
  /-- `yaml.Unmarshal` into a node: the root, if the text holds a document. -/
  parse : Text → Except Unit (Option Node)
  /-- `Node.Encode`. -/
  encodeValue : Value → Option Node
  /-- `yamlstyle.Encode` of a node. -/
  encodeNode : Node → Option Text

/-- The key of an entry decoded into an untyped value: a map whose keys are not all strings is no
    `map[string]interface{}`. -/
def stringKey (yaml : Yaml) : Node → Option (Option Text)
  | .scalar dress _ tag value =>
    match yaml.resolve dress.style tag value with
    | some (.json (.str _)) => if tag = binaryTag then none else some (some value)
    | _ => none
  | _ => none

/-- The key of an entry decoded into a `map[string]interface{}`: any scalar is taken by its text,
    and an entry whose key is null is left out. -/
def textKey (yaml : Yaml) : Node → Option (Option Text)
  | .scalar dress _ tag value =>
    match yaml.resolve dress.style tag value with
    | some (.json .null) => some none
    | some _ => some (some value)
    | none => none
  | _ => none

def entriesBy {β : Type} (keyOf : Node → Option (Option Text)) (dec : Node → Option β) :
    List (Node × Node) → Option (List (Text × β))
  | [] => some []
  | (k, v) :: content =>
    match keyOf k with
    | none => none
    | some none => entriesBy keyOf dec content
    | some (some key) =>
      (dec v).bind (fun t => (entriesBy keyOf dec content).map ((key, t) :: ·))

/-- The map of decoded entries; a key that is written twice is an error. -/
def mapOf {α : Type} (content : List (Node × Node)) (entries : List (Text × Tree Text α)) :
    Option (Tree Text α) :=
  if (content.map (fun e => e.1.value)).Nodup then
    some (.map (Tree.tabulate (Tree.sortedKeys (entries.map Prod.fst)) (fun k => entries.lookup k)))
  else none

/-- `Node.Decode` into an untyped value, reading scalars with `read`. Without an answer the node
    does not decode, or not to lists and maps with string keys. -/
def decodeWith {α : Type} (yaml : Yaml) (read : Style → Text → Text → Option α) :
    Node → Option (Tree Text α)
  | .scalar dress _ tag value => (read dress.style tag value).map .leaf
  | .sequence _ _ _ content => (decodeItems content).map .list
  | .mapping _ _ _ content => (decodeEntries content).bind (mapOf content)
  | .aliasTo _ _ => none
where
  decodeItems : List Node → Option (List (Tree Text α))
    | [] => some []
    | n :: content =>
      (decodeWith yaml read n).bind (fun t => (decodeItems content).map (t :: ·))
  decodeEntries : List (Node × Node) → Option (List (Text × Tree Text α))
    | [] => some []
    | (k, v) :: content =>
      match stringKey yaml k with
      | none => none
      | some none => decodeEntries content
      | some (some key) =>
        (decodeWith yaml read v).bind (fun t => (decodeEntries content).map ((key, t) :: ·))

variable {α : Type}

/-- `yaml.Unmarshal` of a mapping into a `map[string]interface{}`. -/
def decodeRootWith {α : Type} (yaml : Yaml) (read : Style → Text → Text → Option α) :
    Node → Option (Tree Text α)
  | .mapping _ _ _ content =>
    (entriesBy (textKey yaml) (decodeWith yaml read) content).bind (mapOf content)
  | _ => none

def decode (yaml : Yaml) : Node → Option (Tree Text Scalar) := decodeWith yaml yaml.resolve

def stripComments (body : Text) : Text :=
  ((splitLinesKeepEnds (body ++ ['\n'])).filter (fun line => (trimSpace line).head? ≠ some '#')).flatten

def decodeDoc (yaml : Yaml) (body : Text) : Except Unit (Option Node) :=
  if trimSpace (stripComments body) = [] then .ok none else yaml.parse body

end GitopsReverser.Edit
