import GitopsReverser.Reasoning.SlashPath

/-!
# Gitignore — ignore patterns over slash-separated paths

A pattern is matched name by name. How one name is matched (`filepath.Match` in Go, where `none`
is a malformed pattern) is a parameter. In a list of patterns the last one that matches decides.
-/

namespace GitopsReverser.Reasoning

/-- Matches one name of a path against one name of a pattern; `none` is a malformed pattern. -/
abbrev NameMatch := Segment → Segment → Option Bool

structure IgnorePattern where
  names : List Segment
  inclusion : Bool := false
  dirOnly : Bool := false
  isGlob : Bool := false
  deriving DecidableEq, Repr

/-- A leading `!` negates, a trailing `/` restricts to directories, and any other slash anchors
    the pattern at the root. -/
def parsePattern (p : List Char) : IgnorePattern :=
  let inclusion := p.head? = some '!'
  let p := if inclusion then p.tail else p
  let p := if ['\\', ' '] <:+ p then p else p.rdropWhile (· == ' ')
  let dirOnly := p.getLast? = some '/'
  let p := if dirOnly then p.dropLast else p
  { names := splitSlash p, inclusion := inclusion, dirOnly := dirOnly, isGlob := '/' ∈ p }

section Match

variable (nameMatch : NameMatch)

/-- A pattern without a slash matches any name of the path. -/
def simpleNameMatch (pattern : Segment) (dirOnly isDir : Bool) : List Segment → Bool
  | [] => false
  | name :: rest =>
    match nameMatch pattern name with
    | none => false
    | some false => simpleNameMatch pattern dirOnly isDir rest
    | some true => !(dirOnly && !isDir && rest.isEmpty)

def doubleStar : Segment := ['*', '*']

/-- After a `**`: drop names up to the first that matches. Running out of names leaves `false`. -/
def traverse (pattern : Segment) : List Segment → Option (Bool × List Segment)
  | [] => some (false, [])
  | name :: rest =>
    match nameMatch pattern name with
    | none => none
    | some true => some (true, rest)
    | some false => if rest = [] then some (false, []) else traverse pattern rest

/-- The loop over the names of an anchored pattern: whether the last name matched, and the names
    of the path that are left; `none` gives up. -/
def globLoop : List Segment → Bool → Bool → List Segment → Option (Bool × List Segment)
  | [], matched, _, path => some (matched, path)
  | part :: parts, matched, canTraverse, path =>
    if part = [] then globLoop parts matched false path
    else if part = doubleStar then
      if parts = [] then some (matched, path) else globLoop parts matched true path
    else if doubleStar <:+: part then none
    else match path with
      | [] => none
      | name :: rest =>
        if canTraverse then
          match traverse nameMatch part (name :: rest) with
          | none => none
          | some (found, left) => globLoop parts found false left
        else if nameMatch part name = some true then globLoop parts true false rest
        else none

def globMatch (names : List Segment) (dirOnly isDir : Bool) (path : List Segment) : Bool :=
  match globLoop nameMatch names false false path with
  | none => false
  | some (matched, left) => matched && !(dirOnly && !isDir && left.isEmpty)

def IgnorePattern.matches (p : IgnorePattern) (path : List Segment) (isDir : Bool) : Bool :=
  if path = [] then false
  else if p.isGlob then globMatch nameMatch p.names p.dirOnly isDir path
  else simpleNameMatch nameMatch (p.names.headD []) p.dirOnly isDir path

/-- The last pattern that matches decides. -/
def deciding (patterns : List IgnorePattern) (path : List Segment) (isDir : Bool) :
    Option IgnorePattern :=
  patterns.reverse.find? (fun p => p.matches nameMatch path isDir)

def ignored (patterns : List IgnorePattern) (path : List Segment) (isDir : Bool) : Bool :=
  (deciding nameMatch patterns path isDir).any (fun p => !p.inclusion)

end Match

example :
    let patterns := [parsePattern "docs/".toList, parsePattern "!docs/x.yaml".toList]
    let literal : NameMatch := fun pattern name => some (pattern = name)
    ignored literal patterns ["docs".toList] true = true ∧
      ignored literal patterns ["docs".toList, "x.yaml".toList] false = false := by decide

end GitopsReverser.Reasoning
