import GitopsReverser.Reasoning.Gitignore
import GitopsReverser.Manifest.Kustomization

/-!
# Scan — which entries of a folder the operator reads

`classifyEntry` is the verdict the analyzer and the live writer share. A directory is walked when
each directory above it was, so a file is read when every ancestor is descended into and the file
itself is classified as managed YAML.
-/

namespace GitopsReverser.Manifest

open Reasoning
open Git (Path trimSpace)

/-! ## 1. Refusals -/

inductive IssueKind where
  | duplicate | nonKRM | invalidYAML | impureManagedFile | mixedFile | unsupportedKustomize
  | foreignFile | foreignSymlink | ignoreShadowsManaged
  | writeEscapesScope | writeFanIn | renderRefused | unplaceableEdit | renderDoesNotMatchLive
  deriving DecidableEq, Repr

structure AcceptanceIssue where
  kind : IssueKind
  path : Path
  documentIndex : Nat := 0
  deriving DecidableEq, Repr

/-! ## 2. The root ignore file -/

def gitTargetIgnoreFileName : Path := ".gittargetignore".toList

/-- The patterns with the lines they were read from; no line at all is the nil matcher. -/
abbrev IgnoreMatcher := List (IgnorePattern × Path)

def isCatastrophicIgnorePattern (pattern : Path) : Bool :=
  decide (pattern ∈ ["*".toList, "**".toList, "/".toList, "*.yaml".toList, "*.yml".toList,
    "**/*".toList, "**/*.yaml".toList, "**/*.yml".toList])

def ignoreLines (text : List Char) : List Path :=
  (((text.splitOn '\n').map trimSpace).filter (fun l => l ≠ [] && l.head? ≠ some '#'))

def loadGitTargetIgnore (text : List Char) : IgnoreMatcher × List AcceptanceIssue :=
  ((ignoreLines text).map (fun l => (parsePattern l, l)),
    ((ignoreLines text).filter isCatastrophicIgnorePattern).map
      (fun _ => ⟨.ignoreShadowsManaged, gitTargetIgnoreFileName, 0⟩))

section Walk

variable (nameMatch : NameMatch)

def IgnoreMatcher.matches (m : IgnoreMatcher) (path : Path) (isDir : Bool) : Bool :=
  ignored nameMatch (m.map Prod.fst) (splitSlash path) isDir

/-! ## 3. The role of an entry -/

inductive EntryRole where
  | ignored | skipDir | managedYAML | operatorArtifact | benignPassenger
  | foreignFile | foreignSymlink | descend
  deriving DecidableEq, Repr

inductive EntryType where
  | file | dir | symlink
  deriving DecidableEq, Repr

def isRecognizedArtifact (path : Path) : Bool :=
  decide (filepathBase path ∈ ["README.md".toList, ".sops.yaml".toList,
    "kustomization.yaml".toList, "kustomization.yml".toList])

def isBenignPassenger (path : Path) : Bool :=
  decide (filepathBase path ∈ [".gitignore".toList, ".gitattributes".toList, ".gitkeep".toList,
      ".keep".toList, "LICENSE".toList, "LICENSE.txt".toList, "LICENCE".toList,
      "LICENCE.txt".toList, "COPYING".toList, "COPYING.txt".toList, "NOTICE".toList,
      "NOTICE.txt".toList] ∨
    ".md".toList <:+ filepathBase path ∨ ".markdown".toList <:+ filepathBase path)

def classifyEntry (ignore : IgnoreMatcher) (rel : Path) : EntryType → EntryRole
  | .symlink => if ignore.matches nameMatch rel false then .ignored else .foreignSymlink
  | .dir =>
    if filepathBase rel = ".git".toList then .skipDir
    else if ignore.matches nameMatch rel true then .skipDir
    else .descend
  | .file =>
    if rel = gitTargetIgnoreFileName then .ignored
    else if isRecognizedArtifact rel then
      if isYAMLFile rel then .managedYAML else .operatorArtifact
    else if ignore.matches nameMatch rel false then .ignored
    else if isYAMLFile rel then .managedYAML
    else if isBenignPassenger rel then .benignPassenger
    else .foreignFile

/-! ## 4. The walk -/

/-- A folder on disk: its regular files by path, YAML and other, its symlinks, and the text of the
    ignore file at its root. -/
structure Folder where
  yaml : Tree := ∅
  others : List Path := []
  symlinks : List Path := []
  ignoreFile : Option (List Char) := none

def ancestors (path : Path) : List Path :=
  ((splitSlash path).inits.tail.dropLast).map joinSlash

structure ForeignEntry where
  path : Path
  symlink : Bool
  deriving DecidableEq, Repr

structure FolderScan where
  yamlFiles : List FileContent
  foreign : List ForeignEntry := []
  ignore : IgnoreMatcher := []
  ignoreIssues : List AcceptanceIssue := []

def Folder.ignore (folder : Folder) : IgnoreMatcher × List AcceptanceIssue :=
  match folder.ignoreFile with
  | none => ([], [])
  | some text => loadGitTargetIgnore text

def Folder.descends (folder : Folder) (dir : Path) : Bool :=
  decide (dir ∉ folder.symlinks) &&
    decide (classifyEntry nameMatch folder.ignore.1 dir .dir = .descend)

def Folder.visits (folder : Folder) (path : Path) : Bool :=
  (ancestors path).all (folder.descends nameMatch)

def Folder.reads (folder : Folder) (path : Path) : Bool :=
  folder.visits nameMatch path &&
    decide (classifyEntry nameMatch folder.ignore.1 path .file = .managedYAML)

def sortFiles (files : List FileContent) : List FileContent :=
  files.insertionSort (fun a b => a.path ≤ b.path)

theorem mem_sortFiles {f : FileContent} {files : List FileContent} : f ∈ sortFiles files ↔ f ∈ files :=
  (List.perm_insertionSort _ files).mem_iff

def Before (f g : FileContent) : Prop := f.path ≤ g.path ∧ f.path ≠ g.path

theorem sortFiles_sorted {files : List FileContent}
    (h : files.Pairwise (fun f g => f.path ≠ g.path)) : (sortFiles files).Pairwise Before := by
  have : Std.Total (fun f g : FileContent => f.path ≤ g.path) := ⟨fun f g => le_total f.path g.path⟩
  have : IsTrans FileContent (fun f g => f.path ≤ g.path) := ⟨fun _ _ _ => le_trans⟩
  have hdistinct : (sortFiles files).Pairwise (fun f g => f.path ≠ g.path) :=
    (List.Perm.pairwise_iff (fun h => h.symm) (List.perm_insertionSort _ files)).mpr h
  exact (List.pairwise_insertionSort _ files).and hdistinct

end Walk

example : ancestors "a/b/c.yaml".toList = ["a".toList, "a/b".toList] := by decide

end GitopsReverser.Manifest
