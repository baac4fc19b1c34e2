import GitopsReverser.Git.TargetPath

/-!
# Paths — the file names the analyzer and the writer tell apart

Paths are relative to the scanned root. Two spellings of the root occur: `.` in the analyzer
(`slashDir`, the keys of the kustomization index) and the empty path in the writer (`cleanSlash`).
-/

namespace GitopsReverser.Manifest

open Reasoning
open Git (Path trimSpace)

def filepathToSlash (filePath : Path) : Path :=
  filePath.map (fun c => if c = '\\' then '/' else c)

def filepathBase (filePath : Path) : Path := lastName filePath

def pathBase (p : Path) : Path :=
  let stripped := p.rdropWhile (· = '/')
  if p = [] then dot else if stripped = [] then ['/'] else filepathBase stripped

def pathDir (filePath : Path) : Path :=
  pathClean (filePath.take (filePath.length - (filepathBase filePath).length))

def slashDir (filePath : Path) : Path :=
  let dir := pathDir (filepathToSlash filePath)
  if dir = ['/'] ∨ dir = [] then dot else dir

def pathJoin (dir entry : Path) : Path :=
  if dir = [] then (if entry = [] then [] else pathClean entry)
  else if entry = [] then pathClean dir
  else pathClean (dir ++ '/' :: entry)

def trimTrailingSlash (entry : Path) : Path :=
  if entry.getLast? = some '/' then entry.dropLast else entry

def escapes (cleaned : Path) : Bool :=
  decide (cleaned = dotDot ∨ (dotDot ++ ['/']) <+: cleaned)

/-- A `resources:` entry against the directory of its kustomization. The empty result is an entry
    that leaves the scanned root or names the root itself. -/
def cleanJoin (dir entry : Path) : Path :=
  let e := trimTrailingSlash (filepathToSlash (trimSpace entry))
  let joined := if dir = dot ∨ dir = [] then pathClean e else pathClean (dir ++ '/' :: e)
  if joined = dot ∨ escapes joined then [] else joined

def isYAMLFile (filePath : Path) : Bool :=
  decide (".yaml".toList <:+ filePath ∨ ".yml".toList <:+ filePath)

def isSOPSFile (filePath : Path) : Bool :=
  decide (".sops.yaml".toList <:+ filePath ∨ ".sops.yml".toList <:+ filePath)

def isKustomizationFile (filePath : Path) : Bool :=
  decide (filepathBase (filepathToSlash filePath) ∈
    ["kustomization.yaml".toList, "kustomization.yml".toList])

@[simp] theorem filepathToSlash_filepathToSlash (p : Path) :
    filepathToSlash (filepathToSlash p) = filepathToSlash p := by
  simp only [filepathToSlash, List.map_map]
  refine List.map_congr_left (fun c _ => ?_)
  by_cases hc : c = '\\' <;> simp [hc]

theorem filepathToSlash_of_notMem {p : Path} (h : '\\' ∉ p) : filepathToSlash p = p := by
  conv_rhs => rw [← List.map_id p]
  refine List.map_congr_left (fun c hc => ?_)
  have hne : c ≠ '\\' := by
    rintro rfl
    exact h hc
  exact if_neg hne

theorem isKustomizationFile_filepathToSlash (p : Path) :
    isKustomizationFile (filepathToSlash p) = isKustomizationFile p := by
  simp only [isKustomizationFile, filepathToSlash_filepathToSlash]

def cleanSlash (p : Path) : Path :=
  let c := pathClean p
  if c = dot then [] else c

def pathWithin (p dir : Path) : Bool :=
  let p := cleanSlash p
  let dir := cleanSlash dir
  decide (dir = [] ∨ p = dir ∨ dir ++ ['/'] <+: p)

theorem cleanSlash_pathClean (p : Path) : cleanSlash (pathClean p) = cleanSlash p := by
  simp only [cleanSlash, pathClean_idempotent]

theorem pathWithin_pathClean (p dir : Path) : pathWithin (pathClean p) dir = pathWithin p dir := by
  simp only [pathWithin, cleanSlash_pathClean]

def relUnder (ancestor child : Path) : Path :=
  let ancestor := cleanSlash ancestor
  let child := cleanSlash child
  if ancestor = [] then child
  else if ancestor = child then []
  else if ancestor ++ ['/'] <+: child then child.drop (ancestor.length + 1)
  else child

theorem isYAMLFile_filepathBase (p : Path) : isYAMLFile (filepathBase p) = isYAMLFile p := by
  have hback : ∀ t : Path, t <:+ filepathBase p → t <:+ p := fun t h => h.trans (lastName_suffix p)
  have heach : ∀ t : Path, '/' ∉ t → t <:+ p → t <:+ filepathBase p := fun t ht h =>
    suffix_lastName ht h
  simp only [isYAMLFile, decide_eq_decide]
  exact or_congr ⟨hback _, heach _ (by decide)⟩ ⟨hback _, heach _ (by decide)⟩

theorem isYAMLFile_relUnder {sub p : Path} (hp : isYAMLFile (cleanSlash p) = true)
    (hne : relUnder sub p ≠ []) : isYAMLFile (relUnder sub p) = true := by
  simp only [relUnder] at hne ⊢
  split_ifs at hne ⊢ with hroot hsame hbelow
  · exact hp
  · exact absurd rfl hne
  · obtain ⟨rest, hrest⟩ := hbelow
    have hdrop : (cleanSlash p).drop ((cleanSlash sub).length + 1) = rest := by
      rw [← hrest, ← List.length_singleton (a := '/'), ← List.length_append, List.drop_left]
    rw [hdrop, ← isYAMLFile_filepathBase]
    rw [← isYAMLFile_filepathBase, ← hrest, List.append_assoc, List.singleton_append] at hp
    rwa [filepathBase, lastName_append_slash] at hp
  · exact hp

/-- Sorted as Go sorts strings: by code points, first difference first. -/
def sortPaths (ps : List Path) : List Path := ps.insertionSort (· ≤ ·)

theorem mem_sortPaths {p : Path} {ps : List Path} : p ∈ sortPaths ps ↔ p ∈ ps :=
  (List.perm_insertionSort (· ≤ ·) ps).mem_iff

example : cleanJoin "overlays/prod".toList "../../base/".toList = "base".toList := by decide
example : cleanJoin "overlays".toList "../..".toList = [] := by decide
example : slashDir "kustomization.yaml".toList = dot := by decide
example : relUnder "apps".toList "apps/prod/a.yaml".toList = "prod/a.yaml".toList := by decide

end GitopsReverser.Manifest
