import GitopsReverser.Manifest.Paths

/-!
# Document — YAML files as the lists of their documents

A file is carved into documents (`split.go`) that keep every byte, so an edit of one leaves the
others alone. A document is represented by what the analyzer reads off it: nothing, an error, or
the scalars of its header, together with the text that carries everything else.
-/

namespace GitopsReverser.Manifest

open Reasoning
open Git (Path)

/-! ## 1. Documents -/

/-- `types.go`, `Identity`: the content identity, as written in the YAML. -/
structure Identity where
  apiVersion : String
  kind : String
  ns : String
  name : String
  deriving DecidableEq, Repr

def Identity.Complete (id : Identity) : Prop := id.apiVersion ≠ "" ∧ id.kind ≠ "" ∧ id.name ≠ ""

structure PatchEntry where
  path : Path
  patch : Path
  deriving DecidableEq, Repr

structure ImageEntry where
  name : Path
  newName : String
  newTag : String
  digest : String
  tagSuffix : Path
  deriving DecidableEq, Repr

structure ReplicaEntry where
  name : Path
  count : Int
  deriving DecidableEq, Repr

/-- What kustomize decodes from a `kustomization.yaml`. -/
structure KustomizationFile where
  ns : Path := []
  -- `none` when the document has no `resources:` sequence to extend
  resources : Option (List Path) := none
  bases : List Path := []
  images : List ImageEntry := []
  replicas : List ReplicaEntry := []
  patches : List PatchEntry := []
  -- the keys that are set and that the operator does not model
  unmodelled : List String := []
  deriving DecidableEq, Repr

/-- The root node of a document that parses: the header scalars (empty when absent), the first
    construct the editor refuses, and whether a `sops` stanza is present. -/
structure Node where
  identity : Identity
  mapping : Bool := true
  disallowed : Option String := none
  sops : Bool := false
  -- `none` when kustomize's own decoder rejects the document
  kustomization : Option KustomizationFile := none
  -- the values files a release document names, relative to the folder of the document
  valueFiles : List Path := []
  body : String := ""
  deriving DecidableEq, Repr

inductive Document where
  /-- Nothing but white space. -/
  | blank (text : String)
  /-- Comments only: empty for the index, though not blank. -/
  | comment (text : String)
  | invalid (error text : String)
  | node (n : Node)
  deriving DecidableEq, Repr

abbrev Content := List Document

structure FileContent where
  path : Path
  content : Content
  deriving DecidableEq, Repr

def Document.isBlank : Document → Bool
  | .blank _ => true
  | _ => false

/-- What a decoder of the whole file reads: white space and comments in front of the first document
    are part of none. -/
def Content.first (content : Content) : Option Document :=
  content.find? (fun
    | .blank _ | .comment _ => false
    | .invalid _ _ | .node _ => true)

/-- A comment-only document counts, a blank one does not. -/
def documentCount (content : Content) : Nat := content.countP (fun d => !d.isBlank)

def identityFromNode (n : Node) : Option Identity :=
  if n.mapping && n.identity.apiVersion ≠ "" && n.identity.kind ≠ "" && n.identity.name ≠ "" then
    some n.identity
  else none

theorem identityFromNode_eq_some {n : Node} {id : Identity} (h : identityFromNode n = some id) :
    n.identity = id ∧ id.Complete := by
  unfold identityFromNode at h
  split_ifs at h with hcomplete
  cases h
  simp only [Bool.and_eq_true, decide_eq_true_eq] at hcomplete
  exact ⟨rfl, hcomplete.1.1.2, hcomplete.1.2, hcomplete.2⟩

theorem identityFromNode_of_complete {n : Node} (hmap : n.mapping = true)
    (h : n.identity.Complete) : identityFromNode n = some n.identity := by
  simp [identityFromNode, hmap, h.1, h.2.1, h.2.2]

/-! ## 2. The index of one file -/

structure Location where
  path : Path
  documentIndex : Nat
  deriving DecidableEq, Repr

inductive DiagReason where
  | invalidYAML | emptyDocument | notKRM | nonEditable | missingSopsKey | duplicateIdentity
  deriving DecidableEq, Repr

structure Diagnostic where
  reason : DiagReason
  location : Location
  message : String
  deriving DecidableEq, Repr

structure DocumentRecord where
  identity : Identity
  location : Location
  editable : Bool
  reason : String := ""
  encrypted : Bool := false
  deriving DecidableEq, Repr

def indexDocument (path : Path) (i : Nat) : Document → List DocumentRecord × List Diagnostic
  | .blank _ | .comment _ =>
    ([], [⟨.emptyDocument, ⟨path, i⟩, "empty document, ignored"⟩])
  | .invalid error _ => ([], [⟨.invalidYAML, ⟨path, i⟩, "invalid YAML: " ++ error⟩])
  | .node n =>
    match identityFromNode n with
    | none => ([], [⟨.notKRM, ⟨path, i⟩, "not a Kubernetes manifest, ignored"⟩])
    | some id =>
      match n.disallowed with
      | some reason =>
        ([⟨id, ⟨path, i⟩, false, reason, false⟩],
          [⟨.nonEditable, ⟨path, i⟩, "ignored: " ++ reason ++ " is not editable"⟩])
      | none =>
        if isSOPSFile path then
          if n.sops then ([⟨id, ⟨path, i⟩, true, "", true⟩], [])
          else ([], [⟨.missingSopsKey, ⟨path, i⟩, "SOPS file without a sops key, invalid"⟩])
        else ([⟨id, ⟨path, i⟩, true, "", false⟩], [])

def diagnosis (path : Path) : Document → Option DiagReason
  | .blank _ | .comment _ => some .emptyDocument
  | .invalid _ _ => some .invalidYAML
  | .node n =>
    if identityFromNode n = none then some .notKRM
    else if n.disallowed.isNone && isSOPSFile path && !n.sops then some .missingSopsKey
    else none

variable {d : Document} {i : Nat} {path : Path} {r : DocumentRecord}

theorem indexDocument_of_diagnosis {reason : DiagReason} (h : diagnosis path d = some reason) :
    (indexDocument path i d).1 = [] ∧
      ∃ message, (indexDocument path i d).2 = [⟨reason, ⟨path, i⟩, message⟩] := by
  cases d with
  | blank text | comment text | invalid error text => cases h; exact ⟨rfl, _, rfl⟩
  | node n =>
    simp only [diagnosis] at h
    simp only [indexDocument]
    split at h
    · rename_i hid
      cases h
      rw [hid]
      exact ⟨rfl, _, rfl⟩
    · rename_i hid
      split_ifs at h with hsops
      cases h
      obtain ⟨id, hid⟩ := Option.ne_none_iff_exists'.mp hid
      simp only [Bool.and_eq_true, Option.isNone_iff_eq_none, Bool.not_eq_true'] at hsops
      obtain ⟨⟨hdisallow, hpath⟩, hsops⟩ := hsops
      simp [hid, hdisallow, hpath, hsops]

theorem indexDocument_of_no_diagnosis (h : diagnosis path d = none) :
    (indexDocument path i d).1 ≠ [] ∧ ∀ x ∈ (indexDocument path i d).2, x.reason = .nonEditable := by
  cases d with
  | blank text | comment text | invalid error text => cases h
  | node n =>
    simp only [diagnosis] at h
    simp only [indexDocument]
    split_ifs at h with hid hsops
    obtain ⟨id, hid⟩ := Option.ne_none_iff_exists'.mp hid
    rw [hid]
    cases hdisallow : n.disallowed with
    | some reason => simp
    | none =>
      simp only [hdisallow, Option.isNone_none, Bool.true_and] at hsops
      cases hpath : isSOPSFile path with
      | false => simp
      | true =>
        have : n.sops = true := by simpa [hpath] using hsops
        simp [this]

theorem complete_of_mem_indexDocument (hr : r ∈ (indexDocument path i d).1) : r.identity.Complete := by
  simp only [indexDocument] at hr
  split at hr
  · cases hr
  · cases hr
  · cases hr
  · split at hr
    · cases hr
    · rename_i id hid
      have hcomplete := (identityFromNode_eq_some hid).2
      split at hr
      · rwa [List.mem_singleton.mp hr]
      · split_ifs at hr
        · rwa [List.mem_singleton.mp hr]
        · cases hr
        · rwa [List.mem_singleton.mp hr]

def indexOneFile (f : FileContent) : List DocumentRecord × List Diagnostic :=
  let entries := f.content.zipIdx.map (fun (d, i) => indexDocument f.path i d)
  (entries.flatMap Prod.fst, entries.flatMap Prod.snd)

def locate (records : List DocumentRecord) (id : Identity) : Option Location :=
  (records.find? (fun r => r.editable && r.identity = id)).map DocumentRecord.location

def currentDocIndex (path : Path) (content : Content) (id : Identity) : Option Nat :=
  (locate (indexOneFile ⟨path, content⟩).1 id).map Location.documentIndex

/-- The document has an editable record of this identity, as written in its own bytes. -/
def carries (path : Path) (id : Identity) (d : Document) : Bool :=
  (indexDocument path 0 d).1.any (fun r => r.editable && r.identity = id)

theorem indexDocument_records (path : Path) (i : Nat) (d : Document) : (indexDocument path i d).1 =
      ((indexDocument path 0 d).1.head?.map (fun r => { r with location := ⟨path, i⟩ })).toList := by
  simp only [indexDocument]
  split
  · rfl
  · rfl
  · rfl
  · split
    · rfl
    · split
      · rfl
      · split_ifs <;> rfl

theorem mem_indexOneFile {f : FileContent} : r ∈ (indexOneFile f).1 ↔ ∃ d i, (d, i) ∈ f.content.zipIdx ∧
      ∃ r₀, (indexDocument f.path 0 d).1.head? = some r₀ ∧ r = { r₀ with location := ⟨f.path, i⟩ } := by
  simp only [indexOneFile, List.mem_flatMap, List.mem_map]
  constructor
  · rintro ⟨_, ⟨⟨d, i⟩, hd, rfl⟩, hr⟩
    rw [indexDocument_records, Option.mem_toList, Option.map_eq_some_iff] at hr
    obtain ⟨r₀, hr₀, rfl⟩ := hr
    exact ⟨d, i, hd, r₀, hr₀, rfl⟩
  · rintro ⟨d, i, hd, r₀, hr₀, rfl⟩
    refine ⟨_, ⟨(d, i), hd, rfl⟩, ?_⟩
    rw [indexDocument_records, hr₀]
    simp

theorem location_of_mem_indexDocument (h : r ∈ (indexDocument path i d).1) : r.location = ⟨path, i⟩ := by
  rw [indexDocument_records, Option.mem_toList, Option.map_eq_some_iff] at h
  obtain ⟨_, -, rfl⟩ := h
  rfl

theorem mem_indexOneFile_iff {f : FileContent} : (∀ r, r ∈ (indexOneFile f).1 ↔
      ∃ i d, f.content[i]? = some d ∧ r ∈ (indexDocument f.path i d).1) ∧
    ∀ x, x ∈ (indexOneFile f).2 ↔ ∃ i d, f.content[i]? = some d ∧ x ∈ (indexDocument f.path i d).2 := by
  have hall : ∀ e, e ∈ f.content.zipIdx.map (fun (d, i) => indexDocument f.path i d) ↔
      ∃ i d, f.content[i]? = some d ∧ indexDocument f.path i d = e := by
    intro e
    rw [List.mem_map]
    exact ⟨fun ⟨⟨d, i⟩, hd, he⟩ => ⟨i, d, List.mem_zipIdx_iff_getElem?.mp hd, he⟩,
      fun ⟨i, d, hd, he⟩ => ⟨(d, i), List.mem_zipIdx_iff_getElem?.mpr hd, he⟩⟩
  refine ⟨fun r => ?_, fun x => ?_⟩ <;>
  · simp only [indexOneFile, List.mem_flatMap, hall]
    exact ⟨fun ⟨_, ⟨i, d, hd, he⟩, hr⟩ => ⟨i, d, hd, he ▸ hr⟩,
      fun ⟨i, d, hd, hr⟩ => ⟨_, ⟨i, d, hd, rfl⟩, hr⟩⟩

theorem path_of_mem_indexOneFile {f : FileContent} (h : r ∈ (indexOneFile f).1) :
    r.location.path = f.path := by
  obtain ⟨d, i, -, r₀, -, rfl⟩ := mem_indexOneFile.mp h
  rfl

theorem records_sorted (f : FileContent) : (indexOneFile f).1.Pairwise
    (fun r r' => r.location.documentIndex < r'.location.documentIndex) := by
  simp only [indexOneFile, List.flatMap_map]
  rw [List.pairwise_flatMap]
  refine ⟨fun e _ => ?_, ?_⟩
  · rw [indexDocument_records]
    cases (indexDocument f.path 0 e.1).1.head? <;> simp
  · have hplace : (f.content.zipIdx.map Prod.snd).Pairwise (· < ·) := by
      rw [List.zipIdx_map_snd]
      exact List.pairwise_lt_range'
    refine (List.pairwise_map.mp hplace).imp (fun hlt x hx y hy => ?_)
    rwa [location_of_mem_indexDocument hx, location_of_mem_indexDocument hy]

theorem editable_of_encrypted (hr : r ∈ (indexDocument path i d).1)
    (h : r.encrypted = true) : r.editable = true := by
  simp only [indexDocument] at hr
  split at hr
  · cases hr
  · cases hr
  · cases hr
  · split at hr
    · cases hr
    · split at hr
      · rw [List.mem_singleton.mp hr] at h
        cases h
      · split_ifs at hr
        · rw [List.mem_singleton.mp hr]
        · cases hr
        · rw [List.mem_singleton.mp hr]

theorem path_of_head_indexDocument
    (h : (indexDocument path 0 d).1.head? = some r) : r.location.path = path := by
  have hsha := congrArg List.head? (indexDocument_records path 0 d)
  rw [h] at hsha
  have hself : r = { r with location := ⟨path, 0⟩ } := by simpa using hsha
  rw [hself]

theorem exists_record_of_carries {id : Identity} (h : carries path id d = true) :
    ∃ r, (indexDocument path 0 d).1.head? = some r ∧ r.editable = true ∧ r.identity = id := by
  rw [carries, indexDocument_records] at h
  cases hr : (indexDocument path 0 d).1.head? with
  | none => simp [hr] at h
  | some r =>
    simp only [hr, Option.map_some, Option.toList_some, List.any_cons, List.any_nil, Bool.or_false,
      Bool.and_eq_true, decide_eq_true_eq] at h
    exact ⟨r, rfl, h⟩

theorem currentDocIndex_eq (path : Path) (content : Content) (id : Identity) :
    currentDocIndex path content id = content.findIdx? (carries path id) := by
  have hone : ∀ (d : Document) (k : Nat),
      (((indexDocument path k d).1.find? (fun r => r.editable && r.identity = id)).map
        DocumentRecord.location).map Location.documentIndex =
      if carries path id d then some k else none := by
    intro d k
    rw [indexDocument_records, carries, indexDocument_records path 0 d]
    cases (indexDocument path 0 d).1.head? with
    | none => rfl
    | some r => by_cases h : (r.editable && decide (r.identity = id)) = true <;> simp [h]
  suffices hall : ∀ k, (((((content.zipIdx k).map (fun (d, i) => indexDocument path i d)).flatMap
      Prod.fst).find? (fun r => r.editable && r.identity = id)).map DocumentRecord.location).map
      Location.documentIndex = (content.findIdx? (carries path id)).map (· + k) by
    simpa [currentDocIndex, locate, indexOneFile] using hall 0
  induction content with
  | nil => simp
  | cons d content ih =>
    intro k
    have hd := hone d k
    have hrest := ih (k + 1)
    rw [List.zipIdx_cons, List.map_cons, List.flatMap_cons, List.find?_append, List.findIdx?_cons]
    cases hf : (indexDocument path k d).1.find? (fun r => r.editable && r.identity = id) with
    | some r =>
      rw [hf] at hd
      by_cases hc : carries path id d = true
      · simpa [hc] using hd
      · simp [hc] at hd
    | none =>
      rw [hf] at hd
      by_cases hc : carries path id d = true
      · simp [hc] at hd
      · rw [if_neg hc, Option.none_or, hrest]
        cases content.findIdx? (carries path id) with
        | none => rfl
        | some j => simp [Nat.add_comm, Nat.add_left_comm]

/-! ## 3. Editing a file -/

def appendYAMLDocument (existing : Content) (doc : Document) : Content := existing ++ [doc]

/-- The surviving documents, `none` when no byte is left. -/
def deleteDocument (content : Content) (i : Nat) : Option Content :=
  let rest := content.eraseIdx i
  -- the separator of a new first document is dropped, so a blank one may leave nothing
  if rest = [] ∨ (i = 0 ∧ rest = [.blank ""]) then none else some rest

theorem deleteDocument_sublist {content c : Content}
    (h : deleteDocument content i = some c) : c.Sublist content := by
  simp only [deleteDocument] at h
  split_ifs at h
  cases h
  exact List.eraseIdx_sublist content i

def decoded (content : Content) : Content := content.filter (fun d => !d.isBlank)

theorem decoded_deleteDocument (content : Content) (i : Nat) :
    decoded ((deleteDocument content i).getD []) = decoded (content.eraseIdx i) := by
  simp only [deleteDocument]
  split_ifs with h
  · rcases h with h | ⟨-, h⟩ <;> rw [h] <;> rfl
  · rfl

theorem not_blank_of_carries {id : Identity} (h : carries path id d = true) : d.isBlank = false := by
  cases d with
  | blank text => simp [carries, indexDocument] at h
  | comment text | invalid error text | node n => rfl

theorem decoded_eraseP (path : Path) (id : Identity) (content : Content) :
    decoded (content.eraseP (carries path id)) = (decoded content).eraseP (carries path id) := by
  rw [decoded, decoded, List.eraseP_filter]
  congr 2
  funext d
  cases h : carries path id d with
  | false => rfl
  | true => simp [not_blank_of_carries h]

end GitopsReverser.Manifest
