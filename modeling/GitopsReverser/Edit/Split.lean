import GitopsReverser.Git.TargetPath
import GitopsReverser.Reasoning.Lines

/-!
# Split — a manifest file carved into its documents

`split.go` cuts a file at its `---` lines and keeps every byte: a document is the separator line in
front of it and the lines after it. The splitter also follows block scalars, so that a `---` line
inside of one would stay content. A separator line is never indented and so never inside
(`splitStep_of_isSeparatorLine`): the tracking decides nothing, and the documents are those of a plain cut.
-/

namespace GitopsReverser.Edit

open Reasoning
open Git (isSpace trimSpace)

abbrev Text := List Char

/-! ## 1. Lines -/

def isNewline (c : Char) : Bool := c == '\n'

def splitLinesKeepEnds (content : Text) : List Text := linesBy isNewline content

def trimSuffix (c : Char) (s : Text) : Text := if s.getLast? = some c then s.dropLast else s

def stripLineEnding (line : Text) : Text := trimSuffix '\r' (trimSuffix '\n' line)

def isBlankLine (line : Text) : Bool := decide (trimSpace line = [])

def isBlank (c : Char) : Bool := c == ' ' || c == '\t'

def trimBlanks (s : Text) : Text := s.rdropWhile isBlank

def leadingSpaces : Text → Nat
  | ' ' :: line => leadingSpaces line + 1
  | '\t' :: line => leadingSpaces line + 8
  | _ => 0

def dashes : Text := ['-', '-', '-']

def isSeparatorLine (line : Text) : Bool :=
  let s := trimBlanks (stripLineEnding line)
  decide (s = dashes ∨ dashes ++ [' '] <+: s)

def stripTrailingComment : Text → Text
  | a :: b :: s => if b = '#' ∧ isBlank a = true then [a] else a :: stripTrailingComment (b :: s)
  | s => s

def afterLastColon : Text → Option Text
  | [] => none
  | c :: s => (afterLastColon s).or (if c = ':' ∧ s.head? = some ' ' then some s else none)

/-- The value part of a line, as far as the search for a block scalar indicator goes. -/
def scalarPart (s : Text) : Text :=
  match afterLastColon s with
  | some value => trimSpace value
  | none =>
    if s.getLast? = some ':' then []
    else
      -- a sequence entry such as `- |`
      let entry := trimSpace s
      trimSpace (if entry.head? = some '-' then entry.tail else entry)

/-- The indentation of a line whose value is `|` or `>`, with chomping and indentation indicators. -/
def opensBlockScalar (line : Text) : Option Nat :=
  match scalarPart (trimBlanks (stripTrailingComment (trimBlanks (stripLineEnding line)))) with
  | [] => none
  | c :: indicators =>
    if (c = '|' ∨ c = '>') ∧
        indicators.all (fun c => c == '+' || c == '-' || decide ('0' ≤ c ∧ c ≤ '9')) = true then
      some (leadingSpaces line)
    else none

/-! ## 2. The splitter -/

/-- One document as exact bytes. -/
structure RawDoc where
  sep : Text
  body : Text
  deriving DecidableEq, Inhabited

def RawDoc.text (d : RawDoc) : Text := d.sep ++ d.body

/-- The variables of the loop of `splitDocuments`. -/
structure Splitting where
  docs : List RawDoc
  cur : RawDoc
  inBlock : Bool
  blockIndent : Nat

def Splitting.addBody (st : Splitting) (line : Text) : Splitting :=
  { st with cur := { st.cur with body := st.cur.body ++ line } }

def Splitting.Fresh (st : Splitting) : Prop := st.docs = [] ∧ st.cur.sep = [] ∧ st.cur.body = []
  deriving Decidable

def splitLine (st : Splitting) (line : Text) : Splitting :=
  if isSeparatorLine line then
    -- a separator with nothing before it opens the first document
    if st.Fresh then { st with cur := { st.cur with sep := line }, inBlock := false }
    else { st with docs := st.docs ++ [st.cur], cur := ⟨line, []⟩, inBlock := false }
  else match opensBlockScalar line with
    | some indent => { st.addBody line with inBlock := true, blockIndent := indent }
    | none => { st.addBody line with inBlock := false }

def splitStep (st : Splitting) (line : Text) : Splitting :=
  if st.inBlock = true ∧ (isBlankLine line = true ∨ leadingSpaces line > st.blockIndent) then
    st.addBody line
  else splitLine st line

def splitDocuments (content : Text) : List RawDoc :=
  let st := (splitLinesKeepEnds content).foldl splitStep ⟨[], ⟨[], []⟩, false, 0⟩
  st.docs ++ [st.cur]

def joinDocuments (docs : List RawDoc) : Text := (docs.map RawDoc.text).flatten

def documentCount (content : Text) : Nat :=
  (splitDocuments content).countP (fun d => decide (trimSpace d.body ≠ []))

def documentBody (content : Text) (index : Int) : Option Text :=
  if 0 ≤ index then ((splitDocuments content)[index.toNat]?).map RawDoc.body else none

/-! ## 3. Separator lines -/

theorem trimBlanks_dashes (rest : Text) : trimBlanks (dashes ++ rest) = dashes ++ trimBlanks rest := by
  unfold trimBlanks
  induction rest using List.reverseRecOn with
  | nil => decide
  | append_singleton rest c ih =>
    rw [← List.append_assoc, List.rdropWhile_concat, List.rdropWhile_concat]
    split
    · exact ih
    · rw [List.append_assoc]

variable {line : Text} {docs : List RawDoc}

theorem isSeparatorLine_iff :
    isSeparatorLine line = true ↔ ∃ rest, stripLineEnding line = dashes ++ rest ∧
      ((∀ c ∈ rest, isBlank c = true) ∨ rest.head? = some ' ') := by
  rw [isSeparatorLine, decide_eq_true_eq]
  constructor
  · intro h
    have hstart : dashes <+: stripLineEnding line := by
      apply List.IsPrefix.trans _ (List.rdropWhile_prefix isBlank (stripLineEnding line))
      rcases h with heq | hspace
      · exact (show trimBlanks (stripLineEnding line) = dashes from heq) ▸ List.prefix_refl _
      · exact List.IsPrefix.trans (List.prefix_append dashes [' ']) hspace
    obtain ⟨rest, hrest⟩ := hstart
    refine ⟨rest, hrest.symm, ?_⟩
    rw [← hrest, trimBlanks_dashes] at h
    rcases h with heq | hspace
    · left
      have hnil : trimBlanks rest = [] := by simpa using heq
      exact List.rdropWhile_eq_nil_iff.mp hnil
    · right
      obtain ⟨more, hmore⟩ := (List.prefix_append_right_inj dashes).mp hspace
      obtain ⟨tail, htail⟩ := List.rdropWhile_prefix isBlank rest
      rw [← htail, ← show _ = rest.rdropWhile isBlank from hmore]
      rfl
  · rintro ⟨rest, hrest, hblank | hspace⟩
    · left
      rw [hrest, trimBlanks_dashes, show trimBlanks rest = [] from List.rdropWhile_eq_nil_iff.mpr hblank]
      rfl
    · rw [hrest, trimBlanks_dashes]
      obtain ⟨more, rfl⟩ : ∃ more, rest = ' ' :: more := by
        cases rest with
        | nil => exact absurd hspace (by simp)
        | cons c more => exact ⟨more, by simpa using hspace⟩
      by_cases hnil : trimBlanks (' ' :: more) = []
      · left
        rw [hnil]
        rfl
      · right
        -- what is left of a text that begins with a space begins with one
        apply (List.prefix_append_right_inj dashes).mpr
        obtain ⟨c, kept, hkept⟩ := List.exists_cons_of_ne_nil hnil
        obtain ⟨tail, htail⟩ := List.rdropWhile_prefix isBlank (' ' :: more)
        rw [show (' ' :: more).rdropWhile isBlank = c :: kept from hkept] at htail
        obtain ⟨rfl, -⟩ := List.cons.inj htail
        rw [hkept]
        exact ⟨kept, rfl⟩

section

variable (h : isSeparatorLine line = true)

include h

theorem dashes_of_isSeparatorLine : dashes <+: line := by
  have hcut : ∀ (c : Char) (s : Text), trimSuffix c s <+: s := by
    intro c s
    unfold trimSuffix
    split
    · exact List.dropLast_prefix s
    · exact List.prefix_refl s
  obtain ⟨rest, hrest, -⟩ := isSeparatorLine_iff.mp h
  have hstrip : stripLineEnding line <+: line := List.IsPrefix.trans (hcut _ _) (hcut _ _)
  rw [hrest] at hstrip
  exact List.IsPrefix.trans (List.prefix_append dashes rest) hstrip

theorem leadingSpaces_of_isSeparatorLine : leadingSpaces line = 0 := by
  obtain ⟨rest, rfl⟩ := dashes_of_isSeparatorLine h
  rfl

theorem isBlankLine_of_isSeparatorLine : isBlankLine line = false := by
  obtain ⟨rest, rfl⟩ := dashes_of_isSeparatorLine h
  refine decide_eq_false (fun hblank => ?_)
  have hall : ∀ c ∈ dashes ++ rest, isSpace c = true := trimBy_eq_nil.mp hblank
  exact absurd (hall '-' (by simp [dashes])) (by decide)

end

/-! ## 4. The plain cut -/

/-- Lines cut at the separators: what stands before the first one, and the documents that begin
    with one. -/
def carve : List Text → Text × List RawDoc
  | [] => ([], [])
  | line :: lines =>
    if isSeparatorLine line then ([], ⟨line, (carve lines).1⟩ :: (carve lines).2)
    else (line ++ (carve lines).1, (carve lines).2)

/-- The documents of a cut: the text in front is one, unless a separator stands right at the
    beginning. -/
def documentsOf (cut : Text × List RawDoc) : List RawDoc :=
  if cut.1 = [] ∧ cut.2 ≠ [] then cut.2 else ⟨[], cut.1⟩ :: cut.2

/-- Block scalars decide nothing: a separator line has no indentation, so it ends any block. -/
theorem splitStep_of_isSeparatorLine (h : isSeparatorLine line = true) (st : Splitting) :
    ((splitStep st line).docs, (splitStep st line).cur) =
      if st.Fresh then (st.docs, { st.cur with sep := line })
      else (st.docs ++ [st.cur], ⟨line, []⟩) := by
  have hout : ¬ (st.inBlock = true ∧
      (isBlankLine line = true ∨ leadingSpaces line > st.blockIndent)) := by
    rw [isBlankLine_of_isSeparatorLine h, leadingSpaces_of_isSeparatorLine h]
    simp
  rw [splitStep, if_neg hout, splitLine, if_pos h]
  by_cases hfresh : st.Fresh
  · rw [if_pos hfresh, if_pos hfresh]
  · rw [if_neg hfresh, if_neg hfresh]

theorem splitStep_of_not_isSeparatorLine (h : ¬ isSeparatorLine line = true) (st : Splitting) :
    ((splitStep st line).docs, (splitStep st line).cur) =
      (st.docs, { st.cur with body := st.cur.body ++ line }) := by
  unfold splitStep
  split
  · rfl
  · rw [splitLine, if_neg h]
    split <;> rfl

/-- The loop from a state that has read something: the current document goes on up to the next
    separator. -/
theorem foldl_splitStep (lines : List Text) {st : Splitting} (hst : ¬ st.Fresh) :
    (lines.foldl splitStep st).docs ++ [(lines.foldl splitStep st).cur] =
      st.docs ++ { st.cur with body := st.cur.body ++ (carve lines).1 } :: (carve lines).2 := by
  induction lines generalizing st with
  | nil => simp [carve]
  | cons line lines ih =>
    rw [List.foldl_cons, carve]
    by_cases hsep : isSeparatorLine line = true
    · have hstep := splitStep_of_isSeparatorLine hsep st
      rw [if_neg hst, Prod.mk.injEq] at hstep
      have hnext : ¬ (splitStep st line).Fresh := by
        rintro ⟨hdocs, -, -⟩
        rw [hstep.1] at hdocs
        exact absurd hdocs (by simp)
      rw [ih hnext, hstep.1, hstep.2, if_pos hsep]
      simp
    · have hstep := Prod.mk.inj (splitStep_of_not_isSeparatorLine hsep st)
      have hnext : ¬ (splitStep st line).Fresh := by
        rintro ⟨hdocs, hcursor, hcur⟩
        rw [hstep.1] at hdocs
        rw [hstep.2] at hcursor hcur
        exact hst ⟨hdocs, hcursor, (List.append_eq_nil_iff.mp hcur).1⟩
      rw [ih hnext, hstep.1, hstep.2, if_neg hsep]
      simp

theorem splitDocuments_eq (content : Text) :
    splitDocuments content = documentsOf (carve (splitLinesKeepEnds content)) := by
  unfold splitDocuments
  cases hline : splitLinesKeepEnds content with
  | nil => rfl
  | cons line lines =>
    have hne : line ≠ [] := (isLine_of_mem (hline ▸ List.mem_cons_self)).ne_nil
    simp only [List.foldl_cons]
    have hfresh : Splitting.Fresh ⟨[], ⟨[], []⟩, false, 0⟩ := ⟨rfl, rfl, rfl⟩
    by_cases hsep : isSeparatorLine line = true
    · have hstep := splitStep_of_isSeparatorLine hsep ⟨[], ⟨[], []⟩, false, 0⟩
      rw [if_pos hfresh, Prod.mk.injEq] at hstep
      have hnext : ¬ (splitStep ⟨[], ⟨[], []⟩, false, 0⟩ line).Fresh := by
        rintro ⟨-, hcursor, -⟩
        rw [hstep.2] at hcursor
        exact hne hcursor
      rw [foldl_splitStep lines hnext, hstep.1, hstep.2, carve, if_pos hsep]
      simp [documentsOf]
    · have hstep := Prod.mk.inj (splitStep_of_not_isSeparatorLine hsep ⟨[], ⟨[], []⟩, false, 0⟩)
      have hnext : ¬ (splitStep ⟨[], ⟨[], []⟩, false, 0⟩ line).Fresh := by
        rintro ⟨-, -, hcur⟩
        rw [hstep.2] at hcur
        exact hne hcur
      rw [foldl_splitStep lines hnext, hstep.1, hstep.2, carve, if_neg hsep]
      simp [documentsOf, hne]

/-! ## 5. Joining and splitting again -/

def Plain (s : Text) : Prop := ∀ line ∈ splitLinesKeepEnds s, isSeparatorLine line = false
  deriving Decidable

/-- The separator of a document: one line, closed when a body follows. -/
structure SeparatedBy (d : RawDoc) : Prop where
  line : IsLine isNewline d.sep
  separator : isSeparatorLine d.sep = true
  closed : d.body ≠ [] → Closed isNewline d.sep

def Proper (d : RawDoc) : Prop := (d.sep ≠ [] → SeparatedBy d) ∧ Plain d.body

structure Carved (docs : List RawDoc) : Prop where
  nonempty : docs ≠ []
  /-- A first document without a separator has a body, unless the file is empty. -/
  first : ∀ d ∈ docs.head?, d.sep = [] → d.body ≠ [] ∨ docs.length = 1
  later : ∀ d ∈ docs.tail, d.sep ≠ []
  proper : ∀ d ∈ docs, Proper d
  closed : ∀ d ∈ docs.dropLast, Closed isNewline d.text

theorem flatten_carve (lines : List Text) :
    (carve lines).1 ++ joinDocuments (carve lines).2 = lines.flatten := by
  induction lines with
  | nil => rfl
  | cons line lines ih =>
    rw [carve, List.flatten_cons, ← ih]
    split <;> simp [joinDocuments, RawDoc.text]

theorem joinDocuments_splitDocuments (content : Text) :
    joinDocuments (splitDocuments content) = content := by
  have hjoin := flatten_carve (splitLinesKeepEnds content)
  rw [show (splitLinesKeepEnds content).flatten = content from flatten_linesBy content] at hjoin
  rw [splitDocuments_eq, documentsOf]
  split_ifs with hnone
  · rw [hnone.1, List.nil_append] at hjoin
    exact hjoin
  · simpa [joinDocuments, RawDoc.text] using hjoin

def RawDoc.lines (d : RawDoc) : List Text :=
  (if d.sep = [] then [] else [d.sep]) ++ splitLinesKeepEnds d.body

theorem RawDoc.linesBy_text {d : RawDoc} (h : d.sep ≠ [] → SeparatedBy d) :
    splitLinesKeepEnds d.text = d.lines := by
  unfold RawDoc.lines RawDoc.text
  by_cases hsep : d.sep = []
  · rw [hsep, if_pos rfl]
    rfl
  · rw [if_neg hsep]
    by_cases hbody : d.body = []
    · rw [hbody, List.append_nil]
      exact (h hsep).line
    · unfold splitLinesKeepEnds
      rw [linesBy_append ((h hsep).closed hbody), (h hsep).line]

theorem Carved.lines_joinDocuments (h : Carved docs) :
    splitLinesKeepEnds (joinDocuments docs) = docs.flatMap RawDoc.lines := by
  have hclose : ∀ s ∈ (docs.map RawDoc.text).dropLast, Closed isNewline s := by
    rw [← List.map_dropLast]
    exact List.forall_mem_map.mpr h.closed
  rw [joinDocuments, splitLinesKeepEnds, linesBy_flatten hclose, List.map_map, List.flatMap]
  refine congrArg List.flatten (List.map_congr_left (fun d hd => ?_))
  exact RawDoc.linesBy_text (h.proper d hd).1

theorem carve_append {lines rest : List Text} (h : ∀ line ∈ lines, isSeparatorLine line = false) :
    carve (lines ++ rest) = (lines.flatten ++ (carve rest).1, (carve rest).2) := by
  induction lines with
  | nil => simp
  | cons line lines ih =>
    have hcons := List.forall_mem_cons.mp h
    rw [List.cons_append, carve, ih hcons.2, hcons.1]
    simp

theorem carve_flatMap (hsep : ∀ d ∈ docs, d.sep ≠ [] ∧ SeparatedBy d)
    (hplain : ∀ d ∈ docs, Plain d.body) : carve (docs.flatMap RawDoc.lines) = ([], docs) := by
  induction docs with
  | nil => rfl
  | cons d docs ih =>
    have hd := List.forall_mem_cons.mp hsep
    have hp := List.forall_mem_cons.mp hplain
    rw [List.flatMap_cons, RawDoc.lines, if_neg hd.1.1, List.singleton_append, List.cons_append,
      carve, if_pos hd.1.2.separator, carve_append hp.1, ih hd.2 hp.2, splitLinesKeepEnds,
      flatten_linesBy, List.append_nil]

/-- Splitting finds the documents that were joined. -/
theorem Carved.splitDocuments_joinDocuments (h : Carved docs) :
    splitDocuments (joinDocuments docs) = docs := by
  rw [splitDocuments_eq, h.lines_joinDocuments]
  obtain ⟨d, rest, rfl⟩ := List.exists_cons_of_ne_nil h.nonempty
  have hrest : carve (rest.flatMap RawDoc.lines) = ([], rest) := by
    refine carve_flatMap (fun e he => ?_) (fun e he => (h.proper e (List.mem_cons_of_mem _ he)).2)
    have hne := h.later e he
    exact ⟨hne, (h.proper e (List.mem_cons_of_mem _ he)).1 hne⟩
  by_cases hsep : d.sep = []
  · rw [List.flatMap_cons, RawDoc.lines, if_pos hsep, List.nil_append,
      carve_append (h.proper d List.mem_cons_self).2, hrest, splitLinesKeepEnds, flatten_linesBy,
      List.append_nil, documentsOf, if_neg]
    · rw [← hsep]
    · rintro ⟨hbody, hmore⟩
      rcases h.first d rfl hsep with hne | hone
      · exact hne hbody
      · exact hmore (by simpa using hone)
  · have hall : carve ((d :: rest).flatMap RawDoc.lines) = ([], d :: rest) := by
      refine carve_flatMap (fun e he => ?_) (fun e he => (h.proper e he).2)
      have hne : e.sep ≠ [] := by
        rcases List.mem_cons.mp he with rfl | he
        · exact hsep
        · exact h.later e he
      exact ⟨hne, (h.proper e he).1 hne⟩
    rw [hall, documentsOf, if_pos ⟨rfl, List.cons_ne_nil d rest⟩]

/-! ## 6. What the splitter gives is carved -/

theorem plain_nil : Plain [] := fun _ h => absurd h (by simp [splitLinesKeepEnds, linesBy])

theorem Plain.append {s t : Text} (hs : Plain s) (ht : Plain t) (hclose : Closed isNewline s) :
    Plain (s ++ t) := by
  intro line hline
  rw [splitLinesKeepEnds, linesBy_append hclose, List.mem_append] at hline
  exact hline.elim (hs line) (ht line)

theorem plain_of_line (hline : IsLine isNewline line)
    (hsep : ¬ isSeparatorLine line = true) : Plain line := by
  intro l hl
  rw [splitLinesKeepEnds, hline, List.mem_singleton] at hl
  rw [hl]
  exact Bool.eq_false_iff.mpr hsep

/-- A cut of the lines of a text: the invariant of the recursion on the lines. -/
structure CutFrom (cut : Text × List RawDoc) : Prop where
  plain : Plain cut.1
  separated : ∀ d ∈ cut.2, SeparatedBy d ∧ Plain d.body
  closed : ∀ s ∈ (cut.1 :: cut.2.map RawDoc.text).dropLast, Closed isNewline s

theorem carve_of_nil {lines : List Text} (h : lines = []) : carve lines = ([], []) := by
  rw [h, carve]

theorem carve_cutFrom {lines : List Text} (hline : ∀ line ∈ lines, IsLine isNewline line)
    (hclose : ∀ line ∈ lines.dropLast, Closed isNewline line) : CutFrom (carve lines) := by
  induction lines with
  | nil => exact ⟨plain_nil, by simp [carve], by simp [carve]⟩
  | cons line lines ih =>
    have hlines := List.forall_mem_cons.mp hline
    have hends := closed_dropLast_cons.mp hclose
    have hcut := ih hlines.2 hends.2
    have hafter := closed_dropLast_cons.mp hcut.closed
    -- a line with a document behind it, or with more text of its own, is closed
    have hdocs : (carve lines).2 ≠ [] → Closed isNewline line := fun hne =>
      hends.1 (fun hnil => hne (by rw [carve_of_nil hnil]))
    have htext : (carve lines).1 ≠ [] → Closed isNewline line := fun hne =>
      hends.1 (fun hnil => hne (by rw [carve_of_nil hnil]))
    have hjoin : (carve lines).2 ≠ [] → Closed isNewline (line ++ (carve lines).1) := fun hne =>
      closed_append (hdocs hne) (hafter.1 (by simpa using hne))
    rw [carve]
    by_cases hsep : isSeparatorLine line = true
    · rw [if_pos hsep]
      refine ⟨plain_nil, List.forall_mem_cons.mpr ⟨⟨⟨hlines.1, hsep, htext⟩, hcut.plain⟩,
        hcut.separated⟩, ?_⟩
      refine closed_dropLast_cons.mpr ⟨fun _ => closed_nil, ?_⟩
      refine closed_dropLast_cons.mpr ⟨fun hne => hjoin (by simpa using hne), hafter.2⟩
    · rw [if_neg hsep]
      have hplain : Plain (line ++ (carve lines).1) := by
        by_cases hmore : (carve lines).1 = []
        · rw [hmore, List.append_nil]
          exact plain_of_line hlines.1 hsep
        · exact (plain_of_line hlines.1 hsep).append hcut.plain (htext hmore)
      exact ⟨hplain, hcut.separated, closed_dropLast_cons.mpr
        ⟨fun hne => hjoin (by simpa using hne), hafter.2⟩⟩

theorem splitDocuments_carved (content : Text) : Carved (splitDocuments content) := by
  have hline : (∀ line ∈ splitLinesKeepEnds content, IsLine isNewline line) ∧
      ∀ line ∈ (splitLinesKeepEnds content).dropLast, Closed isNewline line := linesBy_lines content
  have hcut : CutFrom (carve (splitLinesKeepEnds content)) := carve_cutFrom hline.1 hline.2
  have hafter := closed_dropLast_cons.mp hcut.closed
  have hmap : ∀ docs : List RawDoc, (∀ s ∈ (docs.map RawDoc.text).dropLast, Closed isNewline s) →
      ∀ d ∈ docs.dropLast, Closed isNewline d.text := by
    intro docs h d hd
    apply h
    rw [← List.map_dropLast]
    exact List.mem_map_of_mem hd
  have hne : ∀ d ∈ (carve (splitLinesKeepEnds content)).2, d.sep ≠ [] := fun d hd =>
    (hcut.separated d hd).1.line.ne_nil
  have hproper : ∀ d ∈ (carve (splitLinesKeepEnds content)).2, Proper d := fun d hd =>
    ⟨fun _ => (hcut.separated d hd).1, (hcut.separated d hd).2⟩
  rw [splitDocuments_eq, documentsOf]
  split_ifs with hnone
  · refine ⟨hnone.2, fun d hd hsep => ?_, fun d hd => hne d (List.mem_of_mem_tail hd),
      hproper, hmap _ hafter.2⟩
    exact absurd hsep (hne d (List.mem_of_mem_head? hd))
  · refine ⟨List.cons_ne_nil _ _, fun d hd _ => ?_, hne, ?_, ?_⟩
    · obtain rfl : ⟨[], (carve (splitLinesKeepEnds content)).1⟩ = d := by simpa using hd
      by_cases hbody : (carve (splitLinesKeepEnds content)).1 = []
      · right
        have hlast : (carve (splitLinesKeepEnds content)).2 = [] := by
          by_contra hmore
          exact hnone ⟨hbody, hmore⟩
        rw [hlast]
        rfl
      · exact .inl hbody
    · exact List.forall_mem_cons.mpr ⟨⟨fun h => absurd rfl h, hcut.plain⟩, hproper⟩
    · apply hmap
      simpa [RawDoc.text] using hcut.closed

end GitopsReverser.Edit
