import GitopsReverser.Edit.Split

/-!
# Framing — what surrounds the text of a document

The encoder writes line feeds, no byte order mark, one trailing newline and no document end marker.
`reskinDocument` gives a freshly encoded text the framing of the document it replaces. Whatever
the framing, it makes no separator line out of a line that is none.
-/

namespace GitopsReverser.Edit

open Reasoning

/-! ## 1. The framing of a document -/

structure Framing where
  docEnd : Bool
  unterminated : Bool
  crlf : Bool
  bom : Bool
  deriving DecidableEq

def byteOrderMark : Char := '\uFEFF'

def docEndMarker : Text := ['.', '.', '.']

def isTrailingSpace (c : Char) : Bool := c == ' ' || c == '\t' || c == '\r' || c == '\n'

def trimmedLines (s : Text) : List Text :=
  (splitLinesKeepEnds s).map (fun line => line.rdropWhile isTrailingSpace)

def hasDocEndMarker (original : Text) : Bool :=
  decide (((trimmedLines original).filter (· ≠ [])).getLast? = some docEndMarker)

def usesCRLF (original : Text) : Bool := decide (['\r', '\n'] <:+: original)

def framingOf (original : Text) : Framing where
  docEnd := hasDocEndMarker original
  unterminated := decide (original.getLast? ≠ some '\n')
  crlf := usesCRLF original
  bom := decide (original.head? = some byteOrderMark)

def trimNewlines (s : Text) : Text := s.rdropWhile isNewline

def toCRLF : Text → Text
  | [] => []
  | c :: s => if c = '\n' then '\r' :: '\n' :: toCRLF s else c :: toCRLF s

def Framing.marked (f : Framing) (encoded : Text) : Text :=
  if f.docEnd then encoded ++ docEndMarker ++ ['\n'] else encoded

def Framing.ended (f : Framing) (encoded : Text) : Text :=
  if f.unterminated then trimNewlines (f.marked encoded) else f.marked encoded

def Framing.broken (f : Framing) (encoded : Text) : Text :=
  if f.crlf then toCRLF (f.ended encoded) else f.ended encoded

def Framing.apply (f : Framing) (encoded : Text) : Text :=
  if f.bom then byteOrderMark :: f.broken encoded else f.broken encoded

def reskinDocument (original encoded : Text) : Text := (framingOf original).apply encoded

/-! ## 2. Separators stay separators -/

variable {line : Text} {s : Text}

theorem stripLineEnding_newline (h : line.getLast? ≠ some '\n') :
    stripLineEnding (line ++ ['\n']) = stripLineEnding line := by
  simp [stripLineEnding, trimSuffix, h]

theorem isSeparatorLine_newline (h : line.getLast? ≠ some '\n') :
    isSeparatorLine (line ++ ['\n']) = isSeparatorLine line := by
  unfold isSeparatorLine
  rw [stripLineEnding_newline h]

theorem lines_newline (hs : s ≠ []) (h : ¬ Closed isNewline s) :
    ∃ before line, splitLinesKeepEnds s = before ++ [line] ∧ line.getLast? ≠ some '\n' ∧
      splitLinesKeepEnds (s ++ ['\n']) = before ++ [line ++ ['\n']] := by
  induction s with
  | nil => exact absurd rfl hs
  | cons c s ih =>
    by_cases hnil : s = []
    · subst hnil
      have hc : c ≠ '\n' := by
        rintro rfl
        exact h (fun d hd => by
          obtain rfl : '\n' = d := by simpa using hd
          rfl)
      exact ⟨[], [c], by simp [splitLinesKeepEnds, linesBy, isNewline, hc],
        by simpa using hc, by simp [splitLinesKeepEnds, linesBy, isNewline, hc]⟩
    · have hrest : ¬ Closed isNewline s := by
        intro hclose
        apply h
        intro d hd
        apply hclose d
        rw [List.getLast?_cons_of_ne_nil hnil] at hd
        exact hd
      obtain ⟨before, line, hlines, hopen, hmore⟩ := ih hnil hrest
      by_cases hc : isNewline c = true
      · refine ⟨[c] :: before, line, ?_, hopen, ?_⟩
        · rw [splitLinesKeepEnds, linesBy_cons_of_eol hc]
          exact congrArg ([c] :: ·) hlines
        · rw [splitLinesKeepEnds, List.cons_append, linesBy_cons_of_eol hc]
          exact congrArg ([c] :: ·) hmore
      · cases before with
        | nil =>
          refine ⟨[], c :: line, linesBy_cons_of_not_eol hc hlines, ?_, linesBy_cons_of_not_eol hc hmore⟩
          have hline : IsLine isNewline line := isLine_of_mem (show line ∈ linesBy isNewline s by
              rw [show linesBy isNewline s = [line] from hlines]
              exact List.mem_cons_self)
          rw [List.getLast?_cons_of_ne_nil hline.ne_nil]
          exact hopen
        | cons first before =>
          exact ⟨(c :: first) :: before, line, linesBy_cons_of_not_eol hc hlines, hopen,
            linesBy_cons_of_not_eol hc hmore⟩

theorem Plain.of_newline (h : Plain (s ++ ['\n'])) : Plain s := by
  by_cases hnil : s = []
  · rw [hnil]
    exact plain_nil
  · by_cases hclose : Closed isNewline s
    · intro line hline
      apply h line
      rw [splitLinesKeepEnds, linesBy_append hclose]
      exact List.mem_append_left _ hline
    · obtain ⟨before, last, hlines, hopen, hmore⟩ := lines_newline hnil hclose
      intro line hline
      rw [hlines] at hline
      rcases List.mem_append.mp hline with hbefore | hlast
      · apply h line
        rw [hmore]
        exact List.mem_append_left _ hbefore
      · obtain rfl := List.mem_singleton.mp hlast
        rw [← isSeparatorLine_newline hopen]
        apply h
        rw [hmore]
        exact List.mem_append_right _ List.mem_cons_self

theorem plain_trimNewlines (h : Plain s) : Plain (trimNewlines s) := by
  induction s using List.reverseRecOn with
  | nil => exact plain_nil
  | append_singleton s c ih =>
    unfold trimNewlines at ih ⊢
    rw [List.rdropWhile_concat]
    split
    · rename_i hc
      obtain rfl : c = '\n' := by simpa [isNewline] using hc
      exact ih h.of_newline
    · exact h

theorem lines_toCRLF (s : Text) :
    splitLinesKeepEnds (toCRLF s) = (splitLinesKeepEnds s).map toCRLF := by
  unfold splitLinesKeepEnds
  induction s with
  | nil => rfl
  | cons c s ih =>
    by_cases hc : c = '\n'
    · subst hc
      have hline : linesBy isNewline ('\r' :: '\n' :: toCRLF s) =
          ['\r', '\n'] :: linesBy isNewline (toCRLF s) := by
        rw [linesBy_cons_of_not_eol (by decide) (linesBy_cons_of_eol (by decide) _)]
      rw [toCRLF, if_pos rfl, hline, ih, linesBy_cons_of_eol (by decide)]
      rfl
    · have hopen : ¬ isNewline c = true := by simpa [isNewline] using hc
      rw [toCRLF, if_neg hc]
      cases hs : linesBy isNewline s with
      | nil =>
        rw [linesBy_eq_nil.mp hs]
        simp [linesBy, toCRLF, isNewline, hc]
      | cons line lines =>
        rw [hs, List.map_cons] at ih
        rw [linesBy_cons_of_not_eol hopen hs, linesBy_cons_of_not_eol hopen ih, List.map_cons,
          toCRLF, if_neg hc]

theorem toCRLF_eq_self (h : '\n' ∉ s) : toCRLF s = s := by
  induction s with
  | nil => rfl
  | cons c s ih =>
    have hcons : c ≠ '\n' ∧ '\n' ∉ s := by simpa [eq_comm] using h
    rw [toCRLF, if_neg hcons.1, ih hcons.2]

theorem toCRLF_append (s t : Text) : toCRLF (s ++ t) = toCRLF s ++ toCRLF t := by
  induction s with
  | nil => rfl
  | cons c s ih =>
    rw [List.cons_append, toCRLF, toCRLF, ih]
    split <;> rfl

theorem line_cases (h : IsLine isNewline line) : ∃ s, '\n' ∉ s ∧ (line = s ∨ line = s ++ ['\n']) := by
  induction line with
  | nil => exact absurd rfl h.ne_nil
  | cons c line ih =>
    by_cases hc : c = '\n'
    · subst hc
      have hone : linesBy isNewline ('\n' :: line) = ['\n'] :: linesBy isNewline line :=
        linesBy_cons_of_eol (by decide) line
      rw [IsLine, hone] at h
      obtain ⟨hfirst, -⟩ := List.cons.inj h
      exact ⟨[], by simp, .inr hfirst.symm⟩
    · have hopen : ¬ isNewline c = true := by simpa [isNewline] using hc
      by_cases hnil : line = []
      · subst hnil
        exact ⟨[c], by simpa using fun h => hc h.symm, .inl rfl⟩
      · obtain ⟨first, rest, hline⟩ := List.exists_cons_of_ne_nil
          (fun h => hnil (linesBy_eq_nil.mp h) : linesBy isNewline line ≠ [])
        have hcons : linesBy isNewline (c :: line) = (c :: first) :: rest :=
          linesBy_cons_of_not_eol hopen hline
        rw [IsLine, hcons] at h
        obtain ⟨hfirst, hrest⟩ := List.cons.inj h
        obtain ⟨s, hs, hcases⟩ := ih (by
          rw [IsLine, hline, hrest, (List.cons.inj hfirst).2])
        refine ⟨c :: s, by simpa [eq_comm, hs] using hc, ?_⟩
        rcases hcases with rfl | rfl
        · exact .inl rfl
        · exact .inr rfl

theorem stripLineEnding_crlf (s : Text) : stripLineEnding (s ++ ['\r', '\n']) = s := by
  have hsplit : s ++ ['\r', '\n'] = (s ++ ['\r']) ++ ['\n'] := by simp
  rw [hsplit]
  simp [stripLineEnding, trimSuffix]

theorem isSeparatorLine_toCRLF (hline : IsLine isNewline line)
    (h : isSeparatorLine line = false) : isSeparatorLine (toCRLF line) = false := by
  obtain ⟨s, hs, rfl | rfl⟩ := line_cases hline
  · rw [toCRLF_eq_self hs]
    exact h
  · have hcrlf : toCRLF (s ++ ['\n']) = s ++ ['\r', '\n'] := by
      rw [toCRLF_append, toCRLF_eq_self hs]
      rfl
    have hlast : s.getLast? ≠ some '\n' := fun hlast => hs (List.mem_of_getLast? hlast)
    rw [isSeparatorLine_newline hlast] at h
    rw [hcrlf, Bool.eq_false_iff]
    intro hsep
    obtain ⟨rest, hrest, htail⟩ := isSeparatorLine_iff.mp hsep
    rw [stripLineEnding_crlf] at hrest
    refine absurd (isSeparatorLine_iff.mpr ?_) (Bool.eq_false_iff.mp h)
    by_cases hcr : s.getLast? = some '\r'
    · -- the text itself ends in a carriage return, so a space follows the dashes
      have hne : rest ≠ [] := by
        rintro rfl
        rw [hrest] at hcr
        exact absurd hcr (by decide)
      have hreturn : rest.getLast? = some '\r' := by
        rw [hrest, List.getLast?_append_of_ne_nil _ hne] at hcr
        exact hcr
      have hspace : rest.head? = some ' ' := by
        rcases htail with hblank | hspace
        · exact absurd (hblank '\r' (List.mem_of_getLast? hreturn)) (by decide)
        · exact hspace
      refine ⟨rest.dropLast, ?_, .inr ?_⟩
      · have hkeep : trimSuffix '\n' s = s := if_neg hlast
        rw [stripLineEnding, hkeep, trimSuffix, if_pos hcr, hrest, List.dropLast_append_of_ne_nil hne]
      · cases rest with
        | nil => exact absurd rfl hne
        | cons c rest =>
          cases rest with
          | nil =>
            obtain rfl : c = ' ' := by simpa using hspace
            exact absurd hreturn (by decide)
          | cons d rest => simpa using hspace
    · refine ⟨rest, ?_, htail⟩
      rw [stripLineEnding, show trimSuffix '\n' s = s from if_neg hlast, trimSuffix, if_neg hcr, hrest]

theorem plain_toCRLF (h : Plain s) : Plain (toCRLF s) := by
  intro line hline
  rw [lines_toCRLF] at hline
  obtain ⟨l, hl, rfl⟩ := List.mem_map.mp hline
  exact isSeparatorLine_toCRLF (isLine_of_mem hl) (h l hl)

theorem plain_cons_bom (h : Plain s) : Plain (byteOrderMark :: s) := by
  have hopen : ¬ isNewline byteOrderMark = true := by decide
  have hbom : ∀ line : Text, isSeparatorLine (byteOrderMark :: line) = false := by
    intro line
    rw [Bool.eq_false_iff]
    intro hsep
    obtain ⟨rest, hrest⟩ := dashes_of_isSeparatorLine hsep
    exact absurd (List.cons.inj hrest).1 (by decide)
  intro line hline
  rw [splitLinesKeepEnds] at hline
  cases hs : linesBy isNewline s with
  | nil =>
    rw [linesBy, if_neg hopen, hs] at hline
    obtain rfl := List.mem_singleton.mp hline
    exact hbom []
  | cons first rest =>
    rw [linesBy_cons_of_not_eol hopen hs] at hline
    rcases List.mem_cons.mp hline with rfl | hline
    · exact hbom first
    · apply h line
      rw [splitLinesKeepEnds, hs]
      exact List.mem_cons_of_mem _ hline

/-! ## 3. Document end markers -/

/-- A line that ends a document: the marker, alone or with something behind a blank. -/
def isEndLine (line : Text) : Bool :=
  docEndMarker.isPrefixOf line && (line.drop 3).head?.all (fun c => c == ' ' || c == '\t')

def holdsContent (line : Text) : Bool :=
  (line.dropWhile isTrailingSpace).head?.any (· ≠ '#') && !isEndLine line

/-- The lines with content behind the first end marker. The splitter takes them for part of the
    document before the marker; YAML does not. -/
def behindEnd : List Text → List Text
  | [] => []
  | line :: rest => if isEndLine line then rest.filter holdsContent else behindEnd rest

def behindMarker (body : Text) : List Text := behindEnd (trimmedLines body)

theorem behindEnd_sublist (lines : List Text) :
    (behindEnd lines).Sublist (lines.filter holdsContent) := by
  induction lines with
  | nil => exact .slnil
  | cons line rest ih =>
    have hrest : (rest.filter holdsContent).Sublist ((line :: rest).filter holdsContent) :=
      (List.sublist_cons_self line rest).filter _
    rw [behindEnd]
    split
    · exact hrest
    · exact ih.trans hrest

theorem behindEnd_append (h : ∀ line ∈ lines, isEndLine line = false) (more : List Text) :
    behindEnd (lines ++ more) = behindEnd more := by
  induction lines with
  | nil => rfl
  | cons line rest ih =>
    obtain ⟨hline, hrest⟩ := List.forall_mem_cons.mp h
    rw [List.cons_append, behindEnd, if_neg (by simp [hline]), ih hrest]

theorem behindEnd_blank (lines : List Text) : behindEnd (lines ++ [[]]) = behindEnd lines := by
  induction lines with
  | nil => rfl
  | cons line rest ih =>
    rw [List.cons_append, behindEnd, behindEnd, ih, List.filter_append]
    simp [holdsContent]

theorem trimmedLines_append (h : Closed isNewline s) (t : Text) :
    trimmedLines (s ++ t) = trimmedLines s ++ trimmedLines t := by
  rw [trimmedLines, splitLinesKeepEnds, linesBy_append h, List.map_append]
  rfl

theorem behindMarker_newline (s : Text) : behindMarker (s ++ ['\n']) = behindMarker s := by
  by_cases hclosed : Closed isNewline s
  · rw [behindMarker, trimmedLines_append hclosed]
    exact behindEnd_blank _
  · have hnil : s ≠ [] := by
      rintro rfl
      exact hclosed (by simp [Closed])
    obtain ⟨before, last, hlines, -, hmore⟩ := lines_newline hnil hclosed
    rw [behindMarker, behindMarker, trimmedLines, trimmedLines, hlines, hmore]
    simp [isTrailingSpace]

theorem behindMarker_trimNewlines (s : Text) : behindMarker (trimNewlines s) = behindMarker s := by
  induction s using List.reverseRecOn with
  | nil => rfl
  | append_singleton s c ih =>
    unfold trimNewlines at ih ⊢
    rw [List.rdropWhile_concat]
    split
    · rename_i hc
      obtain rfl : c = '\n' := by simpa [isNewline] using hc
      rw [ih, behindMarker_newline]
    · rfl

theorem trimmedLines_toCRLF (s : Text) : trimmedLines (toCRLF s) = trimmedLines s := by
  rw [trimmedLines, lines_toCRLF, List.map_map]
  refine List.map_congr_left (fun line hline => ?_)
  obtain ⟨t, ht, rfl | rfl⟩ := line_cases (isLine_of_mem hline)
  · rw [Function.comp_apply, toCRLF_eq_self ht]
  · have hspace : ∀ c ∈ ['\r', '\n'], isTrailingSpace c = true := by simp [isTrailingSpace]
    rw [Function.comp_apply, toCRLF_append, toCRLF_eq_self ht,
      show t ++ toCRLF ['\n'] = t ++ ['\r'] ++ ['\n'] by simp [toCRLF],
      List.rdropWhile_concat_pos _ _ _ (hspace '\n' (by simp)),
      List.rdropWhile_concat_pos _ _ _ (hspace '\r' (by simp)),
      List.rdropWhile_concat_pos _ _ _ (hspace '\n' (by simp))]

theorem behindMarker_bom (h : behindMarker s = []) : behindMarker (byteOrderMark :: s) = [] := by
  have hopen : ¬ isNewline byteOrderMark = true := by decide
  have htrim : ∀ line : Text, ∃ rest, (byteOrderMark :: line).rdropWhile isTrailingSpace =
      byteOrderMark :: rest := by
    intro line
    induction line using List.reverseRecOn with
    | nil => exact ⟨[], by decide⟩
    | append_singleton line c ih =>
      rw [← List.cons_append, List.rdropWhile_concat]
      split
      · exact ih
      · exact ⟨line ++ [c], rfl⟩
  have hend : ∀ line, isEndLine ((byteOrderMark :: line).rdropWhile isTrailingSpace) = false := by
    intro line
    obtain ⟨rest, hrest⟩ := htrim line
    rw [hrest]
    rfl
  unfold behindMarker trimmedLines splitLinesKeepEnds at h ⊢
  cases hs : linesBy isNewline s with
  | nil =>
    rw [linesBy, if_neg hopen, hs]
    simp [behindEnd, hend]
  | cons first rest =>
    rw [linesBy_cons_of_not_eol hopen hs, List.map_cons, behindEnd, if_neg (by simp [hend])]
    rw [hs, List.map_cons, behindEnd] at h
    -- the first line is no end marker any more, and what was behind it held nothing
    split at h
    · exact List.sublist_nil.mp (h ▸ behindEnd_sublist _)
    · exact h

/-! ## 4. The framed text -/

/-- Text of one document: without separators, and with an end to its last line. -/
structure OneDocument (s : Text) : Prop where
  nonempty : s ≠ []
  plain : Plain s
  closed : Closed isNewline s
  unended : ∀ line ∈ trimmedLines s, isEndLine line = false

theorem OneDocument.behindMarker (h : OneDocument s) : behindMarker s = [] := by
  have hall := behindEnd_append h.unended []
  rwa [List.append_nil] at hall

theorem Framing.behindMarker_apply (f : Framing) {encoded : Text} (h : OneDocument encoded) :
    behindMarker (f.apply encoded) = [] := by
  have hmarked : Edit.behindMarker (f.marked encoded) = [] := by
    unfold Framing.marked
    split
    · rw [List.append_assoc, Edit.behindMarker, trimmedLines_append h.closed,
        behindEnd_append h.unended]
      decide
    · exact h.behindMarker
  have hended : Edit.behindMarker (f.ended encoded) = [] := by
    unfold Framing.ended
    split
    · rw [behindMarker_trimNewlines, hmarked]
    · exact hmarked
  have hbroken : Edit.behindMarker (f.broken encoded) = [] := by
    unfold Framing.broken
    split
    · rw [Edit.behindMarker, trimmedLines_toCRLF]
      exact hended
    · exact hended
  unfold Framing.apply
  split
  · exact behindMarker_bom hbroken
  · exact hbroken

theorem Framing.plain_apply (f : Framing) {encoded : Text} (h : OneDocument encoded) :
    Plain (f.apply encoded) := by
  have hmarked : Plain (f.marked encoded) := by
    unfold Framing.marked
    split
    · rw [List.append_assoc]
      exact h.plain.append (by decide) h.closed
    · exact h.plain
  have hend : Plain (f.ended encoded) := by
    unfold Framing.ended
    split
    · exact plain_trimNewlines hmarked
    · exact hmarked
  have hbroken : Plain (f.broken encoded) := by
    unfold Framing.broken
    split
    · exact plain_toCRLF hend
    · exact hend
  unfold Framing.apply
  split
  · exact plain_cons_bom hbroken
  · exact hbroken

theorem getLast?_toCRLF (s : Text) : (toCRLF s).getLast? = s.getLast? := by
  induction s using List.reverseRecOn with
  | nil => rfl
  | append_singleton s c _ =>
    rw [toCRLF_append]
    by_cases hc : c = '\n'
    · subst hc
      rw [show toCRLF ['\n'] = ['\r', '\n'] from rfl]
      simp
    · rw [show toCRLF [c] = [c] from toCRLF_eq_self (by simpa using fun h => hc h.symm)]
      simp

theorem Framing.closed_apply {f : Framing} (hf : f.unterminated = false) {encoded : Text}
    (h : OneDocument encoded) : f.apply encoded ≠ [] ∧ Closed isNewline (f.apply encoded) := by
  have hlast : encoded.getLast? = some '\n' := by
    obtain ⟨c, hc⟩ := Option.ne_none_iff_exists'.mp
      (fun hnone => h.nonempty (List.getLast?_eq_none_iff.mp hnone))
    have hnew := h.closed c hc
    rw [hc, show c = '\n' by simpa [isNewline] using hnew]
  have hend : (f.ended encoded).getLast? = some '\n' := by
    rw [Framing.ended, hf, if_neg (by decide), Framing.marked]
    split
    · simp
    · exact hlast
  have hbroken : (f.broken encoded).getLast? = some '\n' := by
    unfold Framing.broken
    split
    · rw [getLast?_toCRLF]
      exact hend
    · exact hend
  have happly : (f.apply encoded).getLast? = some '\n' := by
    unfold Framing.apply
    split
    · rw [List.getLast?_cons, hbroken]
      rfl
    · exact hbroken
  refine ⟨fun hnil => ?_, fun c hc => ?_⟩
  · rw [hnil] at happly
    exact absurd happly (by simp)
  · rw [happly] at hc
    obtain rfl : '\n' = c := by simpa using hc
    rfl

end GitopsReverser.Edit
