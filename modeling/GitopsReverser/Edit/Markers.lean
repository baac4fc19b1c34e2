import GitopsReverser.Edit.Framing

/-!
# Markers — the splitter and the document markers of YAML

A YAML scanner takes three dashes at the beginning of a line for a marker when white space, a line
break or the end of the stream follows. What the scanner is in at that line is a `Reading`: lines
of a block scalar are indented, and within other scalars such a line is forbidden, so that the
context never hides one. The splitter does not see all of them: it asks for a line feed in front,
and for a space behind where anything else follows.
-/

namespace GitopsReverser.Edit

open Reasoning

/-! ## 1. Markers -/

def isBreak (c : Char) : Bool := decide (c ∈ ['\n', '\r', '\u0085', '\u2028', '\u2029'])

/-- A byte order mark in front of the stream is not part of its first line. -/
def LineStart (content : Text) (p : Nat) : Prop :=
  p = 0 ∨ (∃ c, content[p - 1]? = some c ∧ isBreak c = true) ∨
    (p = 1 ∧ content[0]? = some '\uFEFF')

def DashesAt (content : Text) (p : Nat) : Prop :=
  dashes <+: content.drop p ∧ ∀ c, content[p + 3]? = some c → (isBlank c || isBreak c) = true

/-- What a line of a stream begins in. -/
inductive Context where
  | outside
  | block (indent : Nat)
  | quoted
  | plain
  deriving DecidableEq

/-- The contexts of a stream, as far as the grammar binds them. -/
structure Reading (content : Text) where
  context : Nat → Context
  /-- The lines of a block scalar are blank or indented; one at the root that needs no indentation
      ends at a marker. -/
  block : ∀ p n, LineStart content p → context p = .block n → ((∀ j < n, content[p + j]? = some ' ') ∨
      ∀ c ∈ (content.drop p).takeWhile (fun c => !isBreak c), isBlank c = true) ∧
    (n = 0 → ¬ DashesAt content p)
  /-- A scalar that goes over several lines has no marker at the beginning of one. -/
  scalar : ∀ p, LineStart content p → context p = .quoted ∨ context p = .plain → ¬ DashesAt content p

def Reading.Marker {content : Text} (r : Reading content) (p : Nat) : Prop :=
  LineStart content p ∧ r.context p = .outside ∧ DashesAt content p

variable {content : Text}

/-- No context hides a marker. -/
theorem Reading.marker_iff (r : Reading content) (p : Nat) :
    r.Marker p ↔ LineStart content p ∧ DashesAt content p := by
  refine ⟨fun h => ⟨h.1, h.2.2⟩, fun ⟨hstart, hdash⟩ => ⟨hstart, ?_, hdash⟩⟩
  cases hcontext : r.context p with
  | outside => rfl
  | quoted => exact absurd hdash (r.scalar p hstart (.inl hcontext))
  | plain => exact absurd hdash (r.scalar p hstart (.inr hcontext))
  | block n =>
    obtain ⟨rest, hrest⟩ := hdash.1
    obtain ⟨hspace | hblank, hroot⟩ := r.block p n hstart hcontext
    · have hpos : 0 < n := Nat.pos_of_ne_zero fun hzero => hroot hzero hdash
      have hfirst : (content.drop p)[0]? = some ' ' := by
        rw [List.getElem?_drop]
        exact hspace 0 hpos
      rw [← hrest] at hfirst
      exact absurd hfirst (by simp [dashes])
    · rw [← hrest] at hblank
      exact absurd (hblank '-' (by simp [dashes, isBreak])) (by decide)

/-! ## 2. Where the splitter starts a document -/

def startsFrom (n : Nat) : List RawDoc → List Nat
  | [] => []
  | d :: docs => (if d.sep = [] then [] else [n]) ++ startsFrom (n + d.text.length) docs

def starts (content : Text) : List Nat := startsFrom 0 (splitDocuments content)

theorem mem_startsFrom_carve {lines : List Text} (hne : ∀ line ∈ lines, line ≠ []) {n p : Nat} :
    p ∈ startsFrom (n + (carve lines).1.length) (carve lines).2 ↔
      ∃ before line after, lines = before ++ line :: after ∧ isSeparatorLine line = true ∧
        p = n + before.flatten.length := by
  induction lines generalizing n with
  | nil => simp [carve, startsFrom]
  | cons first lines ih =>
    have hcons := List.forall_mem_cons.mp hne
    -- a separator is the first line or stands behind it
    have hsplit : (∃ before line after, first :: lines = before ++ line :: after ∧
        isSeparatorLine line = true ∧ p = n + before.flatten.length) ↔
        (isSeparatorLine first = true ∧ p = n) ∨
          p ∈ startsFrom (n + first.length + (carve lines).1.length) (carve lines).2 := by
      rw [ih hcons.2]
      constructor
      · rintro ⟨before, line, after, heq, hsep, rfl⟩
        cases before with
        | nil =>
          obtain ⟨rfl, -⟩ := List.cons.inj heq
          exact .inl ⟨hsep, by simp⟩
        | cons b before =>
          obtain ⟨rfl, hrest⟩ := List.cons.inj heq
          exact .inr ⟨before, line, after, hrest, hsep, by simp; omega⟩
      · rintro (⟨hsep, rfl⟩ | ⟨before, line, after, rfl, hsep, rfl⟩)
        · exact ⟨[], first, lines, rfl, hsep, by simp⟩
        · exact ⟨first :: before, line, after, rfl, hsep, by simp; omega⟩
    rw [hsplit, carve]
    by_cases hsep : isSeparatorLine first = true
    · rw [if_pos hsep]
      simp [startsFrom, hsep, hcons.1, RawDoc.text, Nat.add_assoc]
    · rw [if_neg hsep]
      simp [hsep, Nat.add_assoc]

theorem mem_starts_iff {p : Nat} : p ∈ starts content ↔
    ∃ before line after, splitLinesKeepEnds content = before ++ line :: after ∧
      isSeparatorLine line = true ∧ p = before.flatten.length := by
  have hne : ∀ line ∈ splitLinesKeepEnds content, line ≠ [] := fun line hline =>
    (isLine_of_mem hline).ne_nil
  have h := mem_startsFrom_carve hne (n := 0) (p := p)
  simp only [Nat.zero_add] at h
  rw [starts, splitDocuments_eq, documentsOf, ← h]
  split_ifs with hnone
  · rw [hnone.1]
    rfl
  · simp [startsFrom, RawDoc.text]

/-! ## 3. Lines at a position -/

def lineText (content : Text) (p : Nat) : Text := (content.drop p).takeWhile (fun c => !isNewline c)

def AfterNewline (content : Text) (p : Nat) : Prop := p = 0 ∨ content[p - 1]? = some '\n'

/-- Nothing but blanks follows the dashes, or a space does. -/
def Spaced (s : Text) : Prop :=
  let rest := (trimSuffix '\r' s).drop 3
  (∀ c ∈ rest, isBlank c = true) ∨ rest.head? = some ' '

theorem trimSuffix_dashes (s : Text) : trimSuffix '\r' (dashes ++ s) = dashes ++ trimSuffix '\r' s := by
  unfold trimSuffix
  cases s using List.reverseRecOn with
  | nil => decide
  | append_singleton s c =>
    rw [← List.append_assoc, List.getLast?_concat, List.getLast?_concat]
    split <;> simp

theorem line_at {before after : List Text} {line : Text}
    (h : splitLinesKeepEnds content = before ++ line :: after) :
    AfterNewline content before.flatten.length ∧
      stripLineEnding line = trimSuffix '\r' (lineText content before.flatten.length) ∧
      line ++ after.flatten = content.drop before.flatten.length := by
  have hall : (∀ l ∈ splitLinesKeepEnds content, IsLine isNewline l) ∧
      ∀ l ∈ (splitLinesKeepEnds content).dropLast, Closed isNewline l := linesBy_lines content
  rw [h, List.dropLast_append_cons] at hall
  have hcontent : content = before.flatten ++ (line ++ after.flatten) := by
    have hjoin : (splitLinesKeepEnds content).flatten = content := flatten_linesBy content
    rw [← hjoin, h, List.flatten_append, List.flatten_cons]
  have hdrop : content.drop before.flatten.length = line ++ after.flatten := by
    conv_lhs => rw [hcontent]
    exact List.drop_left
  refine ⟨?_, ?_, hdrop.symm⟩
  · by_cases hnil : before = []
    · exact .inl (by rw [hnil]; rfl)
    · -- the line in front is closed
      obtain ⟨lines, last, rfl⟩ := (List.eq_nil_or_concat' before).resolve_left hnil
      have hlast := hall.2 last (by simp)
      have hne := (hall.1 last (by simp)).ne_nil
      obtain ⟨s, x, rfl⟩ := (List.eq_nil_or_concat' last).resolve_left hne
      obtain rfl : x = '\n' := by simpa [Closed, isNewline] using hlast
      right
      rw [hcontent]
      simp
  · obtain ⟨s, hs, hline⟩ := line_cases (hall.1 line (by simp))
    have hkeep : ∀ c ∈ s, (!isNewline c) = true := fun c hc => by
      simpa [isNewline] using fun heq : c = '\n' => hs (heq ▸ hc)
    have hlast : s.getLast? ≠ some '\n' := fun hlast => hs (List.mem_of_getLast? hlast)
    have hstrip : stripLineEnding s = trimSuffix '\r' s := by
      rw [stripLineEnding, show trimSuffix '\n' s = s from if_neg hlast]
    rw [lineText, hdrop]
    rcases hline with rfl | rfl
    · -- without a line feed it is the last line
      have hafter : after = [] := by
        by_contra hmore
        obtain ⟨next, after, rfl⟩ := List.exists_cons_of_ne_nil hmore
        have hclose := hall.2 line (by simp)
        obtain ⟨x, hx⟩ := Option.ne_none_iff_exists'.mp (fun hnone =>
          (hall.1 line (by simp)).ne_nil (List.getLast?_eq_none_iff.mp hnone))
        exact hlast (by rw [hx, show x = '\n' by simpa [isNewline] using hclose x hx])
      rw [hstrip, hafter, List.flatten_nil, List.append_nil, List.takeWhile_eq_self_iff.mpr hkeep]
    · rw [stripLineEnding_newline hlast, hstrip, List.append_assoc, List.takeWhile_append_of_pos hkeep]
      simp [isNewline]

theorem exists_line_at {p : Nat} (hp : p < content.length) (h : AfterNewline content p) :
    ∃ before line after, splitLinesKeepEnds content = before ++ line :: after ∧
      p = before.flatten.length := by
  have hclose : Closed isNewline (content.take p) := by
    rcases h with rfl | h
    · simp
    · intro c hc
      rw [List.getLast?_take] at hc
      split_ifs at hc with hzero
      · simp at hc
      · rw [h] at hc
        obtain rfl : '\n' = c := by simpa using hc
        rfl
  have hline : splitLinesKeepEnds content =
      splitLinesKeepEnds (content.take p) ++ splitLinesKeepEnds (content.drop p) := by
    conv_lhs => rw [← List.take_append_drop p content]
    exact linesBy_append hclose
  obtain ⟨line, after, hafter⟩ := List.exists_cons_of_ne_nil
    (fun hnil => by simpa [hp.not_ge] using linesBy_eq_nil.mp hnil :
      splitLinesKeepEnds (content.drop p) ≠ [])
  refine ⟨_, line, after, by rw [hline, hafter], ?_⟩
  rw [splitLinesKeepEnds, flatten_linesBy, List.length_take, Nat.min_eq_left hp.le]

/-- The separators are the dashes with a line feed in front and room behind. -/
theorem mem_starts_iff_spaced {p : Nat} : p ∈ starts content ↔
    AfterNewline content p ∧ dashes <+: content.drop p ∧ Spaced (lineText content p) := by
  have hsep : ∀ {before after : List Text} {line : Text},
      splitLinesKeepEnds content = before ++ line :: after →
      (isSeparatorLine line = true ↔ dashes <+: content.drop before.flatten.length ∧
        Spaced (lineText content before.flatten.length)) := by
    intro before after line h
    obtain ⟨-, hstrip, hdrop⟩ := line_at h
    rw [isSeparatorLine_iff, hstrip]
    constructor
    · rintro ⟨rest, hrest, hspace⟩
      have hspaced : Spaced (lineText content before.flatten.length) := by
        rw [Spaced, hrest]
        exact hspace
      refine ⟨?_, hspaced⟩
      rw [← hdrop]
      exact List.IsPrefix.trans (dashes_of_isSeparatorLine (isSeparatorLine_iff.mpr
        ⟨rest, hstrip.trans hrest, hspace⟩)) (List.prefix_append _ _)
    · rintro ⟨⟨rest, hrest⟩, hspace⟩
      have htext : lineText content before.flatten.length =
          dashes ++ rest.takeWhile (fun c => !isNewline c) := by
        rw [lineText, ← hrest]
        rfl
      rw [Spaced, htext, trimSuffix_dashes] at hspace
      exact ⟨_, by rw [htext, trimSuffix_dashes]; rfl, hspace⟩
  rw [mem_starts_iff]
  constructor
  · rintro ⟨before, line, after, h, hline, rfl⟩
    exact ⟨(line_at h).1, (hsep h).mp hline⟩
  · rintro ⟨hafter, hdash, hspace⟩
    have hp : p < content.length := by
      by_contra hlong
      rw [List.drop_eq_nil_of_le (Nat.le_of_not_lt hlong)] at hdash
      exact absurd hdash (by decide)
    obtain ⟨before, line, after, h, rfl⟩ := exists_line_at hp hafter
    exact ⟨before, line, after, h, (hsep h).mpr ⟨hdash, hspace⟩, rfl⟩

/-! ## 4. Agreement -/

/-- A separator of the splitter is a marker. -/
theorem Reading.marker_of_mem_starts (r : Reading content) {p : Nat} (h : p ∈ starts content) :
    r.Marker p := by
  obtain ⟨hafter, hdash, hspace⟩ := mem_starts_iff_spaced.mp h
  refine (r.marker_iff p).mpr ⟨?_, hdash, fun c hc => ?_⟩
  · exact hafter.imp_right (fun h => .inl ⟨'\n', h, by decide⟩)
  · obtain ⟨rest, hrest⟩ := hdash
    have hc' : rest.head? = some c := by
      rw [← List.getElem?_drop, ← hrest] at hc
      simpa [dashes, List.head?_eq_getElem?] using hc
    obtain ⟨rest, rfl⟩ : ∃ more, rest = c :: more := by
      cases rest with
      | nil => exact absurd hc' (by simp)
      | cons x more => exact ⟨more, by simpa using hc'⟩
    by_cases hnew : c = '\n'
    · rw [hnew]
      decide
    · -- the character is on the line, and is a carriage return at its end or a blank
      have htext : lineText content p = dashes ++ c :: rest.takeWhile (fun c => !isNewline c) := by
        rw [lineText, ← hrest]
        simp [dashes, isNewline, hnew]
      by_cases hcr : c = '\r'
      · rw [hcr]
        decide
      · rw [Spaced, htext, trimSuffix_dashes] at hspace
        have hcons : ∃ more, trimSuffix '\r' (c :: rest.takeWhile (fun c => !isNewline c)) =
            c :: more := by
          unfold trimSuffix
          split
          · cases hrest : rest.takeWhile (fun c => !isNewline c) with
            | nil =>
              rename_i hlast
              rw [hrest] at hlast
              exact absurd (by simpa using hlast) hcr
            | cons x more => exact ⟨_, rfl⟩
          · exact ⟨_, rfl⟩
        obtain ⟨more, hmore⟩ := hcons
        rw [hmore] at hspace
        rcases hspace with hblank | hspaced
        · rw [hblank c (by simp [dashes]), Bool.true_or]
        · obtain rfl : c = ' ' := by simpa [dashes] using hspaced
          decide

/-- The splitter starts a document at the markers of the stream, and nowhere else, exactly when
    every marker has a line feed in front and room behind. -/
theorem starts_eq_markers_iff (content : Text) (r : Reading content) :
    (joinDocuments (splitDocuments content) = content ∧ ∀ p, p ∈ starts content ↔ r.Marker p) ↔
      ∀ p, r.Marker p → AfterNewline content p ∧ Spaced (lineText content p) := by
  constructor
  · rintro ⟨-, h⟩ p hp
    obtain ⟨hafter, -, hspaced⟩ := mem_starts_iff_spaced.mp ((h p).mpr hp)
    exact ⟨hafter, hspaced⟩
  · intro h
    refine ⟨joinDocuments_splitDocuments content, fun p => ⟨r.marker_of_mem_starts, fun hp => ?_⟩⟩
    exact mem_starts_iff_spaced.mpr ⟨(h p hp).1, hp.2.2.1, (h p hp).2⟩

def tabbedFile : Text := "a: 1\n---\t# next\nb: 2\n".toList

def plainReading (content : Text) : Reading content where
  context _ := .outside
  block := fun _ _ _ h => nomatch h
  scalar := fun _ _ h => by rcases h with h | h <;> cases h

theorem tabbed_marker_missed : (plainReading tabbedFile).Marker 5 ∧ starts tabbedFile = [] ∧
      splitDocuments tabbedFile = [⟨[], tabbedFile⟩] := by
  refine ⟨⟨.inr (.inl ⟨'\n', by decide, by decide⟩), rfl, by decide, ?_⟩, by decide +kernel,
    by decide +kernel⟩
  intro c hc
  have hat : tabbedFile[5 + 3]? = some '\t' := by decide +kernel
  obtain rfl := Option.some.inj (hat.symm.trans hc)
  decide

end GitopsReverser.Edit
