import Mathlib

/-!
# SlashPath — lexical cleaning of slash-separated paths

Strings are lists of characters. `pathClean` is the lexical path cleaner of the Go standard
library; the lemmas below reduce it, on inputs without a `..` name, to the list of its proper
segments (`segments`), where containment of folders is just the prefix order on lists.
-/

namespace GitopsReverser.Reasoning

abbrev Segment := List Char

instance : LawfulBEq Segment := inferInstanceAs (LawfulBEq (List Char))

/-! ## 1. Splitting and joining at the slash -/

/-- Split at every slash; the result always has one more entry than the input has slashes. -/
def splitSlash : List Char → List Segment
  | [] => [[]]
  | c :: cs =>
    if c = '/' then [] :: splitSlash cs
    else match splitSlash cs with
      | [] => [[c]]
      | s :: ss => (c :: s) :: ss

def joinSlash : List Segment → List Char
  | [] => []
  | [s] => s
  | s :: ss => s ++ '/' :: joinSlash ss

attribute [local simp] splitSlash joinSlash in
theorem joinSlash_cons (s : Segment) (h : ss ≠ []) :
    joinSlash (s :: ss) = s ++ '/' :: joinSlash ss := by
  cases ss with
  | nil => exact absurd rfl h
  | cons r rs => rfl

/-- A proper segment: what survives cleaning when the path has no `..` name. -/
def ProperSegment (s : Segment) : Prop := s ≠ [] ∧ '/' ∉ s

variable (cs : List Char)

theorem splitSlash_ne_nil : splitSlash cs ≠ [] := by
  cases cs with
  | nil => simp [splitSlash]
  | cons c cs =>
    simp only [splitSlash]
    split
    · simp
    · split <;> simp

theorem splitSlash_slash : splitSlash ('/' :: cs) = [] :: splitSlash cs := by
  simp [splitSlash]

theorem slash_notMem_of_mem_splitSlash : ∀ s ∈ splitSlash cs, '/' ∉ s := by
  induction cs with
  | nil => simp [splitSlash]
  | cons c cs ih =>
    simp only [splitSlash]
    split
    · intro s hs
      rcases List.mem_cons.mp hs with rfl | hs
      · simp
      · exact ih s hs
    · rename_i hc
      split
      · simpa using Ne.symm hc
      · rename_i s ss hss
        rw [hss] at ih
        intro r hr
        rcases List.mem_cons.mp hr with rfl | hr
        · have hs := ih s (by simp)
          simp only [List.mem_cons, not_or]
          exact ⟨fun h => hc h.symm, hs⟩
        · exact ih r (by simp [hr])

theorem infix_of_mem_splitSlash : ∀ s ∈ splitSlash cs, s <:+: cs := by
  -- the head of the split is moreover a leading piece, which is what the recursion extends
  suffices h : (∀ s ∈ splitSlash cs, s <:+: cs) ∧
      (splitSlash cs).head? = some (cs.takeWhile (· ≠ '/')) from h.1
  induction cs with
  | nil => simp [splitSlash]
  | cons c cs ih =>
    obtain ⟨ihMem, ihHead⟩ := ih
    simp only [splitSlash]
    split
    · rename_i hc
      subst hc
      refine ⟨?_, by simp⟩
      intro s hs
      rcases List.mem_cons.mp hs with rfl | hs
      · exact List.nil_infix
      · exact (ihMem s hs).trans (List.suffix_cons _ _).isInfix
    · rename_i hc
      split
      · rename_i hnil
        exact absurd hnil (splitSlash_ne_nil cs)
      · rename_i s ss hss
        rw [hss] at ihMem ihHead
        simp only [List.head?_cons, Option.some.injEq] at ihHead
        refine ⟨?_, by simp [hc, ihHead]⟩
        intro r hr
        rcases List.mem_cons.mp hr with rfl | hr
        · rw [ihHead]
          have hp : cs.takeWhile (fun x => decide (x ≠ '/')) <+: cs := List.takeWhile_prefix _
          exact ((List.prefix_cons_inj c).mpr hp).isInfix
        · exact (ihMem r (by simp [hr])).trans (List.suffix_cons _ _).isInfix

theorem splitSlash_of_notMem (s : Segment) (hs : '/' ∉ s) : splitSlash s = [s] := by
  induction s with
  | nil => rfl
  | cons c s ih =>
    simp only [List.mem_cons, not_or] at hs
    rw [splitSlash, if_neg (fun h => hs.1 h.symm), ih hs.2]

theorem splitSlash_append (x y : List Char) :
    splitSlash (x ++ '/' :: y) = splitSlash x ++ splitSlash y := by
  induction x with
  | nil => exact splitSlash_slash y
  | cons c x ih =>
    by_cases hc : c = '/'
    · subst hc
      rw [List.cons_append, splitSlash_slash, splitSlash_slash, ih, List.cons_append]
    · rw [List.cons_append, splitSlash, splitSlash, if_neg hc, if_neg hc, ih]
      cases hx : splitSlash x with
      | nil => exact absurd hx (splitSlash_ne_nil x)
      | cons s ss => rfl

/-- Joining and splitting again gives the segments back, except that no segment at all joins to
    the empty string, which splits into one empty entry. -/
theorem splitSlash_joinSlash (ss : List Segment) (hne : ss ≠ []) (h : ∀ s ∈ ss, '/' ∉ s) :
    splitSlash (joinSlash ss) = ss := by
  induction ss with
  | nil => exact absurd rfl hne
  | cons s ss ih =>
    cases ss with
    | nil => exact splitSlash_of_notMem s (h s (by simp))
    | cons r rs =>
      rw [joinSlash, splitSlash_append, splitSlash_of_notMem s (h s (by simp)),
        ih (by simp) (fun t ht => h t (List.mem_cons_of_mem s ht))]
      · rfl
      · simp

theorem joinSlash_injective (hs : ∀ s ∈ ss, ProperSegment s)
    (hr : ∀ r ∈ rs, ProperSegment r) (h : joinSlash ss = joinSlash rs) : ss = rs := by
  have joinNil : ∀ ts : List Segment, (∀ t ∈ ts, ProperSegment t) → joinSlash ts = [] → ts = [] := by
    intro ts ht hj
    match ts with
    | [] => rfl
    | [t] => exact absurd hj (ht t (by simp)).1
    | t :: u :: us => simp [joinSlash] at hj
  by_cases hsn : ss = []
  · subst hsn
    exact (joinNil rs hr h.symm).symm
  · by_cases hrn : rs = []
    · subst hrn
      exact absurd (joinNil ss hs h) hsn
    · rw [← splitSlash_joinSlash ss hsn (fun s m => (hs s m).2), h,
        splitSlash_joinSlash rs hrn (fun r m => (hr r m).2)]

theorem joinSlash_append (ss rs : List Segment) (hs : ss ≠ []) (hr : rs ≠ []) :
    joinSlash (ss ++ rs) = joinSlash ss ++ '/' :: joinSlash rs := by
  induction ss with
  | nil => exact absurd rfl hs
  | cons s ss ih =>
    cases ss with
    | nil =>
      cases rs with
      | nil => exact absurd rfl hr
      | cons r rs => rfl
    | cons t ts =>
      rw [List.cons_append, joinSlash_cons s (by simp), joinSlash_cons s (by simp), ih (by simp)]
      simp

/-- On proper segments, a string prefix that ends at a segment boundary is a proper prefix of the
    segment list. -/
theorem joinSlash_slash_isPrefix_iff (ss rs : List Segment) (hsn : ss ≠ [])
    (hs : ∀ s ∈ ss, ProperSegment s) (hr : ∀ r ∈ rs, ProperSegment r) :
    joinSlash ss ++ ['/'] <+: joinSlash rs ↔ ss <+: rs ∧ ss ≠ rs := by
  constructor
  · rintro ⟨tail, htail⟩
    rw [List.append_assoc, List.singleton_append] at htail
    -- split both sides: the left one into `ss` followed by the entries of `tail`
    have hsplit : splitSlash (joinSlash ss ++ '/' :: tail) = ss ++ splitSlash tail := by
      rw [splitSlash_append, splitSlash_joinSlash ss hsn (fun s m => (hs s m).2)]
    have hrn : rs ≠ [] := by
      rintro rfl
      simp [joinSlash] at htail
    have hlist : ss ++ splitSlash tail = rs := by
      rw [← hsplit, htail, splitSlash_joinSlash rs hrn (fun r m => (hr r m).2)]
    refine ⟨⟨splitSlash tail, hlist⟩, ?_⟩
    rintro rfl
    exact splitSlash_ne_nil tail (List.append_right_eq_self.mp hlist)
  · rintro ⟨⟨tail, rfl⟩, hne⟩
    have htn : tail ≠ [] := by
      rintro rfl
      simp at hne
    rw [joinSlash_append ss tail hsn htn]
    exact ⟨joinSlash tail, by simp⟩

/-! ## 2. Trimming -/

def trimBy (cut : Char → Bool) (cs : List Char) : List Char :=
  (cs.dropWhile cut).rdropWhile cut

theorem trimBy_idempotent (cut : Char → Bool) (cs : List Char) :
    trimBy cut (trimBy cut cs) = trimBy cut cs := by
  have hhead : (trimBy cut cs).dropWhile cut = trimBy cut cs := by
    apply List.dropWhile_eq_self_iff.mpr
    intro hlen
    have hfront : trimBy cut cs <+: cs.dropWhile cut := List.rdropWhile_prefix cut _
    have hlen' : 0 < (cs.dropWhile cut).length := Nat.lt_of_lt_of_le hlen hfront.length_le
    have hget : (trimBy cut cs)[0] = (cs.dropWhile cut)[0] := hfront.getElem hlen
    rw [hget]
    exact List.dropWhile_get_zero_not cut cs hlen'
  calc
    trimBy cut (trimBy cut cs) = ((trimBy cut cs).dropWhile cut).rdropWhile cut := rfl
    _ = (trimBy cut cs).rdropWhile cut := by rw [hhead]
    _ = trimBy cut cs := List.rdropWhile_idempotent _ _

theorem trimBy_eq_self (cut : Char → Bool) (cs : List Char)
    (hhead : ∀ c, cs.head? = some c → cut c = false)
    (hlast : ∀ c, cs.getLast? = some c → cut c = false) : trimBy cut cs = cs := by
  have hdrop : cs.dropWhile cut = cs := by
    cases cs with
    | nil => rfl
    | cons c cs => simp [hhead c rfl]
  rw [trimBy, hdrop, List.rdropWhile_eq_self_iff]
  intro hne
  rw [hlast _ (List.getLast?_eq_some_getLast hne)]
  simp

theorem trimBy_eq_nil {cut : Char → Bool} {cs : List Char} :
    trimBy cut cs = [] ↔ ∀ c ∈ cs, cut c = true := by
  rw [trimBy, List.rdropWhile_eq_nil_iff]
  constructor
  · intro h
    have hnone : cs.dropWhile cut = [] := by
      by_contra hne
      exact List.dropWhile_get_zero_not cut cs (List.length_pos_iff.mpr hne) (h _ (List.getElem_mem _))
    exact List.dropWhile_eq_nil_iff.mp hnone
  · intro h c hc
    exact h c (List.dropWhile_subset cut hc)

/-! ## 3. The lexical cleaner -/

def dot : Segment := ['.']

def dotDot : Segment := ['.', '.']

/-- One name of the path against the stack of names kept so far (innermost first). -/
def cleanStep (rooted : Bool) (stack : List Segment) (name : Segment) : List Segment :=
  if name = [] ∨ name = dot then stack
  else if name = dotDot then
    match stack with
    | [] => if rooted then [] else [dotDot]
    | top :: rest => if top = dotDot then dotDot :: stack else rest
  else name :: stack

/-- The shortest path equivalent to the input by lexical processing: repeated slashes and `.`
    names go, an inner `..` goes with the name before it, and a rooted path has no leading `..`.
    The empty result is written `.`. -/
def pathClean (p : List Char) : List Char :=
  let rooted := p.head? = some '/'
  let names := ((splitSlash p).foldl (cleanStep rooted) []).reverse
  if rooted then '/' :: joinSlash names
  else if names = [] then dot
  else joinSlash names

def segments (p : List Char) : List Segment :=
  (splitSlash p).filter (fun s => decide (s ≠ [] ∧ s ≠ dot))

variable (p : List Char)

theorem segments_proper : ∀ s ∈ segments p, ProperSegment s := by
  intro s hs
  simp only [segments, List.mem_filter, decide_eq_true_eq] at hs
  exact ⟨hs.2.1, slash_notMem_of_mem_splitSlash p s hs.1⟩

/-- Without a `..` name the cleaner never pops, so it only filters. -/
theorem foldl_cleanStep (rooted : Bool) (names stack : List Segment) (h : dotDot ∉ names) :
    names.foldl (cleanStep rooted) stack =
      (names.filter (fun s => decide (s ≠ [] ∧ s ≠ dot))).reverse ++ stack := by
  induction names generalizing stack with
  | nil => rfl
  | cons n ns ih =>
    simp only [List.mem_cons, not_or] at h
    rw [List.foldl_cons, ih _ h.2]
    by_cases hn : n = [] ∨ n = dot
    · have hkeep : ¬ (n ≠ [] ∧ n ≠ dot) := by tauto
      simp [cleanStep, hn, hkeep]
    · have hkeep : n ≠ [] ∧ n ≠ dot := by tauto
      simp [cleanStep, Ne.symm h.1, hkeep]

theorem dotDot_notMem_splitSlash (h : ¬ dotDot <:+: p) : dotDot ∉ splitSlash p :=
  fun hm => h (infix_of_mem_splitSlash p dotDot hm)

theorem pathClean_rooted (h : ¬ dotDot <:+: p) :
    pathClean ('/' :: p) = '/' :: joinSlash (segments p) := by
  have hname : dotDot ∉ ([] :: splitSlash p) := by
    simp only [List.mem_cons, not_or]
    exact ⟨by simp [dotDot], dotDot_notMem_splitSlash p h⟩
  simp [pathClean, splitSlash_slash, foldl_cleanStep _ _ _ hname, segments]

theorem pathClean_relative (hrelative : p.head? ≠ some '/') (h : ¬ dotDot <:+: p) :
    pathClean p = if segments p = [] then dot else joinSlash (segments p) := by
  simp [pathClean, hrelative, foldl_cleanStep _ _ _ (dotDot_notMem_splitSlash p h), segments]

theorem head_joinSlash_ne_slash (h : ∀ s ∈ ss, ProperSegment s) : (joinSlash ss).head? ≠ some '/' := by
  cases ss with
  | nil => simp [joinSlash]
  | cons s ss =>
    obtain ⟨hne, hslash⟩ := h s (by simp)
    obtain ⟨c, cs, rfl⟩ := List.exists_cons_of_ne_nil hne
    have hc : c ≠ '/' := fun heq => hslash (by simp [heq])
    cases ss <;> simpa [joinSlash] using hc

theorem getLast_joinSlash_ne_slash (h : ∀ s ∈ ss, ProperSegment s) :
    (joinSlash ss).getLast? ≠ some '/' := by
  rcases List.eq_nil_or_concat ss with rfl | ⟨rs, s, rfl⟩
  · simp [joinSlash]
  · obtain ⟨hne, hslash⟩ := h s (by simp)
    have hlast : (joinSlash (rs ++ [s])).getLast? = s.getLast? := by
      cases rs with
      | nil => rfl
      | cons r rs =>
        rw [joinSlash_append _ _ (by simp) (by simp), List.getLast?_append_of_ne_nil _ (by simp)]
        exact List.getLast?_append_of_ne_nil ['/'] hne
    rw [List.concat_eq_append, hlast]
    exact fun heq => hslash (List.mem_of_getLast? heq)

theorem trimBy_slash_joinSlash (ss : List Segment) (h : ∀ s ∈ ss, ProperSegment s) :
    trimBy (· == '/') (joinSlash ss) = joinSlash ss := by
  apply trimBy_eq_self
  · intro c hc
    simpa using fun heq : c = '/' => head_joinSlash_ne_slash h (heq ▸ hc)
  · intro c hc
    simpa using fun heq : c = '/' => getLast_joinSlash_ne_slash h (heq ▸ hc)

/-! ### Cleaning twice -/

/-- A stack of names the cleaner can leave: names that stay, above the climbs of a relative path. -/
structure CleanStack (rooted : Bool) (stack : List Segment) : Prop where
  proper : ∀ s ∈ stack, ProperSegment s ∧ s ≠ dot
  climbs : ∃ kept n, stack = kept ++ List.replicate n dotDot ∧ dotDot ∉ kept ∧ (rooted = true → n = 0)

theorem CleanStack.step (h : CleanStack rooted stack) (hname : '/' ∉ name) :
    CleanStack rooted (cleanStep rooted stack name) := by
  obtain ⟨hproper, kept, n, hstack, hkept, hroot⟩ := h
  unfold cleanStep
  by_cases hskip : name = [] ∨ name = dot
  · rw [if_pos hskip]
    exact ⟨hproper, kept, n, hstack, hkept, hroot⟩
  rw [if_neg hskip]
  by_cases hup : name = dotDot
  · rw [if_pos hup]
    cases stack with
    | nil =>
      dsimp only
      split_ifs with hr
      · exact ⟨by simp, [], 0, rfl, by simp, fun _ => rfl⟩
      · exact ⟨by simp [ProperSegment, dotDot, dot], [], 1, rfl, by simp, fun h => absurd h hr⟩
    | cons top rest =>
      dsimp only
      split_ifs with htop
      · -- the top is a climb, so nothing is kept above it
        have hnone : kept = [] := by
          cases kept with
          | nil => rfl
          | cons k ks =>
            have : top = k := (List.cons.inj hstack).1
            exact absurd (by simp [← this, htop]) hkept
        subst hnone
        refine ⟨?_, [], n + 1, by rw [hstack]; rfl, by simp, fun hr => ?_⟩
        · intro s hs
          rcases List.mem_cons.mp hs with rfl | hs
          · exact ⟨by simp [ProperSegment, dotDot], by simp [dot, dotDot]⟩
          · exact hproper s hs
        · rw [hroot hr] at hstack
          cases hstack
      · cases kept with
        | nil =>
          cases n with
          | zero => cases hstack
          | succ n => exact absurd (List.cons.inj hstack).1 htop
        | cons k ks =>
          have hrest : rest = ks ++ List.replicate n dotDot := (List.cons.inj hstack).2
          exact ⟨fun s hs => hproper s (List.mem_cons_of_mem _ hs), ks, n, hrest,
            fun hm => hkept (List.mem_cons_of_mem _ hm), hroot⟩
  · rw [if_neg hup]
    obtain ⟨hne, hdot⟩ := not_or.mp hskip
    refine ⟨?_, name :: kept, n, by rw [hstack]; rfl, ?_, hroot⟩
    · intro s hs
      rcases List.mem_cons.mp hs with rfl | hs
      · exact ⟨⟨hne, hname⟩, hdot⟩
      · exact hproper s hs
    · simp only [List.mem_cons, not_or]
      exact ⟨fun heq => hup heq.symm, hkept⟩

theorem CleanStack.foldl (names stack : List Segment)
    (h : CleanStack rooted stack) (hname : ∀ s ∈ names, '/' ∉ s) :
    CleanStack rooted (names.foldl (cleanStep rooted) stack) := by
  induction names generalizing stack with
  | nil => exact h
  | cons s ss ih =>
    exact ih _ (h.step (hname s (by simp))) (fun t ht => hname t (List.mem_cons_of_mem s ht))

theorem CleanStack.foldl_reverse
    (h : CleanStack rooted stack) : stack.reverse.foldl (cleanStep rooted) [] = stack := by
  obtain ⟨hproper, kept, n, rfl, hkept, hroot⟩ := h
  have hclimb : (List.replicate n dotDot).foldl (cleanStep rooted) [] = List.replicate n dotDot := by
    cases rooted with
    | true => rw [hroot rfl]; rfl
    | false =>
      clear hproper hroot
      induction n with
      | zero => rfl
      | succ n ih =>
        have hstep : cleanStep false (List.replicate n dotDot) dotDot =
            List.replicate (n + 1) dotDot := by
          cases n <;> simp [cleanStep, dotDot, dot, List.replicate_succ]
        calc
          _ = (List.replicate n dotDot ++ [dotDot]).foldl (cleanStep false) [] := by
            rw [← List.replicate_succ']
          _ = cleanStep false (List.replicate n dotDot) dotDot := by
            rw [List.foldl_append, ih]
            rfl
          _ = _ := hstep
  have hpush : ∀ names st : List Segment, (∀ s ∈ names, s ≠ [] ∧ s ≠ dot ∧ s ≠ dotDot) →
      names.foldl (cleanStep rooted) st = names.reverse ++ st := by
    intro names st hall
    rw [foldl_cleanStep _ _ _ (fun hm => (hall dotDot hm).2.2 rfl), List.filter_eq_self.mpr]
    exact fun s hs => decide_eq_true ⟨(hall s hs).1, (hall s hs).2.1⟩
  rw [List.reverse_append, List.foldl_append, List.reverse_replicate, hclimb, hpush, List.reverse_reverse]
  intro s hs
  have hmem : s ∈ kept := List.mem_reverse.mp hs
  obtain ⟨hp, hdot⟩ := hproper s (List.mem_append_left _ hmem)
  exact ⟨hp.1, hdot, fun heq => hkept (heq ▸ hmem)⟩

theorem pathClean_idempotent : pathClean (pathClean p) = pathClean p := by
  have hstack : CleanStack (p.head? = some '/')
      ((splitSlash p).foldl (cleanStep (p.head? = some '/')) []) :=
    CleanStack.foldl _ _ ⟨by simp, [], 0, rfl, by simp, fun _ => rfl⟩ (slash_notMem_of_mem_splitSlash p)
  have hclean : pathClean p = if p.head? = some '/' then
      '/' :: joinSlash ((splitSlash p).foldl (cleanStep (p.head? = some '/')) []).reverse
      else if ((splitSlash p).foldl (cleanStep (p.head? = some '/')) []).reverse = [] then dot
      else joinSlash ((splitSlash p).foldl (cleanStep (p.head? = some '/')) []).reverse := rfl
  rw [hclean]
  generalize hst : (splitSlash p).foldl (cleanStep (p.head? = some '/')) [] = stack at hstack ⊢
  have hproper : ∀ s ∈ stack.reverse, ProperSegment s :=
    fun s hs => (hstack.proper s (List.mem_reverse.mp hs)).1
  have hsplit : stack.reverse ≠ [] → splitSlash (joinSlash stack.reverse) = stack.reverse :=
    fun hne => splitSlash_joinSlash _ hne (fun s hs => (hproper s hs).2)
  by_cases hroot : p.head? = some '/'
  · rw [if_pos hroot]
    simp only [hroot, decide_true] at hstack
    have hfold : (splitSlash (joinSlash stack.reverse)).foldl (cleanStep true) [] = stack := by
      by_cases hne : stack.reverse = []
      · have hnil : stack = [] := List.reverse_eq_nil_iff.mp hne
        simp [hnil, joinSlash, splitSlash, cleanStep]
      · rw [hsplit hne]
        exact hstack.foldl_reverse
    have hfold' : (splitSlash ('/' :: joinSlash stack.reverse)).foldl (cleanStep true) [] = stack := by
      rw [splitSlash_slash, List.foldl_cons]
      simpa [cleanStep] using hfold
    simp [pathClean, hfold']
  · rw [if_neg hroot]
    simp only [hroot, decide_false] at hstack
    split_ifs with hne
    · decide
    · have hhead : (joinSlash stack.reverse).head? ≠ some '/' := head_joinSlash_ne_slash hproper
      simp only [pathClean, hhead, decide_false, if_false, hsplit hne, hstack.foldl_reverse, hne]

/-! ## 4. The last name of a path -/

def lastName (p : List Char) : Segment := (splitSlash p).getLastD []

theorem lastName_of_notMem (hs : '/' ∉ s) : lastName s = s := by
  rw [lastName, splitSlash_of_notMem s hs]
  rfl

theorem lastName_append_slash (x y : List Char) : lastName (x ++ '/' :: y) = lastName y := by
  have hy := splitSlash_ne_nil y
  rw [lastName, lastName, splitSlash_append, List.getLastD_eq_getLast?, List.getLastD_eq_getLast?,
    List.getLast?_append_of_ne_nil _ hy]

theorem eq_lastName_or : p = lastName p ∨ ∃ x, p = x ++ '/' :: lastName p := by
  by_cases hp : '/' ∈ p
  · -- cut at the last slash
    obtain ⟨y, x, hy, hcut⟩ : ∃ y x, '/' ∉ y ∧ p = x ++ '/' :: y := by
      obtain ⟨a, t, hsplit, hnot⟩ := List.eq_append_cons_of_mem (List.mem_reverse.mpr hp)
      refine ⟨a.reverse, t.reverse, by simpa using hnot, ?_⟩
      rw [← List.reverse_inj, hsplit]
      simp
    right
    refine ⟨x, ?_⟩
    rw [hcut, lastName_append_slash, lastName_of_notMem hy]
  · exact .inl (lastName_of_notMem hp).symm

theorem lastName_suffix : lastName p <:+ p := by
  rcases eq_lastName_or p with h | ⟨x, h⟩
  · rw [← h]
  · exact ⟨x ++ ['/'], by rw [List.append_assoc]; exact h.symm⟩

theorem suffix_lastName {t p : List Char} (ht : '/' ∉ t) (h : t <:+ p) : t <:+ lastName p := by
  rcases eq_lastName_or p with hp | ⟨x, hp⟩
  · rwa [← hp]
  · rcases List.suffix_or_suffix_of_suffix h (⟨x, hp.symm⟩ : '/' :: lastName p <:+ p) with hs | hs
    · rcases List.suffix_cons_iff.mp hs with rfl | hs
      · simp at ht
      · exact hs
    · exact absurd (hs.subset (by simp)) ht

theorem lastName_pathClean {p : List Char} (hne : lastName p ≠ []) (hdot : lastName p ≠ dot)
    (hdotD : lastName p ≠ dotDot) : lastName (pathClean p) = lastName p := by
  obtain ⟨names, hname⟩ : ∃ names, splitSlash p = names ++ [lastName p] := by
    refine ⟨(splitSlash p).dropLast, ?_⟩
    rw [lastName, List.getLastD_eq_getLast?, List.getLast?_eq_some_getLast (splitSlash_ne_nil p)]
    exact (List.dropLast_append_getLast (splitSlash_ne_nil p)).symm
  have hslash : '/' ∉ lastName p := slash_notMem_of_mem_splitSlash p _ (by rw [hname]; simp)
  have hjoin : ∀ xs : List Segment, lastName (joinSlash (xs ++ [lastName p])) = lastName p := by
    intro xs
    cases xs with
    | nil => exact lastName_of_notMem hslash
    | cons x xs =>
      rw [joinSlash_append _ _ (by simp) (by simp), lastName_append_slash]
      exact lastName_of_notMem hslash
  simp only [pathClean]
  rw [hname, List.foldl_append]
  generalize names.foldl (cleanStep (p.head? = some '/')) [] = stack
  have hstep : [lastName p].foldl (cleanStep (p.head? = some '/')) stack = lastName p :: stack := by
    simp [cleanStep, hne, hdot, hdotD]
  rw [hstep, List.reverse_cons]
  split
  · exact (lastName_append_slash [] _).trans (hjoin _)
  · rw [if_neg (by simp)]
    exact hjoin _

/-! ## 5. Folders as sets of file paths -/

/-- The files below a folder: the paths the folder's own segments lead to. -/
def subtree (folder : List Segment) : Set (List Segment) := {file | folder <+: file}

theorem disjoint_subtree_iff (a b : List Segment) :
    Disjoint (subtree a) (subtree b) ↔ ¬ (a <+: b ∨ b <+: a) := by
  constructor
  · intro h
    rintro (hab | hba)
    · exact Set.disjoint_left.mp h hab (List.prefix_refl b)
    · exact Set.disjoint_left.mp h (List.prefix_refl a) hba
  · intro h
    rw [Set.disjoint_left]
    intro file ha hb
    exact h (List.prefix_or_prefix_of_prefix ha hb)

end GitopsReverser.Reasoning
