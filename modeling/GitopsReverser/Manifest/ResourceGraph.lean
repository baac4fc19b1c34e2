import GitopsReverser.Reasoning.Explore
import GitopsReverser.Manifest.Store

/-!
# ResourceGraph — what the walks over `resources:` find

The analyzer walks the graph of kustomizations three times: for the directories to build, for the
files a render root reads, and for the files a `namespace:` is handed down to. Each walk cuts cycles
in its own way; each finds what is reachable.
-/

namespace GitopsReverser.Manifest

open Reasoning
open Git (Path)
open Relation (ReflTransGen)

variable {kusts : Kustomizations} {dir file : Path} {depth : Nat}

/-! ## 1. Directories -/

def Leads (kusts : Kustomizations) : Path → Path → Prop :=
  ReflTransGen (fun a b => b ∈ directoryTargets kusts a)

abbrev directories (kusts : Kustomizations) : Set Path := {d | d ∈ kusts.keys}

theorem directories_finite (kusts : Kustomizations) : (directories kusts).Finite :=
  kusts.keys.finite_toSet

theorem mem_keys_of_lookup (h : kusts.lookup dir = some k) : dir ∈ kusts.keys :=
  AList.mem_keys.mp (AList.lookup_isSome.mp (by rw [h]; rfl))

theorem mem_directoryTargets : target ∈ directoryTargets kusts dir ↔
    ∃ k, kusts.lookup dir = some k ∧ target ∈ k.resources.map (cleanJoin dir) ∧ target ≠ [] ∧
      target ∈ kusts := by
  unfold directoryTargets
  cases kusts.lookup dir with
  | none => simp
  | some k => simp [List.mem_filter]

theorem mem_keys_of_mem_directoryTargets (h : target ∈ directoryTargets kusts dir) :
    target ∈ kusts.keys := by
  obtain ⟨_, -, -, -, hmem⟩ := mem_directoryTargets.mp h
  exact AList.mem_keys.mp hmem

theorem markReachable_explores (hdir : dir ∈ kusts.keys) (covered : List Path)
    (hroom : Room (directories kusts) {d | d ∈ covered} depth) :
    Explores (fun a b => b ∈ directoryTargets kusts a) {d | d ∈ covered} {dir}
      {d | d ∈ markReachable kusts depth dir covered} := by
  induction depth generalizing dir covered with
  | zero => exact absurd hroom (Nat.not_lt_zero _)
  | succ depth ih =>
    unfold markReachable
    split_ifs with hcover
    · exact .of_subset (by simpa using hcover)
    · refine .expand ?_
      have hinsert : insert dir {d | d ∈ covered} = {d | d ∈ dir :: covered} := by
        ext d
        simp
      have hroom' := hroom.mark (directories_finite kusts) hdir hcover
      rw [hinsert] at hroom' ⊢
      have hfold := Explores.foldl (fun covered : List Path => {d | d ∈ covered})
        (fun target => {target}) (directoryTargets kusts dir) (directories_finite kusts)
        (fun covered target ht hr => ih (mem_keys_of_mem_directoryTargets ht) covered hr)
        (dir :: covered) hroom'
      simpa using hfold

/-! ## 2. The directories that are built -/

/-- What the sweep over the directories that no root covers has found so far. -/
structure Swept (kusts : Kustomizations) (done : List Path) (st : List Path × List Path) : Prop where
  roots : renderRoots kusts ⊆ st.1
  covered : ∀ d, d ∈ st.2 ↔ ∃ t ∈ st.1, Leads kusts t d
  apart : st.1.Pairwise (fun a b => b ∉ renderRoots kusts → ¬ Leads kusts a b)
  done : ∀ d ∈ done, d ∈ st.2

theorem Swept.step {done : List Path} {targets covered : List Path}
    (h : Swept kusts done (targets, covered)) (hdir : dir ∈ kusts.keys) :
    Swept kusts (dir :: done) (if dir ∈ covered then (targets, covered)
      else (targets ++ [dir], markReachable kusts (kusts.keys.length + 1) dir covered)) := by
  split_ifs with hcover
  · exact ⟨h.roots, h.covered, h.apart, List.forall_mem_cons.mpr ⟨hcover, h.done⟩⟩
  · have hclosed : ∀ x ∈ {d | d ∈ covered}, ∀ y, y ∈ directoryTargets kusts x →
        y ∈ {d | d ∈ covered} := by
      intro x hx y hxy
      obtain ⟨t, ht, htx⟩ := (h.covered x).mp hx
      exact (h.covered y).mpr ⟨t, ht, htx.tail hxy⟩
    have hmark : ∀ d, d ∈ markReachable kusts (kusts.keys.length + 1) dir covered ↔
        d ∈ covered ∨ Leads kusts dir d := by
      intro d
      simpa [Leads] using
        (markReachable_explores hdir covered (room_of_list (Nat.lt_succ_self _))).mem_iff (x := d) hclosed
    refine ⟨fun r hr => List.mem_append_left _ (h.roots hr), fun d => ?_, ?_, ?_⟩
    · simp only [hmark, h.covered, List.mem_append, List.mem_singleton, or_and_right, exists_or,
        exists_eq_left]
    · refine List.pairwise_append.mpr ⟨h.apart, List.pairwise_singleton _ _, fun a ha b hb _ => ?_⟩
      rw [List.mem_singleton.mp hb]
      exact fun hlead => hcover ((h.covered dir).mpr ⟨a, ha, hlead⟩)
    · refine List.forall_mem_cons.mpr ⟨(hmark dir).mpr (.inr .refl), fun d hd => ?_⟩
      exact (hmark d).mpr (.inl (h.done d hd))

theorem swept_foldl (dirs : List Path) {done : List Path} {st : List Path × List Path}
    (h : Swept kusts done st) (hdirs : ∀ d ∈ dirs, d ∈ kusts.keys) :
    Swept kusts (dirs.reverse ++ done) (dirs.foldl (fun (targets, covered) dir =>
      if dir ∈ covered then (targets, covered)
      else (targets ++ [dir], markReachable kusts (kusts.keys.length + 1) dir covered)) st) := by
  induction dirs generalizing done st with
  | nil => exact h
  | cons dir dirs ih =>
    obtain ⟨hdir, hrest⟩ := List.forall_mem_cons.mp hdirs
    simpa using ih (h.step hdir) hrest

theorem exists_swept (kusts : Kustomizations) :
    ∃ covered, Swept kusts kusts.keys (renderTargets kusts, covered) := by
  have hroots := Explores.foldl (fun covered : List Path => {d | d ∈ covered}) (fun root => {root})
    (renderRoots kusts) (directories_finite kusts) (fun covered root hr =>
      markReachable_explores (mem_renderRoots.mp hr).1 covered)
    ([] : List Path) (room_of_list (Nat.lt_succ_self _))
  generalize hcover : (renderRoots kusts).foldl (fun covered root =>
    markReachable kusts (kusts.keys.length + 1) root covered) [] = covered at hroots
  have hinit : Swept kusts [] (renderRoots kusts, covered) := by
    refine ⟨fun _ hr => hr, fun d => ?_, ?_, by simp⟩
    · simpa [Leads] using hroots.mem_iff (x := d) (by simp)
    · exact List.pairwise_of_forall_mem_list (fun a _ b hb hne => absurd hb hne)
  have hrest := swept_foldl (sortPaths (kusts.keys.filter (· ∉ covered))) hinit
    (fun d hd => (List.mem_filter.mp (mem_sortPaths.mp hd)).1)
  simp only [renderTargets, hcover]
  refine ⟨_, hrest.roots, hrest.covered, hrest.apart, fun d hd => ?_⟩
  by_cases hdc : d ∈ covered
  · obtain ⟨t, ht, htd⟩ := (hinit.covered d).mp hdc
    exact (hrest.covered d).mpr ⟨t, hrest.roots ht, htd⟩
  · refine hrest.done d ?_
    simpa [mem_sortPaths, hdc] using hd

/-! ## 3. The files a root reads -/

def ListsFile (kusts : Kustomizations) (dir file : Path) : Prop :=
  ∃ k, kusts.lookup dir = some k ∧ file ∈ k.resources.map (cleanJoin dir) ∧ file ≠ [] ∧ file ∉ kusts

/-- A build of the directory reads the file. -/
def Consumes (kusts : Kustomizations) (dir file : Path) : Prop :=
  ∃ d, Leads kusts dir d ∧ ListsFile kusts d file

theorem reachedFrom_of_mem (h : dir ∈ onPath) : reachedFrom kusts depth onPath dir = [] := by
  cases depth with
  | zero => rfl
  | succ depth =>
    unfold reachedFrom
    split
    · rfl
    · exact if_pos h

theorem mem_reachedFrom (hdir : dir ∉ onPath)
    (hroom : Room (directories kusts) {d | d ∈ onPath} depth) :
    file ∈ reachedFrom kusts depth onPath dir ↔
      ∃ d, ReflTransGen (fun a b => b ∈ directoryTargets kusts a ∧ b ∉ onPath) dir d ∧
        ListsFile kusts d file := by
  induction depth generalizing dir onPath with
  | zero => exact absurd hroom (Nat.not_lt_zero _)
  | succ depth ih =>
    unfold reachedFrom
    cases hk : kusts.lookup dir with
    | none =>
      refine ⟨fun h => absurd h (by simp), ?_⟩
      rintro ⟨d, hreach, k, hd, -⟩
      rcases hreach.cases_head with rfl | ⟨c, ⟨hc, -⟩, -⟩
      · simp [hk] at hd
      · simp [directoryTargets, hk] at hc
    | some cur =>
      have hroom' : Room (directories kusts) {d | d ∈ dir :: onPath} depth := by
        have hmark := hroom.mark (directories_finite kusts) (mem_keys_of_lookup hk) hdir
        rwa [show insert dir {d | d ∈ onPath} = {d | d ∈ dir :: onPath} by ext d; simp] at hmark
      simp only [if_neg hdir, List.mem_flatMap]
      constructor
      · rintro ⟨target, htarget, hfile⟩
        split_ifs at hfile with hnil hkust
        · cases hfile
        · by_cases hcut : target ∈ dir :: onPath
          · rw [reachedFrom_of_mem hcut] at hfile
            cases hfile
          · obtain ⟨d, hreach, hlist⟩ := (ih hcut hroom').mp hfile
            have hstep : target ∈ directoryTargets kusts dir ∧ target ∉ onPath :=
              ⟨mem_directoryTargets.mpr ⟨cur, hk, htarget, hnil, hkust⟩,
                fun hon => hcut (List.mem_cons_of_mem dir hon)⟩
            refine ⟨d, .head hstep (ReflTransGen.mono ?_ _ _ hreach), hlist⟩
            exact fun a b hab => ⟨hab.1, fun hon => hab.2 (List.mem_cons_of_mem dir hon)⟩
        · obtain rfl := List.mem_singleton.mp hfile
          exact ⟨dir, .refl, cur, hk, htarget, hnil, hkust⟩
      · rintro ⟨d, hreach, hlist⟩
        -- the path that does not come back to the directory
        rcases reach_avoiding hreach with rfl | ⟨c, ⟨hc, hon⟩, hne, hrest⟩
        · obtain ⟨k, hd, hmem, hnil, hkust⟩ := hlist
          cases hk.symm.trans hd
          exact ⟨file, hmem, by simp [hnil, hkust]⟩
        · obtain ⟨k, hd, hmem, hnil, hkust⟩ := mem_directoryTargets.mp hc
          cases hk.symm.trans hd
          refine ⟨c, hmem, ?_⟩
          rw [if_neg hnil, if_pos hkust]
          refine (ih (by simp [hne, hon]) hroom').mpr ⟨d, ReflTransGen.mono ?_ _ _ hrest, hlist⟩
          exact fun a b hab => ⟨hab.1.1, by simp [hab.1.2, hab.2]⟩

theorem consumes_iff : Consumes kusts dir file ↔
    file ∈ reachedFrom kusts (kusts.keys.length + 1) [] dir := by
  rw [mem_reachedFrom (by simp) (room_of_list (Nat.lt_succ_self _))]
  simp [Consumes, Leads]

theorem exists_other_of_leads (h : Leads kusts t dir) (hne : t ≠ dir) :
    ∃ other ∈ kusts.keys, other ≠ dir ∧ dir ∈ directoryTargets kusts other := by
  induction h with
  | refl => exact absurd rfl hne
  | @tail d dir _ hstep ih =>
    by_cases hd : d = dir
    · exact ih (hd ▸ hne) |>.imp (fun _ h => hd ▸ h)
    · obtain ⟨k, hk, -⟩ := mem_directoryTargets.mp hstep
      exact ⟨d, mem_keys_of_lookup hk, hd, hstep⟩

/-- Every directory is built for some target, what nothing else references is a target, and no
    target beside the roots is built for an earlier one. A file counts as shared when two render
    roots read it. -/
theorem render_targets_exact (kusts : Kustomizations) :
    (∀ dir ∈ kusts.keys, ∃ t ∈ renderTargets kusts, Leads kusts t dir) ∧
    (∀ dir ∈ kusts.keys, (∀ other ∈ kusts.keys, other ≠ dir → dir ∉ directoryTargets kusts other) →
        dir ∈ renderTargets kusts) ∧
    (renderTargets kusts).Pairwise (fun a b => b ∉ renderRoots kusts → ¬ Leads kusts a b) ∧
    ∀ file, file ∈ renderRootFanIn kusts ↔
      ∃ root ∈ renderRoots kusts, ∃ other ∈ renderRoots kusts, root ≠ other ∧
        Consumes kusts root file ∧ Consumes kusts other file := by
  obtain ⟨covered, hswept⟩ := exists_swept kusts
  have hcover : ∀ dir ∈ kusts.keys, ∃ t ∈ renderTargets kusts, Leads kusts t dir :=
    fun dir hdir => (hswept.covered dir).mp (hswept.done dir hdir)
  refine ⟨hcover, fun dir hdir hfree => ?_, hswept.apart, fun file => ?_⟩
  · obtain ⟨t, ht, hlead⟩ := hcover dir hdir
    by_cases hne : t = dir
    · exact hne ▸ ht
    · obtain ⟨other, hother, hdiffer, href⟩ := exists_other_of_leads hlead hne
      exact absurd href (hfree other hother hdiffer)
  · simp only [mem_renderRootFanIn, consumes_iff]

def kustomizationAt (dir ns : String) (resources : List String) : FileContent :=
  ⟨(dir ++ "/kustomization.yaml").toList, [.node
    { identity := ⟨"", "", "", ""⟩
      kustomization := some
        { ns := ns.toList, resources := some (resources.map String.toList) } }]⟩

/-- A root, and beside it a cycle, that list one file. -/
def besideCycle : Kustomizations := parseKustomizations
  [kustomizationAt "r" "" ["../web.yaml"], kustomizationAt "a" "" ["../b", "../web.yaml"],
    kustomizationAt "b" "" ["../a"]]

/-- Two of the directories that are built read the file, and it does not count as shared: the one
    that stands for the cycle is no root. -/
theorem cycle_reader_not_counted : renderTargets besideCycle = ["r".toList, "a".toList] ∧
      Consumes besideCycle "r".toList "web.yaml".toList ∧
      Consumes besideCycle "a".toList "web.yaml".toList ∧
      "web.yaml".toList ∉ renderRootFanIn besideCycle := by
  simp only [consumes_iff]
  decide +kernel

/-! ## 4. The files a namespace is handed down to -/

/-- Where an entry leads: to a file (right), or to a supported kustomization (left). -/
def entryNode (kusts : Kustomizations) (resourceFiles : List Path) (target : Path) :
    Option (Path ⊕ Path) :=
  if target = [] then none
  else if target ∈ resourceFiles then some (.inr target)
  else match kusts.lookup target with
    | none => none
    | some k => if k.unsupported then none else some (.inl target)

def entryNodes (kusts : Kustomizations) (resourceFiles : List Path) : Path ⊕ Path → List (Path ⊕ Path)
  | .inr _ => []
  | .inl dir => match kusts.lookup dir with
    | none => []
    | some k => if k.unsupported then []
      else (k.resources.map (cleanJoin dir)).filterMap (entryNode kusts resourceFiles)

/-- A namespace of the directory is handed down to the file. -/
def HandsDown (kusts : Kustomizations) (resourceFiles : List Path) (dir file : Path) : Prop :=
  ReflTransGen (fun a b => b ∈ entryNodes kusts resourceFiles a) (.inl dir) (.inr file)

section Walk

variable {resourceFiles : List Path} {acc : List Path × List Path} {k : KustomizationDoc}

def marks (acc : List Path × List Path) : Set (Path ⊕ Path) := {x | x.elim (· ∈ acc.1) (· ∈ acc.2)}

abbrev walked (kusts : Kustomizations) : Set (Path ⊕ Path) := {x | x ∈ kusts.keys.map Sum.inl}

theorem walked_finite (kusts : Kustomizations) : (walked kusts).Finite := List.finite_toSet _

theorem assignWalk_skips (h : ∀ k, kusts.lookup dir = some k → k.unsupported = true) :
    assignWalk kusts resourceFiles depth dir acc = acc := by
  cases depth with
  | zero => rfl
  | succ depth =>
    unfold assignWalk
    cases hk : kusts.lookup dir with
    | none => rfl
    | some k => exact if_pos (.inl (h k hk))

theorem insert_marks : insert (.inl dir) (marks acc) = marks (dir :: acc.1, acc.2) := by
  ext (d | f) <;> simp [marks]

theorem room_visit (hk : kusts.lookup dir = some k) (hseen : dir ∉ acc.1)
    (hroom : Room (walked kusts) (marks acc) (depth + 1)) :
    Room (walked kusts) (marks (dir :: acc.1, acc.2)) depth := by
  rw [← insert_marks]
  exact hroom.mark (walked_finite kusts) (List.mem_map_of_mem (mem_keys_of_lookup hk)) hseen

theorem assignEntry_explores (ih : ∀ k, kusts.lookup target = some k → k.unsupported = false →
      Explores (fun a b => b ∈ entryNodes kusts resourceFiles a) (marks acc) {.inl target}
        (marks (assignWalk kusts resourceFiles depth target acc))) :
    Explores (fun a b => b ∈ entryNodes kusts resourceFiles a) (marks acc)
      {x | entryNode kusts resourceFiles target = some x}
      (marks (if target = [] then acc
        else if target ∈ resourceFiles then (acc.1, target :: acc.2)
        else assignWalk kusts resourceFiles depth target acc)) := by
  unfold entryNode
  split_ifs with hnil hfile
  · exact .of_subset (by simp)
  · have hinsert : marks (acc.1, target :: acc.2) = insert (.inr target) (marks acc) := by
      ext (d | f) <;> simp [marks]
    have hstart : {x | some (Sum.inr target) = some x} = ({.inr target} : Set (Path ⊕ Path)) := by
      ext x
      simp [eq_comm]
    rw [hinsert, hstart]
    exact .expand (.of_subset (by simp [entryNodes]))
  · cases hk : kusts.lookup target with
    | none =>
      rw [assignWalk_skips (by simp [hk])]
      exact .of_subset (by simp)
    | some k =>
      cases hsupported : k.unsupported with
      | true =>
        rw [assignWalk_skips (by simp [hk, hsupported])]
        exact .of_subset (by simp [hsupported])
      | false => simpa [hsupported, eq_comm] using ih k hk hsupported

theorem assignWalk_explores (hk : kusts.lookup dir = some k) (hsupported : k.unsupported = false)
    (acc : List Path × List Path) (hroom : Room (walked kusts) (marks acc) depth) :
    Explores (fun a b => b ∈ entryNodes kusts resourceFiles a) (marks acc) {.inl dir}
      (marks (assignWalk kusts resourceFiles depth dir acc)) := by
  induction depth generalizing dir acc k with
  | zero => exact absurd hroom (Nat.not_lt_zero _)
  | succ depth ih =>
    unfold assignWalk
    simp only [hk, hsupported, Bool.false_eq_true, false_or]
    split_ifs with hseen
    · exact .of_subset (by simpa [marks] using hseen)
    · have hfold := Explores.foldl marks (fun target => {x | entryNode kusts resourceFiles target = some x})
        (k.resources.map (cleanJoin dir)) (walked_finite kusts)
        (fun acc target _ hr => assignEntry_explores (fun k hk hsupported => ih hk hsupported acc hr))
        (dir :: acc.1, acc.2) (room_visit hk hseen hroom)
      have hout : ∀ x, x ∈ entryNodes kusts resourceFiles (.inl dir) ↔
          ∃ target ∈ k.resources.map (cleanJoin dir), entryNode kusts resourceFiles target = some x := by
        simp [entryNodes, hk, hsupported]
      refine .expand ?_
      simp only [hout, insert_marks]
      exact hfold

theorem mem_assignWalk : file ∈ (assignWalk kusts resourceFiles (kusts.keys.length + 1) dir ([], [])).2 ↔
    HandsDown kusts resourceFiles dir file := by
  by_cases hskip : ∀ k, kusts.lookup dir = some k → k.unsupported = true
  · rw [assignWalk_skips hskip]
    refine ⟨fun h => absurd h (by simp), fun h => ?_⟩
    have hnone : entryNodes kusts resourceFiles (.inl dir) = [] := by
      cases hk : kusts.lookup dir with
      | none => simp [entryNodes, hk]
      | some k => simp [entryNodes, hk, hskip k hk]
    rcases h.cases_head with heq | ⟨c, hc, -⟩
    · cases heq
    · simp [hnone] at hc
  · obtain ⟨k, hk, hsupported⟩ : ∃ k, kusts.lookup dir = some k ∧ k.unsupported = false := by
      simpa using hskip
    have hexplores : Explores (fun a b => b ∈ entryNodes kusts resourceFiles a) (marks ([], [])) {.inl dir}
        (marks (assignWalk kusts resourceFiles (kusts.keys.length + 1) dir ([], []))) :=
      assignWalk_explores hk hsupported ([], []) (room_of_list (by simp))
    have hempty : ∀ x, x ∉ marks ([], []) := by
      rintro (d | f) <;> simp [marks]
    have hmem := hexplores.mem_iff (x := .inr file) (fun x hx => absurd hx (hempty x))
    simpa [hempty, HandsDown, marks] using hmem

/-- The walk ends: from some depth on, it is the same for every depth. -/
theorem assignWalk_depth (acc : List Path × List Path) (hroom : Room (walked kusts) (marks acc) depth) :
    assignWalk kusts resourceFiles (depth + 1) dir acc = assignWalk kusts resourceFiles depth dir acc := by
  induction depth generalizing dir acc with
  | zero => exact absurd hroom (Nat.not_lt_zero _)
  | succ depth ih =>
    rw [assignWalk]
    conv_rhs => rw [assignWalk]
    cases hk : kusts.lookup dir with
    | none => rfl
    | some k =>
      dsimp only
      split_ifs with hskip
      · rfl
      · rw [not_or] at hskip
        refine Room.foldl_eq (walked_finite kusts) (fun acc target _ hr => ⟨?_, ?_⟩)
          (room_visit hk hskip.2 hroom)
        · rw [ih acc hr]
        · exact (assignEntry_explores (fun k hk hsupported => assignWalk_explores hk hsupported acc hr)).keeps

end Walk

/-! ## 5. The namespace of a document -/

namespace Context

variable (ctx : Context) (file : Path) (id : Identity)

/-- The type of the document is served, and has a namespace. -/
def TakesNamespace : Prop :=
  ctx.lookup.ready = true ∧ ∃ record, ctx.lookup.byGVK id.apiVersion id.kind = some record ∧
    record.followable = true ∧ record.namespaced = true

/-- A supported kustomization with this namespace reaches the file. -/
def Imposes (ns : Path) : Prop :=
  ∃ dir k, ctx.kusts.lookup dir = some k ∧ k.unsupported = false ∧ k.ns = ns ∧ ns ≠ [] ∧
    HandsDown ctx.kusts ctx.resourceFiles dir file

/-- There is one namespace to inherit. -/
def Inherits (ns : String) : Prop :=
  ctx.TakesNamespace id ∧ ∀ n, ctx.Imposes (filepathToSlash file) n ↔ n = ns.toList

end Context

theorem imposes_iff {ctx : Context} (horder : order.Perm ctx.kusts.keys)
    : ctx.Imposes file ns ↔ ns ∈ (ctx.assignmentsIn order file).map Prod.fst := by
  rw [mem_assignmentsIn]
  simp only [Context.Imposes, ← mem_assignWalk]
  constructor
  · rintro ⟨dir, k, hk, himp⟩
    exact ⟨dir, horder.mem_iff.mpr (mem_keys_of_lookup hk), k, hk, himp⟩
  · rintro ⟨dir, -, k, hk, himp⟩
    exact ⟨dir, k, hk, himp⟩

theorem assignmentsIn_singleton {ctx : Context} (horder : order.Perm ctx.kusts.keys) :
    (∃ source, ctx.assignmentsIn order file = [(ns, source)]) ↔ ∀ n, ctx.Imposes file n ↔ n = ns := by
  have hnodup : ((ctx.assignmentsIn order file).map Prod.fst).Nodup :=
    (foldl_keepFirst Prod.fst _ [] (by simp)).1
  simp only [imposes_iff horder]
  constructor
  · rintro ⟨source, hone⟩ n
    simp [hone]
  · intro hall
    have hperm : ((ctx.assignmentsIn order file).map Prod.fst).Perm [ns] :=
      (List.perm_ext_iff_of_nodup hnodup (List.nodup_singleton ns)).mpr (by simpa using hall)
    obtain ⟨a, hone, hns⟩ := List.map_eq_singleton_iff.mp (List.perm_singleton.mp hperm)
    exact ⟨a.2, by rw [hone, ← hns]⟩

/-- A document without a namespace inherits one exactly when all supported kustomizations that reach
    its file and have a namespace agree on it, in whatever order they are visited. The walk ends. -/
theorem inherited_namespace_exact (ctx : Context) (order : List Path)
    (horder : order.Perm ctx.kusts.keys) (file : Path) (id : Identity) (hid : id.ns = "") :
    (∀ dir depth, ctx.kusts.keys.length < depth →
      assignWalk ctx.kusts ctx.resourceFiles depth dir ([], []) =
        assignWalk ctx.kusts ctx.resourceFiles (ctx.kusts.keys.length + 1) dir ([], [])) ∧
    (∀ ns, ns ≠ "" → ((ctx.resolveNamespaceIn order file id).1 = { id with ns := ns } ↔
      ctx.Inherits file id ns)) ∧
    ((∀ ns, ¬ ctx.Inherits file id ns) → (ctx.resolveNamespaceIn order file id).1 = id) := by
  refine ⟨fun dir depth hdepth => ?_, ?_⟩
  · induction depth, hdepth using Nat.le_induction with
    | base => rfl
    | succ depth hle ih => rw [assignWalk_depth _ (room_of_list (by simpa using hle)), ih]
  by_cases htakes : ctx.TakesNamespace id
  · have hone : ∀ ns, ctx.Inherits file id ns ↔ ∃ source,
        ctx.assignmentsIn order (filepathToSlash file) = [(ns.toList, source)] := by
      intro ns
      rw [assignmentsIn_singleton horder, Context.Inherits, and_iff_right htakes]
    obtain ⟨hready, record, hrec, hfollow, hnamespace⟩ := htakes
    simp only [hone, Context.resolveNamespaceIn, hid, hready, hrec, hfollow, hnamespace, ne_eq, not_true,
      if_false, Bool.not_true, Bool.false_eq_true, Bool.or_self]
    split
    · rename_i n source hassign
      simp only [hassign, List.cons.injEq, Prod.mk.injEq, and_true, exists_eq_right']
      refine ⟨fun ns _ => ?_, fun h => absurd (String.toList_ofList.symm) (h (String.ofList n))⟩
      simp only [Identity.mk.injEq, true_and, and_true]
      constructor
      · rintro rfl
        exact String.toList_ofList.symm
      · rintro rfl
        exact String.ofList_toList
    · rename_i hmany
      refine ⟨fun ns hns => ⟨fun h => ?_, fun ⟨source, hassign⟩ => absurd hassign (hmany _ _)⟩, fun _ => rfl⟩
      exact absurd ((congrArg Identity.ns h).symm.trans hid) hns
  · have hres : (ctx.resolveNamespaceIn order file id).1 = id := by
      unfold Context.resolveNamespaceIn
      split_ifs with hns hready
      · rfl
      · rfl
      · split
        · rfl
        · rename_i record hrec
          split_ifs with hno
          · rfl
          · simp only [Bool.or_eq_true, Bool.not_eq_true', not_or, Bool.not_eq_false] at hno hready
            exact absurd ⟨hready, record, hrec, hno⟩ htakes
    rw [hres]
    refine ⟨fun ns hns => ⟨fun h => ?_, fun h => absurd h.1 htakes⟩, fun _ => rfl⟩
    exact absurd ((congrArg Identity.ns h).symm.trans hid) hns

def overlaid (ns : String) : List FileContent :=
  [kustomizationAt "overlay" "prod" ["../base"], kustomizationAt "base" ns ["cm.yaml"],
    ⟨"base/cm.yaml".toList, [.node { identity := ⟨"v1", "ConfigMap", "", "cm"⟩ }]⟩]

def overlaidContext (ns : String) : Context :=
  contextOf ⟨fun _ _ => .error "", fun _ _ => {}⟩
    ⟨true, fun _ kind => some ⟨⟨"", "v1", "things"⟩, kind = "ConfigMap", true⟩⟩ (overlaid ns)

theorem overlay_hands_down :
    ((overlaidContext "").resolveNamespaceIn ["base".toList, "overlay".toList] "base/cm.yaml".toList
      ⟨"v1", "ConfigMap", "", "cm"⟩).1 = ⟨"v1", "ConfigMap", "prod", "cm"⟩ ∧
    (overlaidContext "").Inherits "base/cm.yaml".toList ⟨"v1", "ConfigMap", "", "cm"⟩ "prod" := by
  have hres : ((overlaidContext "").resolveNamespaceIn ["base".toList, "overlay".toList]
      "base/cm.yaml".toList ⟨"v1", "ConfigMap", "", "cm"⟩).1 = ⟨"v1", "ConfigMap", "prod", "cm"⟩ := by
    decide +kernel
  exact ⟨hres, ((inherited_namespace_exact (overlaidContext "") _ (by decide +kernel) _ _ rfl).2.1
    "prod" (by decide)).mp hres⟩

/-- A base with a namespace of its own: the overlay, the one root, imposes `prod`, and the document
    is left without a namespace. So is one of a kind that has none. -/
theorem overlaid_namespace_ambiguous :
    renderRoots (overlaidContext "default").kusts = ["overlay".toList] ∧
    ((overlaidContext "default").kusts.lookup "overlay".toList).map (·.ns) = some "prod".toList ∧
    (overlaidContext "default").Imposes "base/cm.yaml".toList "prod".toList ∧
    (overlaidContext "default").resolveNamespace "base/cm.yaml".toList ⟨"v1", "ConfigMap", "", "cm"⟩ =
      (⟨"v1", "ConfigMap", "", "cm"⟩, .none) ∧
    (overlaidContext "").resolveNamespace "base/cm.yaml".toList ⟨"v1", "Namespace", "", "cm"⟩ =
      (⟨"v1", "Namespace", "", "cm"⟩, .explicit) := by
  rw [imposes_iff (List.Perm.refl _)]
  decide +kernel

end GitopsReverser.Manifest
