import Mathlib

/-!
# History — commit graphs and the refs that point into them

A store of immutable commits, the ancestry order on (possibly missing) commits, and what it
means for a set of refs to move forward. `freeStore` is the free instance: a commit is the list
of what was committed, so ancestry in it can be computed.
-/

namespace GitopsReverser.Reasoning

/-- A content-addressed store: `H` are commit ids, `T` trees. `commit` is what committing a tree
    on a base yields; the stamp stands for author, date and message. -/
structure ObjectStore (H T : Type) where
  parents : H → List H
  tree : H → T
  commit : Option H → T → Nat → H
  parents_commit : ∀ base t stamp, parents (commit base t stamp) = base.toList
  tree_commit : ∀ base t stamp, tree (commit base t stamp) = t

namespace ObjectStore

variable {H T B : Type} (S : ObjectStore H T)

def Ancestor (a b : H) : Prop := Relation.ReflTransGen (fun x y => x ∈ S.parents y) a b

/-- Ancestor-or-equal on optional commits; the missing commit (an unborn branch, the zero hash)
    is below every other. -/
def Below : Option H → Option H → Prop
  | none, _ => True
  | some _, none => False
  | some a, some b => S.Ancestor a b

@[simp] theorem below_none (b : Option H) : S.Below none b := by
  cases b <;> trivial

@[simp] theorem below_some_some (a b : H) : S.Below (some a) (some b) ↔ S.Ancestor a b := Iff.rfl

@[simp] theorem not_some_below_none (a : H) : ¬ S.Below (some a) none := id

theorem below_refl (a : Option H) : S.Below a a := by
  cases a with
  | none => trivial
  | some a => exact Relation.ReflTransGen.refl

theorem below_trans {a b c : Option H} (hab : S.Below a b) (hbc : S.Below b c) : S.Below a c := by
  cases a with
  | none => exact S.below_none c
  | some a =>
    cases b with
    | none => exact absurd hab id
    | some b =>
      cases c with
      | none => exact absurd hbc id
      | some c => exact Relation.ReflTransGen.trans hab hbc

theorem below_commit (base : Option H) (t : T) (stamp : Nat) :
    S.Below base (some (S.commit base t stamp)) := by
  cases base with
  | none => trivial
  | some b =>
    apply Relation.ReflTransGen.single
    simp [S.parents_commit]

/-- The only way into a fresh commit is the commit itself or through its base. -/
theorem ancestor_commit_iff (a : H) (base : Option H) (t : T) (stamp : Nat) :
    S.Ancestor a (S.commit base t stamp) ↔ a = S.commit base t stamp ∨ S.Below (some a) base := by
  unfold Ancestor
  rw [Relation.ReflTransGen.cases_tail_iff]
  constructor
  · rintro (h | ⟨b, hab, hb⟩)
    · exact Or.inl h.symm
    · right
      rw [S.parents_commit, Option.mem_toList] at hb
      rw [hb]
      exact hab
  · rintro (h | h)
    · exact Or.inl h.symm
    · right
      cases base with
      | none => exact absurd h id
      | some b => exact ⟨b, h, by simp [S.parents_commit]⟩

/-! ## Refs that only move forward -/

/-- Every ref that exists is kept, at the same commit or a descendant; new refs may appear. -/
def Advances (refs refs' : B → Option H) : Prop := ∀ b, S.Below (refs b) (refs' b)

theorem advances_refl (refs : B → Option H) : S.Advances refs refs := fun _ => S.below_refl _

theorem advances_trans {r₁ r₂ r₃ : B → Option H} (h₁ : S.Advances r₁ r₂)
    (h₂ : S.Advances r₂ r₃) : S.Advances r₁ r₃ := fun b => S.below_trans (h₁ b) (h₂ b)

end ObjectStore

/-! ## The free store -/

/-- A commit spelled out: the trees and stamps from the root of its history. -/
inductive Chain (T : Type) where
  | root (tree : T) (stamp : Nat)
  | child (parent : Chain T) (tree : T) (stamp : Nat)
  deriving DecidableEq

namespace Chain

variable {T : Type}

def parent : Chain T → Option (Chain T)
  | root _ _ => none
  | child p _ _ => some p

def tree : Chain T → T
  | root t _ => t
  | child _ t _ => t

def history : Chain T → List (Chain T)
  | root t s => [root t s]
  | child p t s => child p t s :: p.history

end Chain

def freeStore (T : Type) : ObjectStore (Chain T) T where
  parents c := c.parent.toList
  tree := Chain.tree
  commit base t stamp := match base with
    | none => .root t stamp
    | some p => .child p t stamp
  parents_commit base t stamp := by cases base <;> rfl
  tree_commit base t stamp := by cases base <;> rfl

theorem freeStore_ancestor_iff {T : Type} (a b : Chain T) :
    (freeStore T).Ancestor a b ↔ a ∈ b.history := by
  induction b with
  | root t s =>
    have h := (freeStore T).ancestor_commit_iff a none t s
    simpa [freeStore, Chain.history] using h
  | child p t s ih =>
    have h := (freeStore T).ancestor_commit_iff a (some p) t s
    rw [ObjectStore.below_some_some, ih] at h
    simpa [freeStore, Chain.history] using h

instance {T : Type} [DecidableEq T] (a b : Option (Chain T)) :
    Decidable ((freeStore T).Below a b) :=
  match a, b with
  | none, _ => .isTrue ((freeStore T).below_none _)
  | some _, none => .isFalse id
  | some a, some b => decidable_of_iff (a ∈ b.history) (freeStore_ancestor_iff a b).symm

end GitopsReverser.Reasoning
