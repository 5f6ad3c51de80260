import Prerequisite.Proofs.Reevaluation

/-!
# Passes over a tree

A tree may be consolidated, laid out and evaluated any number of times.  None of these passes
drops a requirement, doubles one or moves one past another.  So the requirements of the tree of
some criteria are at any time the operands among the criteria, in their order, and their verdicts
are those of the snapshot with which the tree was evaluated last.
-/

namespace Prerequisite.Tree

/-- A pass over a tree. -/
inductive Pass where
  | consolidate
  | finalize
  | evaluate (stats : Option Snapshot)

/-- The tree after a pass. -/
def after (t : Tree) : Pass → Tree
  | .consolidate => t.consolidate
  | .finalize => t.finalize
  | .evaluate stats => t.evaluate stats

/-- The snapshot that decides a tree after a pass, when a given one decided it before. -/
def Pass.decidedBy (stats : Option Snapshot) : Pass → Option Snapshot
  | .consolidate => stats
  | .finalize => stats
  | .evaluate stats' => stats'

/-- The requirements of the tree are the terms, in their order, with the verdicts of the
snapshot. -/
def Requires (t : Tree) (stats : Option Snapshot) (terms : List Term) : Prop :=
  t.leaves = terms.map fun term => (term, term.verdict stats)

section Requires

variable {t : Tree} {stats : Option Snapshot} {terms : List Term}

theorem Requires.after (h : t.Requires stats terms) (pass : Pass) :
  (t.after pass).Requires (pass.decidedBy stats) terms
  := by
  cases pass with
  | consolidate =>
    rw [Requires, Tree.after, leaves_consolidate]
    exact h
  | finalize =>
    rw [Requires, Tree.after, finalize, leaves_placedAt]
    exact h
  | evaluate stats' =>
    rw [Requires, Tree.after, evaluate, finalize, leaves_placedAt, leaves_decided, h, List.map_map]
    rfl

theorem Requires.foldl_after (h : t.Requires stats terms) (passes : List Pass) :
  (passes.foldl Tree.after t).Requires (passes.foldl Pass.decidedBy stats) terms
  := by
  induction passes generalizing t stats with
  | nil => exact h
  | cons pass rest ih =>
    apply ih
    apply h.after pass

end Requires

/-- Criteria have a tree, whose requirements are the operands among the criteria, in their order,
each with its verdict. After any passes they still are, with the verdicts of the snapshot that was
used last. -/
theorem leaves_foldl_after_of_build?
    (names : Names) (stats : Option Snapshot) {criteria : List Criterion} (hne : criteria ≠ []) :
  ∃ t, build? names stats criteria = some t
    ∧ ∀ passes : List Pass,
      (passes.foldl after t).leaves
          = ((terms names criteria).filter Term.isOperand).map
            (fun term => (term, term.verdict (passes.foldl Pass.decidedBy stats)))
        ∧ (passes.foldl after t).leafCount
          = ((terms names criteria).filter Term.isOperand).length
  := by
  obtain ⟨t, hbuilt⟩ := exists_build? names stats hne
  use t, hbuilt
  intro passes
  have hrequires : t.Requires stats ((terms names criteria).filter Term.isOperand) :=
    leaves_of_build? hbuilt
  have hleaves := hrequires.foldl_after passes
  use hleaves
  rw [leafCount, hleaves, List.length_map]

/-- A disjunction that lacks an operand leaves a group, in which the requirements on both sides of
it stand, and the negation before it is gone. -/
theorem leaves_of_unbalanced_reevaluated :
  ∃ t, build? .none none [⟨0, 1, 0, 1⟩, .sentinel 1 42, .sentinel 2 3, ⟨3, 2, 0, 2⟩] = some t
    ∧ (t.evaluate (some ((∅ : Snapshot).insert 1 1))).consolidate.leaves
      = [(Criterion.term .none ⟨0, 1, 0, 1⟩, some true),
          (Criterion.term .none ⟨3, 2, 0, 2⟩, some false)]
  := by
  obtain ⟨t, hbuilt, hpasses⟩ := leaves_foldl_after_of_build? .none none
    (List.cons_ne_nil ⟨0, 1, 0, 1⟩ [.sentinel 1 42, .sentinel 2 3, ⟨3, 2, 0, 2⟩])
  use t, hbuilt
  have hleaves := (hpasses [.evaluate (some ((∅ : Snapshot).insert 1 1)), .consolidate]).1
  rw [List.foldl_cons, List.foldl_cons, List.foldl_nil] at hleaves
  exact hleaves.trans (by decide)

end Prerequisite.Tree
