import Prerequisite.Tree.Basic

/-!
# Consolidation of a tree

A binary tree of conjunctions and of disjunctions becomes a tree of higher branching: a
conjunction right below a conjunction gives its parts to the one above, and so does a
disjunction right below a disjunction.  Groups stay as they are.
-/

namespace Prerequisite.Tree

/-- The trees that replace a part below a node of a given kind: the parts of the part, if
both are conjunctions or both are disjunctions, and otherwise the part itself. -/
def spliced (kind : Junction) : Tree → List Tree
  | .junction place k parts =>
    if k = kind ∧ kind ≠ .group then parts else [.junction place k parts]
  | t => [t]

mutual

/-- The consolidated tree, without a layout. -/
def consolidate : Tree → Tree
  | .requirement _ verdict term => .requirement {} verdict term
  | .negation _ operand => operand.consolidate.not
  | .junction _ kind parts => .junction {} kind (consolidateParts kind parts)

/-- The consolidated parts of a node of a given kind. -/
def consolidateParts (kind : Junction) : List Tree → List Tree
  | [] => []
  | t :: rest => t.consolidate.spliced kind ++ consolidateParts kind rest

end

@[simp]
theorem consolidateParts_eq_flatMap (kind : Junction) (parts : List Tree) :
  consolidateParts kind parts = parts.flatMap fun t => t.consolidate.spliced kind
  := by
  induction parts with
  | nil => rfl
  | cons t rest ih => simp [consolidateParts, ih]

end Prerequisite.Tree
