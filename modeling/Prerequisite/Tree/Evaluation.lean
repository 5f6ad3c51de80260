import Prerequisite.Tree.Layout

/-!
# Evaluation of a tree

A tree is evaluated by deciding its requirements anew.  The shape of the tree and its terms
stay what they are.
-/

namespace Prerequisite.Tree

mutual

/-- The tree with the verdicts that a snapshot gives, and without a layout. -/
def decided (stats : Option Snapshot) : Tree → Tree
  | .requirement _ _ term => ofTerm stats term
  | .negation _ operand => (operand.decided stats).not
  | .junction _ kind parts => .junction {} kind (eachDecided stats parts)

/-- Some trees with the verdicts that a snapshot gives. -/
def eachDecided (stats : Option Snapshot) : List Tree → List Tree
  | [] => []
  | t :: rest => t.decided stats :: eachDecided stats rest

end

@[simp]
theorem eachDecided_eq_map (stats : Option Snapshot) (parts : List Tree) :
  eachDecided stats parts = parts.map (decided stats)
  := by
  induction parts with
  | nil => rfl
  | cons t rest ih => simp [eachDecided, ih]

/-- The tree as a snapshot decides it, laid out from its root. -/
def evaluate (stats : Option Snapshot) (t : Tree) : Tree := (t.decided stats).finalize

/-- The terms at the leaves of the evaluated tree are those of the tree. -/
theorem leaves_decided (stats : Option Snapshot) (t : Tree) :
  (t.decided stats).leaves = t.leaves.map fun leaf => (leaf.1, leaf.1.verdict stats)
  := by
  induction t using Tree.induction with
  | requirement place verdict term => rfl
  | negation place operand ih => simpa [decided, Tree.not, leaves] using ih
  | junction place kind parts ih =>
    simp only [decided, leaves, eachDecided_eq_map, leavesOf_eq_flatMap, List.flatMap_map,
      List.map_flatMap]
    rw [List.flatMap_def, List.map_congr_left ih, ← List.flatMap_def]

end Prerequisite.Tree
