import Prerequisite.Tree.Basic

/-!
# The layout of a tree

A layout gives each node its level and tells whether it is the last of its siblings.  The
rows of a tree are its nodes in the order in which they are drawn, a node before the nodes
below it.
-/

namespace Prerequisite

namespace Tree

mutual

/-- The tree with a given place at its root, and with the nodes below placed accordingly. -/
def placedAt (place : Place) : Tree → Tree
  | .requirement _ verdict term => .requirement place verdict term
  | .negation _ operand => .negation place (operand.placedAt ⟨place.level + 1, true⟩)
  | .junction _ kind parts => .junction place kind (siblingsAt (place.level + 1) parts)

/-- The trees placed as siblings at a given level. -/
def siblingsAt (level : Nat) : List Tree → List Tree
  | [] => []
  | t :: rest => t.placedAt ⟨level, rest.isEmpty⟩ :: siblingsAt level rest

end

/-- The tree laid out from its root. -/
def finalize (t : Tree) : Tree := t.placedAt ⟨0, true⟩

/-- The text that stands for the root of a tree: the wording of a requirement, or a word for
the way in which the nodes below are joined. -/
def label : Tree → String
  | .requirement _ _ term => term.description
  | .negation _ _ => Connective.not.keyword
  | .junction _ .all _ => Connective.and.keyword
  | .junction _ .any _ => Connective.or.keyword
  | .junction _ .group _ => "ALL OF"

end Tree

/-- One line of the drawing of a tree. -/
structure Row where
  place : Place
  label : String
  tally : Tally
  deriving DecidableEq, Repr

namespace Tree

/-- The row of the root. -/
def row (t : Tree) : Row := ⟨t.place, t.label, t.tally⟩

mutual

/-- The rows of a tree, each node before those below it. -/
def rows : Tree → List Row
  | .requirement place verdict term => [(Tree.requirement place verdict term).row]
  | .negation place operand => (Tree.negation place operand).row :: operand.rows
  | .junction place kind parts => (Tree.junction place kind parts).row :: rowsOf parts

/-- The rows of some trees, one tree after the other. -/
def rowsOf : List Tree → List Row
  | [] => []
  | t :: rest => t.rows ++ rowsOf rest

end

@[simp]
theorem rowsOf_eq_flatMap (parts : List Tree) :
  rowsOf parts = parts.flatMap rows
  := by
  induction parts with
  | nil => rfl
  | cons t rest ih => simp [rowsOf, ih]

/-- The rows of a tree are the row of its root and the rows of its children. -/
theorem rows_eq_cons (t : Tree) :
  t.rows = t.row :: t.children.flatMap rows
  := by
  cases t <;> simp [rows, children]

mutual

theorem tally_placedAt (place : Place) (t : Tree) :
  (t.placedAt place).tally = t.tally
  := by
  cases t with
  | requirement => rfl
  | negation _ operand => simp [placedAt, tally, tally_placedAt _ operand]
  | junction _ kind parts => cases kind <;> simp only [placedAt, tally, tallies_siblingsAt]

theorem tallies_siblingsAt (level : Nat) (parts : List Tree) :
  tallies (siblingsAt level parts) = tallies parts
  := by
  match parts with
  | [] => rfl
  | t :: rest => simp only [siblingsAt, tallies, tally_placedAt, tallies_siblingsAt level rest]

end

@[simp]
theorem tally_finalize (t : Tree) :
  t.finalize.tally = t.tally
  := tally_placedAt _ t

end Tree

end Prerequisite
