import Prerequisite.Snapshot
import Prerequisite.Status

/-!
# Requirement trees

The leaves of a requirement tree are terms with their verdicts; the inner nodes are
negations, conjunctions, disjunctions and groups.  A group is a conjunction that is listed
rather than bracketed.  Each node carries its place in the drawing of the tree.  The tally
of a node is computed from the verdicts of its leaves.
-/

namespace Prerequisite

/-- How the parts of a node are joined. -/
inductive Junction where
  | all
  | any
  | group
  deriving DecidableEq, Repr

/-- The place of a node in the drawing of a tree: its distance from the root, and whether it
is the last of its siblings. -/
structure Place where
  level : Nat := 0
  isLast : Bool := false
  deriving DecidableEq, Repr

/-- A requirement tree. -/
inductive Tree where
  | requirement (place : Place) (verdict : Option Bool) (term : Term)
  | negation (place : Place) (operand : Tree)
  | junction (place : Place) (kind : Junction) (parts : List Tree)

namespace Tree

/-- What holds of a tree as soon as it holds of the operand or of the parts of the tree holds
of all trees. -/
@[elab_as_elim]
theorem induction {motive : Tree → Prop}
    (requirement : ∀ place verdict term, motive (.requirement place verdict term))
    (negation : ∀ place operand, motive operand → motive (.negation place operand))
    (junction : ∀ place kind parts, (∀ t ∈ parts, motive t) →
      motive (.junction place kind parts))
    (t : Tree) :
  motive t
  := by
  refine Tree.rec (motive_2 := fun parts => ∀ t ∈ parts, motive t) requirement negation
    junction ?_ ?_ t
  · simp
  · intro head tail hhead htail t ht
    rcases List.mem_cons.mp ht with rfl | ht
    · exact hhead
    · exact htail t ht

/-- The requirement that a term holds, as a snapshot decides it. -/
def ofTerm (stats : Option Snapshot) (term : Term) : Tree :=
  .requirement {} (term.verdict stats) term

/-- The negation of a tree. -/
protected def not (operand : Tree) : Tree := .negation {} operand

/-- The conjunction of some trees. -/
protected def all (parts : List Tree) : Tree := .junction {} .all parts

/-- The disjunction of some trees. -/
protected def any (parts : List Tree) : Tree := .junction {} .any parts

/-- The group of some trees. -/
def group (parts : List Tree) : Tree := .junction {} .group parts

/-- The place of the root. -/
def place : Tree → Place
  | .requirement place _ _ => place
  | .negation place _ => place
  | .junction place _ _ => place

/-- The trees right below the root. -/
def children : Tree → List Tree
  | .requirement _ _ _ => []
  | .negation _ operand => [operand]
  | .junction _ _ parts => parts

/-- The connective at the root. A requirement has none, and neither has a group. -/
def connective? : Tree → Option Connective
  | .negation _ _ => some .not
  | .junction _ .all _ => some .and
  | .junction _ .any _ => some .or
  | _ => none

/-- The term of a requirement. -/
def term? : Tree → Option Term
  | .requirement _ _ term => some term
  | _ => none

mutual

/-- The tally of a tree. -/
def tally : Tree → Tally
  | .requirement _ verdict _ => .ofStatus (.ofVerdict verdict)
  | .negation _ operand => operand.tally.not
  | .junction _ .any parts => .any (tallies parts)
  | .junction _ _ parts => .all (tallies parts)

/-- The tallies of some trees. -/
def tallies : List Tree → List Tally
  | [] => []
  | t :: rest => t.tally :: tallies rest

end

@[simp]
theorem tallies_eq_map (parts : List Tree) :
  tallies parts = parts.map tally
  := by
  induction parts with
  | nil => rfl
  | cons t rest ih => simp [tallies, ih]

/-- The status of a tree. -/
def status (t : Tree) : Status := t.tally.status

mutual

/-- The requirements of a tree from left to right, each with its verdict. -/
def leaves : Tree → List (Term × Option Bool)
  | .requirement _ verdict term => [(term, verdict)]
  | .negation _ operand => operand.leaves
  | .junction _ _ parts => leavesOf parts

/-- The requirements of some trees from left to right. -/
def leavesOf : List Tree → List (Term × Option Bool)
  | [] => []
  | t :: rest => t.leaves ++ leavesOf rest

end

@[simp]
theorem leavesOf_eq_flatMap (parts : List Tree) :
  leavesOf parts = parts.flatMap leaves
  := by
  induction parts with
  | nil => rfl
  | cons t rest ih => simp [leavesOf, ih]

/-- The number of requirements in a tree. -/
def leafCount (t : Tree) : Nat := t.leaves.length

end Tree

end Prerequisite
