import Prerequisite.Expression

/-!
# The check of an action

An action may be performed unless the status of its requirement tree is blocking.  The
blockers of a tree are the requirements that keep it from being met, and the supporters are
those that keep its negation from being met.  Both are listed from left to right.
-/

namespace Prerequisite

/-- A requirement that stands in the way: one that fails, or one that holds below a
negation. -/
structure Blocker where
  negated : Bool
  term : Term
  deriving DecidableEq, Repr

namespace Tree

mutual

/-- The requirements that keep a tree from being met. -/
def blockers : Tree → List Blocker
  | .requirement _ verdict term => if verdict = some false then [⟨false, term⟩] else []
  | .negation _ operand =>
    if operand.status.inverted = .unmet then operand.supporters else []
  | .junction _ .any parts =>
    if (Tally.any (tallies parts)).status = .unmet then blockersOf parts else []
  | .junction _ _ parts => blockersOfBlocking parts

/-- The requirements that keep the negation of a tree from being met. -/
def supporters : Tree → List Blocker
  | .requirement _ verdict term => if verdict = some true then [⟨true, term⟩] else []
  | .negation _ operand => operand.blockers
  | .junction _ _ parts => supportersOfCounted parts

/-- The blockers of some trees. -/
def blockersOf : List Tree → List Blocker
  | [] => []
  | t :: rest => t.blockers ++ blockersOf rest

/-- The blockers of those trees that are blocking. -/
def blockersOfBlocking : List Tree → List Blocker
  | [] => []
  | t :: rest => (if t.status.isBlocking then t.blockers else []) ++ blockersOfBlocking rest

/-- The supporters of those trees that are met in part at least. -/
def supportersOfCounted : List Tree → List Blocker
  | [] => []
  | t :: rest => (if 0 < t.tally.met then t.supporters else []) ++ supportersOfCounted rest

end

theorem blockersOf_eq_flatMap (parts : List Tree) :
  blockersOf parts = parts.flatMap blockers
  := by
  induction parts with
  | nil => rfl
  | cons t rest ih => simp [blockersOf, ih]

theorem blockersOfBlocking_eq_flatMap (parts : List Tree) :
  blockersOfBlocking parts = (parts.filter (·.status.isBlocking)).flatMap blockers
  := by
  induction parts with
  | nil => rfl
  | cons t rest ih => cases h : t.status.isBlocking <;> simp [blockersOfBlocking, h, ih]

theorem supportersOfCounted_eq_flatMap (parts : List Tree) :
  supportersOfCounted parts = (parts.filter (0 < ·.tally.met)).flatMap supporters
  := by
  induction parts with
  | nil => rfl
  | cons t rest ih => by_cases h : 0 < t.tally.met <;> simp [supportersOfCounted, h, ih]

end Tree

/-- What is missing: a stat, its required and its current amount, and the sign of the
comparison that fails. -/
structure Shortfall where
  stat : Int64
  statName : String
  required : Int64
  current : Int64
  operator : String
  deriving DecidableEq, Repr

/-- The blocker as it is reported, with the current amount of the stat. -/
def Blocker.shortfall (s : Snapshot) (b : Blocker) : Shortfall where
  stat := b.term.criterion.stat
  statName := b.term.statName
  required := b.term.displayValue
  current := s.reading b.term.criterion.stat
  operator :=
    if b.negated then Connective.not.keyword ++ " " ++ b.term.symbol else b.term.symbol

/-- What a tree misses, with the current amounts that a snapshot gives. -/
def Tree.shortfalls (s : Snapshot) (t : Tree) : List Shortfall :=
  t.blockers.map (·.shortfall s)

/-- The answer to the question whether an action may be performed. -/
structure Outcome where
  canPerform : Bool
  unmet : List Shortfall
  deriving DecidableEq, Repr

/-- The outcome for an action with a given requirement tree. -/
def Tree.outcome (s : Snapshot) (t : Tree) : Outcome where
  canPerform := !t.status.isBlocking
  unmet := t.shortfalls s

/-- The outcome for an action that some criteria guard. Without criteria the action may be
performed. -/
def check (names : Names) (criteria : List Criterion) (s : Snapshot) : Outcome :=
  match Tree.build? names (some s) criteria with
  | none => ⟨true, []⟩
  | some t => t.outcome s

end Prerequisite
