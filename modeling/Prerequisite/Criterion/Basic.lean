/-!
# Criteria

A criterion is one entry of the list that guards an action: the code of a stat, the code of
an operator, and a value.  The list is an expression in postfix order: a sentinel, whose
stat and value are both zero, stands for a connective that applies to what precedes it.
-/

namespace Prerequisite

/-- One entry of a list of criteria. -/
structure Criterion where
  id : UInt32 := 0
  stat : Int64
  operator : Int64
  value : Int64
  deriving DecidableEq, Repr

/-- A criterion that names no stat and no value. -/
def Criterion.isSentinel (c : Criterion) : Bool := c.stat = 0 ∧ c.value = 0

/-- The sentinel with a given operator. -/
def Criterion.sentinel (id : UInt32) (operator : Int64) : Criterion := ⟨id, 0, operator, 0⟩

theorem Criterion.isSentinel_sentinel (id : UInt32) (operator : Int64) :
  (sentinel id operator).isSentinel
  := by
  simp [sentinel, isSentinel]

/-- A connective of the expression that a list of criteria denotes. -/
inductive Connective where
  | and
  | or
  | not
  deriving DecidableEq, Repr

namespace Connective

/-- The operator code of the connective. -/
def code : Connective → Int64
  | and => 4
  | or => 3
  | not => 42

/-- The connective with a given operator code. -/
def ofCode? (operator : Int64) : Option Connective :=
  [and, or, not].find? fun connective => connective.code = operator

theorem ofCode?_code (connective : Connective) :
  ofCode? connective.code = some connective
  := by
  cases connective <;> rfl

/-- The word that stands for the connective in a formula. -/
def keyword : Connective → String
  | and => "AND"
  | or => "OR"
  | not => "NOT"

end Connective

/-- A comparison of a stat with a bound. -/
inductive Comparison where
  | equal
  | atMost
  | atLeast
  | notEqual
  | has
  | lacks
  deriving DecidableEq, Repr

namespace Comparison

/-- The operator code of the comparison. The codes 1 and 2 ask for a strict comparison, which
is an inclusive one with an adjusted bound. -/
def code : Comparison → Int64
  | equal => 0
  | atMost => 1
  | atLeast => 2
  | notEqual => 24
  | has => 22
  | lacks => 107

/-- The comparison with a given operator code. -/
def ofCode? (operator : Int64) : Option Comparison :=
  [equal, atMost, atLeast, notEqual, has, lacks].find? fun comparison =>
    comparison.code = operator

theorem ofCode?_code (comparison : Comparison) :
  ofCode? comparison.code = some comparison
  := by
  cases comparison <;> rfl

/-- The sign of the comparison in a formula. -/
def symbol : Comparison → String
  | equal => "="
  | atMost => "≤"
  | atLeast => "≥"
  | notEqual => "≠"
  | has => "has"
  | lacks => "lacks"

/-- The name of the comparison. -/
def name : Comparison → String
  | equal => "Equal"
  | atMost => "At most"
  | atLeast => "At least"
  | notEqual => "Not equal"
  | has => "Has flag"
  | lacks => "Lacks flag"

/-- The comparison of the current amount of a stat with the required one. The last two
comparisons take both amounts as sets of flags. -/
def holds (comparison : Comparison) (current required : Int64) : Bool :=
  match comparison with
  | equal => current = required
  | atMost => current ≤ required
  | atLeast => required ≤ current
  | notEqual => current ≠ required
  | has => current &&& required = required
  | lacks => current &&& required = 0

end Comparison

/-- A question about the equipment and the running effects of an actor, which stats do not
answer. -/
inductive Probe where
  | wornItem
  | runningEffect
  | noRunningEffect
  deriving DecidableEq, Repr

namespace Probe

/-- The operator code of the probe. -/
def code : Probe → Int64
  | wornItem => 45
  | runningEffect => 69
  | noRunningEffect => 70

/-- The probe with a given operator code. -/
def ofCode? (operator : Int64) : Option Probe :=
  [wornItem, runningEffect, noRunningEffect].find? fun probe => probe.code = operator

theorem ofCode?_code (probe : Probe) :
  ofCode? probe.code = some probe
  := by
  cases probe <;> rfl

/-- The sign of the probe in a formula. -/
def symbol : Probe → String
  | wornItem => "wears"
  | runningEffect => "running"
  | noRunningEffect => "not running"

/-- The name of the probe. -/
def name : Probe → String
  | wornItem => "Wears item"
  | runningEffect => "Running effect"
  | noRunningEffect => "Not running effect"

end Probe

/-- The text of the state gate with a given operator code. A gate is a condition on the
state of the actor or of the target, which stats do not answer. -/
def stateGateText? (operator : Int64) : Option String :=
  if operator = 26 then some "Target must be an NPC"
  else if operator = 88 then some "Must be flying"
  else if operator = 91 then some "Must not be in a vehicle"
  else if operator = 100 then some "Must not be in combat"
  else none

/-- The largest number of criteria that is accepted from outside. -/
def criteriaLimit : Nat := 512

end Prerequisite
