import Prerequisite.Criterion.Basic
import Prerequisite.Names.Basic

/-!
# Terms

A term is a criterion together with its class and with the text that displays it.  The
class, the displayed bound and the sign depend on the criterion alone; only the label of the
stat and the description consult a source of names.
-/

namespace Prerequisite

/-- The class of a criterion. -/
inductive Kind where
  | connective (connective : Connective)
  /-- A sentinel that stands for no connective. -/
  | unknownOperator
  | stateGate
  | probe (probe : Probe)
  /-- A condition on a stat, with the comparison if its operator is known. -/
  | stat (comparison : Option Comparison)
  deriving DecidableEq, Repr

/-- A criterion with its class and its display text. -/
structure Term where
  criterion : Criterion
  kind : Kind
  statName : String
  displayValue : Int64
  operatorName : String
  symbol : String
  description : String
  deriving DecidableEq, Repr

namespace Term

/-- The connective for which the term stands. -/
def connective? (t : Term) : Option Connective :=
  match t.kind with
  | .connective connective => some connective
  | _ => none

/-- The comparison for which the term asks. -/
def comparison? (t : Term) : Option Comparison :=
  match t.kind with
  | .stat comparison => comparison
  | _ => none

/-- The term is an operand of the expression. -/
def isOperand (t : Term) : Bool := t.connective?.isNone

/-- The term is a condition on a stat. -/
def isStatCondition (t : Term) : Bool :=
  match t.kind with
  | .stat _ => true
  | _ => false

/-- The term is a probe. -/
def isProbe (t : Term) : Bool :=
  match t.kind with
  | .probe _ => true
  | _ => false

end Term

namespace Criterion

/-- The class of the criterion. -/
def kind (c : Criterion) : Kind :=
  if c.isSentinel then
    match Connective.ofCode? c.operator with
    | some connective => .connective connective
    | none => .unknownOperator
  else if (stateGateText? c.operator).isSome then
    .stateGate
  else
    match Probe.ofCode? c.operator with
    | some probe => .probe probe
    | none => .stat (Comparison.ofCode? c.operator)

/-- The integer before a given one, or the least integer itself. -/
def before (n : Int64) : Int64 := if n = Int64.minValue then n else n - 1

/-- The integer after a given one, or the greatest integer itself. -/
def after (n : Int64) : Int64 := if n = Int64.maxValue then n else n + 1

/-- The bound with which the comparison is displayed and decided. A strict comparison becomes
an inclusive one with the neighbouring bound. -/
def displayValue (c : Criterion) : Int64 :=
  match c.kind with
  | .stat (some .atMost) => before c.value
  | .stat (some .atLeast) => after c.value
  | _ => c.value

/-- The generic label of the operator. -/
def operatorLabel (c : Criterion) : String := "Op" ++ Decimal.numeral c.operator

/-- The name of the operator. -/
def operatorName (c : Criterion) : String :=
  match c.kind with
  | .connective connective => connective.keyword
  | .unknownOperator | .stat none => c.operatorLabel
  | .stateGate => "State"
  | .probe probe => probe.name
  | .stat (some comparison) => comparison.name

/-- The sign of the operator. -/
def symbol (c : Criterion) : String :=
  match c.kind with
  | .connective connective => connective.keyword
  | .unknownOperator | .stat none => c.operatorLabel
  | .stateGate => ""
  | .probe probe => probe.symbol
  | .stat (some comparison) => comparison.symbol

/-- The label of the stat. A sentinel has none. -/
def statName (names : Names) (c : Criterion) : String :=
  if c.isSentinel then "" else names.stat c.stat

/-- The stat that holds the level. -/
def levelStat : Int64 := 54

/-- The wording for an equation between a stat and a value where there is one: the level, and
the members of a category that have a name. -/
def equationText? (names : Names) (stat value : Int64) : Option String :=
  if stat = levelStat then
    some ("Must be level " ++ Decimal.numeral value)
  else do
    let category ← Category.ofStat? stat
    let name ← names (.member category value)
    match category with
    | .profession => some ("Must be a " ++ name)
    | .breed => some ("Breed must be " ++ name)
    | .gender => some ("Gender must be " ++ name)

/-- The wording of a comparison of a stat with a bound. -/
def comparisonText (names : Names) (stat : Int64) (comparison : Comparison) (bound : Int64) :
    String :=
  let formula (right : String) := names.stat stat ++ " " ++ comparison.symbol ++ " " ++ right
  match comparison with
  | .has | .lacks => formula (names.flag stat bound)
  | .equal => (equationText? names stat bound).getD (formula (Decimal.numeral bound))
  | _ => formula (Decimal.numeral bound)

/-- The wording of a probe for the item or effect with a given number. -/
def probeText (probe : Probe) (reference : Int64) : String :=
  match probe with
  | .wornItem => "Must wear item " ++ Decimal.numeral reference
  | .runningEffect => "Effect " ++ Decimal.numeral reference ++ " must be running"
  | .noRunningEffect => "Effect " ++ Decimal.numeral reference ++ " must not be running"

/-- The wording of the criterion. -/
def description (names : Names) (c : Criterion) : String :=
  match c.kind with
  | .connective connective => connective.keyword
  | .unknownOperator => "Unknown operator " ++ c.operatorLabel
  | .stateGate => (stateGateText? c.operator).getD ""
  | .probe probe => probeText probe c.value
  | .stat (some comparison) => comparisonText names c.stat comparison c.displayValue
  | .stat none =>
    names.stat c.stat ++ " " ++ c.operatorLabel ++ " " ++ Decimal.numeral c.value

/-- The criterion with its class and its display text. -/
def term (names : Names) (c : Criterion) : Term where
  criterion := c
  kind := c.kind
  statName := c.statName names
  displayValue := c.displayValue
  operatorName := c.operatorName
  symbol := c.symbol
  description := c.description names

theorem connective?_term_eq_some_iff
    {names : Names} {c : Criterion} {connective : Connective} :
  (c.term names).connective? = some connective ↔ c.kind = .connective connective
  := by
  rw [Term.connective?, term]
  cases c.kind <;> simp

theorem isOperand_term_iff {names : Names} {c : Criterion} :
  (c.term names).isOperand ↔ ∀ connective, c.kind ≠ .connective connective
  := by
  rw [Term.isOperand, Option.isNone_iff_eq_none, Option.eq_none_iff_forall_ne_some]
  simp only [ne_eq, connective?_term_eq_some_iff]

end Criterion

end Prerequisite
