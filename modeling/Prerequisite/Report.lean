import Prerequisite.Check

/-!
# Reports

The listing of some terms and the report of an outcome, as lines of text.
-/

namespace Prerequisite

/-- The text with blanks before it, up to a width. -/
def alignedRight (width : Nat) (text : String) : String :=
  String.ofList (List.replicate (width - text.length) ' ') ++ text

/-- The text with blanks after it, up to a width. -/
def alignedLeft (width : Nat) (text : String) : String :=
  text ++ String.ofList (List.replicate (width - text.length) ' ')

/-- The word for a class in a listing. -/
def Kind.label : Kind → String
  | connective c => c.keyword
  | unknownOperator => "UNKNOWN"
  | stateGate => "state"
  | probe _ => "function"
  | stat _ => "stat"

/-- The line of a term in a listing: its identifier, its class and its wording. -/
def Term.line (t : Term) : String :=
  alignedRight 4 (Decimal.natural t.criterion.id.toNat) ++ "  " ++
    alignedLeft 8 t.kind.label ++ "  " ++ t.description

/-- The listing of some terms. -/
def listing (terms : List Term) : String := "\n".intercalate (terms.map Term.line)

/-- The line of a shortfall in a report. -/
def Shortfall.line (s : Shortfall) : String :=
  "  " ++ s.statName ++ ": need " ++ s.operator ++ " " ++ Decimal.numeral s.required ++
    ", have " ++ Decimal.numeral s.current

/-- The report of an outcome. -/
def Outcome.report (o : Outcome) : String :=
  if o.canPerform then
    "PASS"
  else
    "\n".intercalate <|
      ("BLOCKED (" ++ Decimal.natural o.unmet.length ++ " unmet)") ::
        o.unmet.map Shortfall.line

end Prerequisite
