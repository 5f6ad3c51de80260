import Prerequisite.Error
import Prerequisite.Text.Blank

/-!
# Criteria as text

One criterion stands on each line, as the numerals of its stat, its operator and its value
with colons between them.  Blank lines are skipped, and so are lines whose first character is
a number sign.  Criteria are numbered from zero, lines from one.
-/

namespace Prerequisite.CriteriaText

/-- The text of some criteria. The identifiers are not written. -/
def write (criteria : List Criterion) : String :=
  String.join <| criteria.map fun c =>
    Decimal.numeral c.stat ++ ":" ++ Decimal.numeral c.operator ++ ":" ++
      Decimal.numeral c.value ++ "\n"

/-- The trimmed line holds a criterion. -/
def isEntry (line : List Char) : Bool := !line.isEmpty && line.head? ≠ some '#'

/-- The lines that hold criteria, trimmed and with their numbers. Lines end at the line feed; a
carriage return before it is blank and is trimmed away. -/
def entries (text : List Char) : List (List Char × Nat) :=
  (((text.splitOn '\n').map Text.trim).zipIdx 1).filter fun (line, _) => isEntry line

/-- The number in a field. -/
def readField (field : Field) (text : List Char) : Except LineFault Int64 :=
  (Decimal.read text).mapError (.badNumber field (String.ofList text))

/-- The criterion on a line. -/
def readLine (id : Nat) (line : List Char) : Except LineFault Criterion :=
  if id < UInt32.size then
    match (line.splitOn ':').map Text.trim with
    | [stat, operator, value] => do
      let stat ← readField .stat stat
      let operator ← readField .operator operator
      let value ← readField .value value
      return ⟨UInt32.ofNat id, stat, operator, value⟩
    | fields => throw (.fieldCount fields.length)
  else
    throw .noIdentifier

/-- The criteria that a text lists. The first line at fault is reported. -/
def read (text : List Char) : Except Error (List Criterion) :=
  (entries text).zipIdx.mapM fun ((line, number), id) =>
    (readLine id line).mapError (.invalidLine number)

end Prerequisite.CriteriaText
