import Prerequisite.Criterion.Text
import Prerequisite.Decoders

/-!
# Inputs

Criteria, snapshots and names from the contents of files, by given decoders.
-/

namespace Prerequisite

/-- The format of a list of criteria. -/
inductive InputFormat where
  | json
  | text
  deriving DecidableEq, Repr

/-- The format with a given name. -/
def InputFormat.ofName? (name : String) : Option InputFormat :=
  if name = "json" then some json
  else if name = "text" then some text
  else none

/-- Some criteria, unless they are too many. -/
def accepted (criteria : List Criterion) : Except Error (List Criterion) :=
  if criteria.length ≤ criteriaLimit then .ok criteria
  else .error (.tooManyCriteria criteria.length)

variable [Decoders]

/-- The criteria that some bytes spell in a given format, however many. -/
def decodeCriteria (format : InputFormat) (bytes : List UInt8) :
    Except Error (List Criterion) :=
  match format with
  | .json => (Decoders.criteria bytes).mapError @Error.malformedCriteria
  | .text => do
    let text ← (Utf8.decode bytes).mapError .criteriaEncoding
    CriteriaText.read text

/-- The criteria that some bytes spell in a given format. -/
def readCriteria (format : InputFormat) (bytes : List UInt8) : Except Error (List Criterion) := do
  accepted (← decodeCriteria format bytes)

/-- The snapshot that some bytes spell. -/
def readSnapshot (bytes : List UInt8) : Except Error Snapshot :=
  (Decoders.snapshot bytes).mapError @Error.malformedStats

/-- The configuration of names that a text spells. -/
def readConfig (text : List Char) : Except Error NamesConfig :=
  (Decoders.config text).mapError @Error.malformedNames

/-- The table of the names that a text spells. -/
def readNames (text : List Char) : Except Error NameTable := do
  (← readConfig text).nameTable

end Prerequisite
