import Prerequisite.Json.Document
import Prerequisite.Json.Text
import Prerequisite.Decimal
import Prerequisite.Snapshot

/-!
# Criteria and snapshots from JSON

A list of criteria is an array.  A criterion is an object, or an array of its four numbers.
A known field must not be repeated, and fields that are not known are ignored.  A snapshot is
an object whose keys spell the codes of stats.
-/

namespace Prerequisite

open Json

/-- The integer that a spelling denotes, if it fits. A negative zero denotes none. -/
def Json.spelledInteger? (spelling : List Char) : Option Int64 :=
  if spelling = ['-', '0'] then none else Decimal.read? spelling

namespace Json.Source

/-- The value is an integer. -/
def integer? : Source → Option Int64
  | .number spelling => spelledInteger? spelling
  | _ => none

/-- The value is an identifier, which has 32 bits and no sign. -/
def identifier? (v : Source) : Option UInt32 := do
  let n ← v.integer?
  if 0 ≤ n ∧ n < 4294967296 then some (UInt32.ofNat n.toInt.toNat) else none

end Json.Source

/-- The fields of a criterion that have been found. -/
structure CriterionDraft where
  id : Option UInt32 := none
  stat : Option Int64 := none
  operator : Option Int64 := none
  value : Option Int64 := none

namespace CriterionDraft

/-- The value for a field that has none yet. -/
def fresh {α : Type} (earlier : Option α) (value : Option α) : Option α :=
  if earlier.isSome then none else value

/-- The draft with one more field. -/
def add (draft : CriterionDraft) (field : List UInt8 × Source) : Option CriterionDraft := do
  let key ← Json.text? field.1
  if key = "id" then
    return { draft with id := ← fresh draft.id field.2.identifier? }
  else if key = "stat" then
    return { draft with stat := ← fresh draft.stat field.2.integer? }
  else if key = "op" ∨ key = "operator" then
    return { draft with operator := ← fresh draft.operator field.2.integer? }
  else if key = "value" then
    return { draft with value := ← fresh draft.value field.2.integer? }
  else
    return draft

/-- The criterion, once all its fields are there. The identifier is zero by default. -/
def finish (draft : CriterionDraft) : Option Criterion :=
  return ⟨draft.id.getD 0, ← draft.stat, ← draft.operator, ← draft.value⟩

end CriterionDraft

/-- The criterion that a value denotes. -/
def Criterion.ofSource? : Source → Option Criterion
  | .object fields => do (← fields.foldlM CriterionDraft.add {}).finish
  | .array [id, stat, operator, value] =>
    return ⟨← id.identifier?, ← stat.integer?, ← operator.integer?, ← value.integer?⟩
  | _ => none

/-- The criteria that a document denotes. -/
def Criterion.listOfJson? (bytes : List UInt8) : Option (List Criterion) := do
  match ← Source.ofBytes? bytes with
  | .array elements => elements.mapM Criterion.ofSource?
  | _ => none

namespace Snapshot

/-- The code that a key spells. -/
def code? (key : List UInt8) : Option Int64 :=
  let spelling := key.map fun b => Char.ofNat b.toNat
  if Token.isNumber spelling then spelledInteger? spelling else none

/-- The snapshot with one more amount, which replaces an earlier one for the same stat. -/
def add (s : Snapshot) (field : List UInt8 × Source) : Option Snapshot :=
  return s.insert (← code? field.1) (← field.2.integer?)

/-- The snapshot that a document denotes. -/
def ofJson? (bytes : List UInt8) : Option Snapshot := do
  match ← Source.ofBytes? bytes with
  | .object fields => fields.foldlM add (∅ : Snapshot)
  | _ => none

end Snapshot

end Prerequisite
