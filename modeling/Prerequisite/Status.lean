/-!
# Statuses and tallies

The status of a requirement, and the tally that counts how many parts of a requirement are
met.  Tallies combine under conjunction, disjunction and negation.
-/

namespace Prerequisite

/-- How far a requirement is met. -/
inductive Status where
  | met
  | unmet
  /-- Some parts are met, but not all, and one of the others is known to fail. -/
  | partly
  | unknown
  deriving DecidableEq, Ord, Repr

namespace Status

/-- The status of a requirement without parts. -/
def ofVerdict : Option Bool → Status
  | some true => met
  | some false => unmet
  | none => unknown

/-- The status of the negation. -/
def inverted : Status → Status
  | met => unmet
  | unmet => met
  | partly => unknown
  | unknown => unknown

/-- The status stands in the way of the action. -/
def isBlocking (s : Status) : Bool := s = unmet ∨ s = partly

/-- The name of the status. -/
def name : Status → String
  | met => "met"
  | unmet => "unmet"
  | partly => "partial"
  | unknown => "unknown"

end Status

/-- The number of parts that are met, the number of all parts, and the status of the whole. -/
structure Tally where
  met : Nat
  total : Nat
  status : Status
  deriving DecidableEq, Repr

namespace Tally

/-- The largest count. -/
def countLimit : Nat := 4294967295

/-- The sum of two counts, which never exceeds the largest count. -/
def add (m n : Nat) : Nat := min (m + n) countLimit

/-- The sum of some counts, which are added one after the other. -/
def sum (counts : List Nat) : Nat := counts.foldl add 0

/-- The tally of a requirement without parts. -/
def ofStatus (status : Status) : Tally where
  met := if status = .met then 1 else 0
  total := 1
  status := status

/-- The tally of a conjunction. The counts of the parts add up. It is met if all that counts
is met, and otherwise its status depends on whether a part is blocking. -/
def all (parts : List Tally) : Tally :=
  let met := sum (parts.map Tally.met)
  let total := sum (parts.map Tally.total)
  let status :=
    if 0 < total ∧ met = total then .met
    else if ¬ parts.any (·.status.isBlocking) then .unknown
    else if 0 < met then .partly
    else .unmet
  ⟨met, total, status⟩

/-- A part that makes a disjunction met: it is met itself, or it is met in part. -/
def satisfies (part : Tally) : Bool := part.status = .met ∨ part.status = .partly ∧ 0 < part.met

/-- The tally of a disjunction, which counts as a single choice. -/
def any (parts : List Tally) : Tally :=
  if parts.any satisfies then ⟨1, 1, .met⟩
  else if parts.any (·.status = .unknown) then ⟨0, 1, .unknown⟩
  else ⟨0, 1, .unmet⟩

/-- The tally of a negation. It counts as many parts as its operand, and either all of them
are met or none. -/
def not (operand : Tally) : Tally where
  met := if operand.status.inverted = .met then operand.total else 0
  total := operand.total
  status := operand.status.inverted

end Tally

end Prerequisite
