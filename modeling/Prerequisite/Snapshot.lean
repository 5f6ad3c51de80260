import Std.Data.TreeMap
import Prerequisite.Criterion.Term

/-!
# Snapshots and verdicts

A snapshot gives amounts to stats.  It decides the terms that compare a stat with a bound
and no others.
-/

namespace Prerequisite

/-- The amounts of the stats of a character, ordered by the code of the stat. -/
abbrev Snapshot := Std.TreeMap Int64 Int64

/-- The amount of a stat, which is zero unless the snapshot says otherwise. -/
def Snapshot.reading (s : Snapshot) (stat : Int64) : Int64 := s.getD stat 0

/-- Whether a term holds: `none` if there is no snapshot, or if the term is not a comparison. -/
def Term.verdict (stats : Option Snapshot) (t : Term) : Option Bool := do
  let snapshot ← stats
  let comparison ← t.comparison?
  return comparison.holds (snapshot.reading t.criterion.stat) t.displayValue

/-- Whether a snapshot decides a term does not depend on the amounts. -/
theorem Term.verdict_eq_none_iff {t : Term} {s : Snapshot} :
  t.verdict (some s) = none ↔ t.comparison? = none
  := by
  cases h : t.comparison? <;> simp [verdict, h]

end Prerequisite
