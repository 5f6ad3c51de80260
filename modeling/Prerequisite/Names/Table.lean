import Std.Data.HashMap
import Prerequisite.Names.Basic

/-!
# Name tables

A name table is a finite source of names.  A later entry for the same subject replaces an
earlier one.
-/

namespace Prerequisite

/-- A finite source of names. -/
structure NameTable where
  entries : Std.HashMap Subject String := ∅

namespace NameTable

/-- The table with one more entry, which replaces any entry for the same subject. -/
def insert (table : NameTable) (subject : Subject) (name : String) : NameTable :=
  ⟨table.entries.insert subject name⟩

/-- The source of the names that the table holds. -/
def names (table : NameTable) : Names := fun subject => table.entries[subject]?

/-- The number of subjects that have a name. -/
def size (table : NameTable) : Nat := table.entries.size

/-- The table holds no name. -/
def isEmpty (table : NameTable) : Bool := table.size = 0

@[simp]
theorem names_insert (table : NameTable) (subject : Subject) (name : String) (s : Subject) :
  (table.insert subject name).names s = if subject = s then some name else table.names s
  := by
  simp [names, insert, Std.HashMap.getElem?_insert]

end NameTable

end Prerequisite
