import Std.Data.TreeMap
import Prerequisite.Error
import Prerequisite.Names.Table
import Prerequisite.Text.Blank

/-!
# Configured names

A configuration gives names in five tables: for stats, for the flags of each stat, and for
the members of the three categories.  The keys are texts, ordered by their characters.  They
become codes when the table of names is made, and the first key that is no numeral is
reported.
-/

namespace Prerequisite

/-- Names by the spelling of a code. -/
abbrev NamesByKey := Std.TreeMap String String

/-- The names that a configuration gives. -/
structure NamesConfig where
  stats : NamesByKey := ∅
  flags : Std.TreeMap String NamesByKey := ∅
  professions : NamesByKey := ∅
  breeds : NamesByKey := ∅
  genders : NamesByKey := ∅

namespace NamesConfig

/-- The code that a key spells, with blanks around it. -/
def code (table key : String) : Except Error Int64 :=
  match Decimal.read? (Text.trim key.toList) with
  | some code => .ok code
  | none => .error (.badCode table key)

/-- A table of names with the names from one table of a configuration. -/
def addAll (table : String) (subject : Int64 → Subject) (names : NamesByKey)
    (t : NameTable) : Except Error NameTable :=
  names.toList.foldlM
    (fun t (key, name) => (code table key).map fun code => t.insert (subject code) name) t

/-- A table of names with the names of flags. The code of a stat is read before those of its
flags. -/
def addFlags (flags : Std.TreeMap String NamesByKey) (t : NameTable) : Except Error NameTable :=
  flags.toList.foldlM
    (fun t (key, names) => do
      let stat ← code "flags" key
      addAll ("flags." ++ key) (.flag stat) names t)
    t

/-- The table of the names that a configuration gives. Of several keys that spell the same code,
the last one counts. -/
def nameTable (c : NamesConfig) : Except Error NameTable := do
  let t ← addAll "stats" .stat c.stats {}
  let t ← addFlags c.flags t
  let t ← addAll "professions" (.member .profession) c.professions t
  let t ← addAll "breeds" (.member .breed) c.breeds t
  addAll "genders" (.member .gender) c.genders t

end NamesConfig

end Prerequisite
