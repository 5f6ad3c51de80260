import Prerequisite.Decimal

/-!
# Display names

A source of names gives some of the codes a name for display.  What has no name is shown
by a generic label with its code.
-/

namespace Prerequisite

/-- A category of characters, whose members have names of their own. -/
inductive Category where
  | profession
  | breed
  | gender
  deriving DecidableEq, Hashable, Repr

/-- The stat that tells to which member of the category a character belongs. -/
def Category.stat : Category → Int64
  | profession => 60
  | breed => 4
  | gender => 59

/-- The category of which a given stat tells the member. -/
def Category.ofStat? (stat : Int64) : Option Category :=
  [profession, breed, gender].find? fun category => category.stat = stat

/-- What can have a name. -/
inductive Subject where
  | stat (code : Int64)
  | flag (stat bit : Int64)
  | member (category : Category) (code : Int64)
  deriving DecidableEq, Hashable, Repr

/-- A source of names. -/
abbrev Names := Subject → Option String

namespace Names

/-- The source that names nothing. -/
def none : Names := fun _ => Option.none

/-- The label of a stat. -/
def stat (names : Names) (code : Int64) : String :=
  (names (.stat code)).getD ("Stat " ++ Decimal.numeral code)

/-- The label of a flag of a stat. -/
def flag (names : Names) (stat bit : Int64) : String :=
  (names (.flag stat bit)).getD ("Flag " ++ Decimal.numeral bit)

end Names

end Prerequisite
