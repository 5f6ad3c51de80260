import Prerequisite.Tree.Basic

/-!
# Formulas

The formula of a tree is one line of text.  A negation is written before its bracketed
operand.  The parts of a conjunction or of a disjunction stand between brackets with the
keyword between them, and those of a group stand without brackets.
-/

namespace Prerequisite

/-- The text of a negation. -/
def negatedText (operand : String) : String :=
  Connective.not.keyword ++ " (" ++ operand ++ ")"

/-- Some texts with the keyword of a connective between them. -/
def joinedText (connective : Connective) (parts : List String) : String :=
  (" " ++ connective.keyword ++ " ").intercalate parts

/-- Some texts between brackets with the keyword of a connective between them. -/
def bracketedText (connective : Connective) (parts : List String) : String :=
  "(" ++ joinedText connective parts ++ ")"

namespace Tree

mutual

/-- The formula of a tree. -/
def formula : Tree → String
  | .requirement _ _ term => term.description
  | .negation _ operand => negatedText operand.formula
  | .junction _ .all parts => bracketedText .and (formulas parts)
  | .junction _ .any parts => bracketedText .or (formulas parts)
  | .junction _ .group parts => joinedText .and (formulas parts)

/-- The formulas of some trees. -/
def formulas : List Tree → List String
  | [] => []
  | t :: rest => t.formula :: formulas rest

end

@[simp]
theorem formulas_eq_map (parts : List Tree) :
  formulas parts = parts.map formula
  := by
  induction parts with
  | nil => rfl
  | cons t rest ih => simp [formulas, ih]

end Tree

end Prerequisite
