import Prerequisite.Postfix
import Prerequisite.Tree.Consolidation
import Prerequisite.Tree.Formula
import Prerequisite.Tree.Layout

/-!
# Trees and formulas from criteria

The tree of a list of criteria is its value as a postfix expression, consolidated and laid
out.  A list that is unbalanced becomes the group of its operands, and so does a list that
plainly is a conjunction.  The formula of a list of terms is put together from texts, without
a tree: a stack holds the texts of the operands that no connective has taken yet.
-/

namespace Prerequisite

/-- The terms of some criteria. -/
def terms (names : Names) (criteria : List Criterion) : List Term :=
  criteria.map (·.term names)

/-- The list is plainly a conjunction: it contains no connective, or it contains conjunctions
alone and more than one condition on a stat or probe. -/
def isPlainConjunction (terms : List Term) : Bool :=
  let connectives := terms.filterMap Term.connective?
  connectives.isEmpty ||
    connectives.all (· = .and) && 1 < terms.countP fun t => t.isStatCondition || t.isProbe

namespace Tree

/-- The meaning of terms as trees. -/
def meaning (stats : Option Snapshot) : Postfix.Meaning Tree where
  operand := ofTerm stats
  not := Tree.not
  and left right := Tree.all [left, right]
  or left right := Tree.any [left, right]

/-- The group of the operands among some terms. -/
def groupOf (stats : Option Snapshot) (terms : List Term) : Tree :=
  group ((terms.filter Term.isOperand).map (ofTerm stats))

/-- The binary tree or the group that some terms denote. -/
def rough (stats : Option Snapshot) (terms : List Term) : Tree :=
  if isPlainConjunction terms then
    groupOf stats terms
  else
    (Postfix.value? (meaning stats) terms).getD (groupOf stats terms)

/-- The tree of some terms. There is none if there are no terms. -/
def ofTerms? (stats : Option Snapshot) (terms : List Term) : Option Tree :=
  if terms.isEmpty then none else some (rough stats terms).consolidate.finalize

/-- The tree of some criteria. There is none if there are no criteria. -/
def build? (names : Names) (stats : Option Snapshot) (criteria : List Criterion) :
    Option Tree :=
  ofTerms? stats (terms names criteria)

end Tree

namespace Formula

/-- The effect of one term on the stack of texts, whose top comes first. A negation brackets the
text on the top, and the other connectives bracket the two texts on the top with their keyword
between them. Only a conjunction is skipped if there are not two texts. -/
def step (stack : List String) (term : Term) : Option (List String) :=
  match term.connective? with
  | none => some (term.description :: stack)
  | some .not =>
    match stack with
    | operand :: rest => some (("NOT (" ++ operand ++ ")") :: rest)
    | [] => none
  | some connective =>
    match stack with
    | right :: left :: rest =>
      some (("(" ++ left ++ " " ++ connective.keyword ++ " " ++ right ++ ")") :: rest)
    | _ => if connective = .and then some stack else none

/-- The text of a balanced list of terms. -/
def value? (terms : List Term) : Option String :=
  match terms.foldlM step [] with
  | some [text] => some text
  | _ => none

/-- The formula of some terms. If they are unbalanced, it lists the operands. -/
def ofTerms (terms : List Term) : String :=
  (value? terms).getD
    (" AND ".intercalate ((terms.filter Term.isOperand).map Term.description))

end Formula

end Prerequisite
