import Prerequisite.Criterion.Term

/-!
# Postfix expressions

A list of terms is read as an expression in postfix order with a stack.  An operand is
pushed.  A negation takes one value from the stack, and the other connectives take two.  A
conjunction that finds fewer than two values is skipped, and any other connective that lacks
an operand makes the list unbalanced, as does a final stack that holds not exactly one value.
-/

namespace Prerequisite.Postfix

/-- The meaning of operands and connectives in a type of values. -/
structure Meaning (α : Type) where
  operand : Term → α
  not : α → α
  and : α → α → α
  or : α → α → α

/-- The effect of one term on the stack, whose top comes first. -/
def step {α : Type} (m : Meaning α) (stack : List α) (term : Term) : Option (List α) :=
  match term.connective? with
  | none => some (m.operand term :: stack)
  | some .not =>
    match stack with
    | value :: rest => some (m.not value :: rest)
    | [] => none
  | some .and =>
    match stack with
    | right :: left :: rest => some (m.and left right :: rest)
    | stack => some stack
  | some .or =>
    match stack with
    | right :: left :: rest => some (m.or left right :: rest)
    | _ => none

/-- The value of a balanced list of terms. -/
def value? {α : Type} (m : Meaning α) (terms : List Term) : Option α :=
  match terms.foldlM (step m) [] with
  | some [value] => some value
  | _ => none

end Prerequisite.Postfix
