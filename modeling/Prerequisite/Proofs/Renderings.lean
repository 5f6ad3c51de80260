import Prerequisite.CommandLine.Execution
import Prerequisite.Proofs.Drawing
import Prerequisite.Proofs.PassOrder

/-!
# What the commands show

What a command shows is told by its result: some terms, a tree, an outcome or a formula.  As text,
terms are listed with their identifiers and classes in columns, a tree is outlined, and an outcome
is a verdict with a line for each requirement that is not met.  As JSON, an outcome and a formula
are objects.  The texts that the commands write are these.
-/

namespace Prerequisite

/-! ### Numerals -/

theorem Decimal.natural_eq_toString (n : ℕ) :
  Decimal.natural n = toString n
  := rfl

/-- The numeral of an integer is the usual one. -/
theorem Decimal.numeral_eq_toString (n : Int64) :
  Decimal.numeral n = toString n.toInt
  := by
  rw [Decimal.numeral, Decimal.digits]
  cases h : n.toInt with
  | ofNat m =>
    have hnonneg : ¬ n < 0 := by
      rw [Int64.lt_iff_toInt_lt, h]
      simp
    rw [if_neg hnonneg]
    rfl
  | negSucc m =>
    have hneg : n < 0 := by
      rw [Int64.lt_iff_toInt_lt, h]
      simp
    rw [if_pos hneg]
    change String.ofList ('-' :: Nat.toDigits 10 (m + 1))
      = "-" ++ String.ofList (Nat.toDigits 10 (m + 1))
    apply String.toList_injective
    simp

/-! ### What is shown -/

/-- The word for a class. -/
def Kind.word : Kind → String
  | connective .and => "AND"
  | connective .or => "OR"
  | connective .not => "NOT"
  | unknownOperator => "UNKNOWN"
  | stateGate => "state"
  | probe _ => "function"
  | stat _ => "stat"

/-- The columns of a term: its identifier at the right of four places, its class at the left of
eight, and its wording. -/
def Term.columns (t : Term) : String :=
  String.ofList (List.leftpad 4 ' ' (toString t.criterion.id.toNat).toList) ++ "  "
    ++ String.ofList (List.rightpad 8 ' ' t.kind.word.toList) ++ "  " ++ t.description

/-- The line for a requirement that is not met. -/
def Shortfall.sentence (s : Shortfall) : String :=
  "  " ++ s.statName ++ ": need " ++ s.operator ++ " " ++ toString s.required.toInt
    ++ ", have " ++ toString s.current.toInt

/-- The verdict, and the lines for what is not met if the action may not be performed. -/
def Outcome.lines (o : Outcome) : List String :=
  if o.canPerform then ["PASS"]
  else ("BLOCKED (" ++ toString o.unmet.length ++ " unmet)") :: o.unmet.map Shortfall.sentence

/-- The object for an outcome. -/
def Outcome.object (o : Outcome) : Json :=
  .object
    [("can_perform", .bool o.canPerform),
      ("unmet", .array <| o.unmet.map fun s => .object
        [("stat", .integer s.stat), ("stat_name", .text s.statName),
          ("required", .integer s.required), ("current", .integer s.current),
          ("operator", .text s.operator)])]

namespace CommandLine

/-- What is shown of some terms. -/
def shownTerms (jsonMode : Bool) (terms : List Term) : String :=
  if jsonMode then (Json.array (terms.map Term.toJson)).render
  else "\n".intercalate (terms.map Term.columns)

/-- What is shown of the tree of some criteria, if there is one. -/
def shownTree (jsonMode : Bool) : Option Tree → String
  | none => if jsonMode then "null" else "(no requirements)"
  | some t => if jsonMode then t.toJson.render else "\n".intercalate t.outline

/-- What is shown of an outcome. -/
def shownOutcome (jsonMode : Bool) (o : Outcome) : String :=
  if jsonMode then o.object.render else "\n".intercalate o.lines

/-- What is shown of a formula, which is read off a list of criteria or off their tree. -/
def shownFormula (jsonMode listOrder : Bool) (formula : String) : String :=
  if jsonMode then
    (Json.object [("expression", .text formula), ("postfix", .bool listOrder)]).render
  else formula

/-! ### What is written -/

variable (names : Names) (jsonMode : Bool) (criteria : List Criterion)

theorem line_eq_columns (t : Term) :
  t.line = t.columns
  := by
  have hword : t.kind.label = t.kind.word := by
    rcases t.kind with (_ | _ | _) | _ | _ | _ | _ <;> rfl
  rw [Term.line, hword, Decimal.natural_eq_toString]
  simp only [Term.columns, alignedRight, alignedLeft, List.leftpad, List.rightpad,
    String.ofList_append, String.ofList_toList, String.length_toList]

theorem describeText_eq_shownTerms :
  describeText names jsonMode criteria = shownTerms jsonMode (terms names criteria)
  := by
  simp only [describeText, shownTerms, listing, funext line_eq_columns]

theorem treeText_eq_shownTree (stats : Option Snapshot) :
  treeText names jsonMode criteria stats
    = shownTree jsonMode (Tree.build? names stats criteria)
  := by
  rw [treeText]
  cases htree : Tree.build? names stats criteria with
  | none => rfl
  | some t =>
    have hdraw : t.draw = "\n".intercalate t.outline := by
      obtain ⟨-, rfl⟩ := Tree.build?_eq_some_iff.mp htree
      rw [← Tree.finalize_finalize, Tree.draw, Tree.drawRows_finalize, Tree.finalize_finalize]
    cases jsonMode
    · apply hdraw
    · rfl

theorem report_eq_lines (o : Outcome) :
  o.report = "\n".intercalate o.lines
  := by
  have hline : Shortfall.line = Shortfall.sentence := by
    funext s
    simp only [Shortfall.line, Shortfall.sentence, Decimal.numeral_eq_toString]
  rw [Outcome.report, Outcome.lines, hline, Decimal.natural_eq_toString]
  split
  · rw [String.intercalate_singleton]
  · rfl

theorem checkText_eq_shownOutcome (s : Snapshot) :
  checkText names jsonMode criteria s = shownOutcome jsonMode (check names criteria s)
  := by
  cases jsonMode
  · apply report_eq_lines
  · rfl

theorem formatText_eq_shownFormula (listOrder : Bool) :
  formatText names jsonMode criteria listOrder
    = shownFormula jsonMode listOrder
      (if listOrder then Formula.ofTerms (terms names criteria)
        else (Tree.build? names none criteria).elim "" Tree.formula)
  := by
  have hformula : ((Tree.build? names none criteria).map Tree.formula).getD ""
      = (Tree.build? names none criteria).elim "" Tree.formula := by
    cases Tree.build? names none criteria <;> rfl
  rw [formatText, hformula]
  rfl

end CommandLine

end Prerequisite
