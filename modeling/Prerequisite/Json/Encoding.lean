import Prerequisite.Check
import Prerequisite.Json.Value

/-!
# The JSON form of terms, trees and outcomes

What the program computes can be written as JSON.  Nothing is lost: each field of a term and
of a tree has a field in the JSON form.
-/

namespace Prerequisite

/-- The name of the connective in the JSON form. -/
def Connective.jsonName : Connective → String
  | and => "And"
  | or => "Or"
  | not => "Not"

/-- The name of the comparison in the JSON form. -/
def Comparison.jsonName : Comparison → String
  | equal => "Equal"
  | atMost => "AtMost"
  | atLeast => "AtLeast"
  | notEqual => "NotEqual"
  | has => "Has"
  | lacks => "Lacks"

/-- The name of the probe in the JSON form. -/
def Probe.jsonName : Probe → String
  | wornItem => "HasWornItem"
  | runningEffect => "HasRunningNano"
  | noRunningEffect => "HasNotRunningNano"

/-- The JSON form of a class: its name, and the details of those classes that have any. -/
def Kind.toJson : Kind → Json
  | connective c => .object [("class", .text "logical"), ("detail", .text c.jsonName)]
  | unknownOperator => .object [("class", .text "unknown_operator")]
  | stateGate => .object [("class", .text "state_gate")]
  | probe p => .object [("class", .text "function"), ("detail", .text p.jsonName)]
  | stat comparison =>
    .object
      [("class", .text "stat"),
        ("detail", .ofOption (fun c => .text c.jsonName) comparison)]

/-- The JSON form of a term. -/
def Term.toJson (t : Term) : Json :=
  .object
    [("id", .natural t.criterion.id.toNat),
      ("stat", .integer t.criterion.stat),
      ("operator", .integer t.criterion.operator),
      ("value", .integer t.criterion.value),
      ("kind", t.kind.toJson),
      ("stat_name", .text t.statName),
      ("display_value", .integer t.displayValue),
      ("display_operator_name", .text t.operatorName),
      ("display_symbol", .text t.symbol),
      ("description", .text t.description)]

namespace Tree

/-- The word for the sort of the root in the JSON form. -/
def jsonType : Tree → String
  | .requirement _ _ _ => "requirement"
  | .junction _ .group _ => "group"
  | _ => "operator"

/-- The fields of the JSON form of a tree whose children have a given JSON form. -/
def jsonNode (t : Tree) (children : List Json) : Json :=
  .object
    [("type", .text t.jsonType),
      ("operator", .ofOption (fun c => .text c.jsonName) t.connective?),
      ("criterion", .ofOption Term.toJson t.term?),
      ("children", .array children),
      ("met_count", .natural t.tally.met),
      ("total_count", .natural t.tally.total),
      ("status", .text t.tally.status.name),
      ("level", .natural t.place.level),
      ("is_last", .bool t.place.isLast)]

mutual

/-- The JSON form of a tree. -/
def toJson : Tree → Json
  | .requirement place verdict term => jsonNode (.requirement place verdict term) []
  | .negation place operand => jsonNode (.negation place operand) [operand.toJson]
  | .junction place kind parts => jsonNode (.junction place kind parts) (toJsonEach parts)

/-- The JSON forms of some trees. -/
def toJsonEach : List Tree → List Json
  | [] => []
  | t :: rest => t.toJson :: toJsonEach rest

end

@[simp]
theorem toJsonEach_eq_map (parts : List Tree) :
  toJsonEach parts = parts.map toJson
  := by
  induction parts with
  | nil => rfl
  | cons t rest ih => simp [toJsonEach, ih]

/-- The JSON form of a tree is that of its root around those of its children. -/
theorem toJson_eq_jsonNode (t : Tree) :
  t.toJson = t.jsonNode (t.children.map toJson)
  := by
  cases t <;> simp [toJson, children]

end Tree

/-- The JSON form of a shortfall. -/
def Shortfall.toJson (s : Shortfall) : Json :=
  .object
    [("stat", .integer s.stat),
      ("stat_name", .text s.statName),
      ("required", .integer s.required),
      ("current", .integer s.current),
      ("operator", .text s.operator)]

/-- The JSON form of an outcome. -/
def Outcome.toJson (o : Outcome) : Json :=
  .object
    [("can_perform", .bool o.canPerform),
      ("unmet", .array (o.unmet.map Shortfall.toJson))]

end Prerequisite
