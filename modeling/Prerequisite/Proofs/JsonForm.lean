import Prerequisite.CommandLine.Execution
import Prerequisite.Json.Decoding
import Prerequisite.Proofs.Json.Reading

/-!
# Trees read back from JSON

The JSON form of a tree determines the tree.  A reader takes the sort of each node, its place, its
term and the status of a requirement from the fields of these names, and the nodes below it from the
list of its children.
-/

namespace Prerequisite

open Json Json.Source

/-! ### Parts of a value -/

namespace Json.Source

/-- The value of the field of an object with a given key. -/
def field? (key : String) : Source → Option Source
  | .object fields => (fields.find? fun field => text? field.1 = some key).map Prod.snd
  | _ => none

/-- The value is a text. -/
def string? : Source → Option String
  | .text content => text? content
  | _ => none

/-- The value is a text, and it is a name of something. -/
def named? {α : Type} (ofName? : String → Option α) (v : Source) : Option α := do
  ofName? (← v.string?)

/-- The value is a number without a sign. -/
def natural? : Source → Option ℕ
  | .number spelling =>
    if spelling.all Char.isDigit then some (Nat.ofDigitChars 10 spelling 0) else none
  | _ => none

/-- The value is a truth value. -/
def bool? : Source → Option Bool
  | .bool b => some b
  | _ => none

/-- What a value denotes, or nothing for `null`. -/
def orNull? {α : Type} (read? : Source → Option α) : Source → Option (Option α)
  | .null => some none
  | v => (read? v).map some

end Json.Source

namespace Json

theorem source_object (fields : List (String × Json)) :
  (Json.object fields).source
    = .object (fields.map fun field => (content field.1, field.2.source))
  := by
  rw [source, sourceOfFields_eq_map]

/-- The fields of an object that is written are found by their keys. -/
theorem field?_source_object_cons (name key : String) (v : Json) (rest : List (String × Json)) :
  (Json.object ((name, v) :: rest)).source.field? key
    = if name = key then some v.source else (Json.object rest).source.field? key
  := by
  rw [source, sourceOfFields, Source.field?, List.find?_cons]
  by_cases h : name = key <;> simp [h, text?_content, source, Source.field?]

@[simp]
theorem string?_source_text (s : String) :
  (Json.text s).source.string? = some s
  := text?_content s

@[simp]
theorem named?_source_text {α : Type} (ofName? : String → Option α) (s : String) :
  (Json.text s).source.named? ofName? = ofName? s
  := by
  rw [Source.named?, string?_source_text]
  rfl

@[simp]
theorem natural?_source_natural (n : ℕ) :
  (Json.natural n).source.natural? = some n
  := by
  have hdigit : (Nat.toDigits 10 n).all Char.isDigit = true := by
    rw [List.all_eq_true]
    intro c hmem
    apply Decimal.isDigit_of_mem_toDigits hmem
  rw [source, Source.natural?, if_pos hdigit, Nat.ofDigitChars_ten_toDigits]

@[simp]
theorem bool?_source_bool (b : Bool) :
  (Json.bool b).source.bool? = some b
  := rfl

/-- The numeral of an integer is no negative zero. -/
theorem spelledInteger?_digits (n : Int64) :
  spelledInteger? (Decimal.digits n) = some n
  := by
  have hread := Decimal.read_digits n
  have hne : Decimal.digits n ≠ ['-', '0'] := by
    intro h
    rw [h] at hread
    obtain rfl : 0 = n := Except.ok.inj hread
    contradiction
  rw [spelledInteger?, if_neg hne, Decimal.read?, hread]
  rfl

@[simp]
theorem integer?_source_integer (n : Int64) :
  (Json.integer n).source.integer? = some n
  := spelledInteger?_digits n

@[simp]
theorem identifier?_source_natural (id : UInt32) :
  (Json.natural id.toNat).source.identifier? = some id
  := by
  have hlt := id.toNat_lt
  have hvalue : (Int64.ofNat id.toNat).toInt = id.toNat := by
    apply Int64.toInt_ofNat_of_lt
    omega
  have hnonneg : 0 ≤ Int64.ofNat id.toNat := by
    rw [Int64.le_iff_toInt_le, hvalue]
    simp
  have hbound : Int64.ofNat id.toNat < 4294967296 := by
    rw [Int64.lt_iff_toInt_lt, hvalue]
    simp
    omega
  have hdigits : Nat.toDigits 10 id.toNat = Decimal.digits (Int64.ofNat id.toNat) := by
    rw [Decimal.digits, if_neg (Int64.not_lt.mpr hnonneg), hvalue, Int.natAbs_natCast]
  rw [Source.identifier?, source, Source.integer?, hdigits, spelledInteger?_digits]
  simp only [Option.bind_eq_bind, Option.bind_some, hnonneg, hbound, and_self, if_true, hvalue,
    Int.toNat_natCast, UInt32.ofNat_toNat]

/-- An optional part is read back if it is read back where it is there, and `null` denotes no such
part. -/
theorem orNull?_source_ofOption {α : Type} (encode : α → Json) (read? : Source → Option α)
    (hnull : read? .null = none) (hread : ∀ a, read? (encode a).source = some a) (o : Option α) :
  (Json.ofOption encode o).source.orNull? read? = some o
  := by
  cases o with
  | none => rfl
  | some a =>
    have ha := hread a
    rw [ofOption, Source.orNull?, ha]
    · rfl
    · intro h
      rw [h, hnull] at ha
      contradiction

end Json

/-! ### Names read back -/

/-- The connective with a given name in the JSON form. -/
def Connective.ofJsonName? (name : String) : Option Connective :=
  [Connective.and, .or, .not].find? (·.jsonName = name)

/-- The comparison with a given name in the JSON form. -/
def Comparison.ofJsonName? (name : String) : Option Comparison :=
  [Comparison.equal, .atMost, .atLeast, .notEqual, .has, .lacks].find? (·.jsonName = name)

/-- The probe with a given name in the JSON form. -/
def Probe.ofJsonName? (name : String) : Option Probe :=
  [Probe.wornItem, .runningEffect, .noRunningEffect].find? (·.jsonName = name)

/-- The verdict that gives a requirement a status with a given name. -/
def Status.verdictOfName? (name : String) : Option (Option Bool) :=
  [some true, some false, none].find? (fun verdict => (Status.ofVerdict verdict).name = name)

@[simp]
theorem Connective.ofJsonName?_jsonName (c : Connective) :
  Connective.ofJsonName? c.jsonName = some c
  := by
  cases c <;> rfl

@[simp]
theorem Comparison.ofJsonName?_jsonName (c : Comparison) :
  Comparison.ofJsonName? c.jsonName = some c
  := by
  cases c <;> rfl

@[simp]
theorem Probe.ofJsonName?_jsonName (p : Probe) :
  Probe.ofJsonName? p.jsonName = some p
  := by
  cases p <;> rfl

@[simp]
theorem Status.verdictOfName?_name (verdict : Option Bool) :
  Status.verdictOfName? (Status.ofVerdict verdict).name = some verdict
  := by
  obtain _ | _ | _ := verdict <;> rfl

/-! ### Terms and trees read back -/

/-- The class that a value denotes. -/
def Kind.ofSource? (v : Source) : Option Kind := do
  let name ← (← v.field? "class").string?
  if name = "logical" then
    return .connective (← (← v.field? "detail").named? Connective.ofJsonName?)
  else if name = "unknown_operator" then
    return .unknownOperator
  else if name = "state_gate" then
    return .stateGate
  else if name = "function" then
    return .probe (← (← v.field? "detail").named? Probe.ofJsonName?)
  else if name = "stat" then
    return .stat (← (← v.field? "detail").orNull? (named? Comparison.ofJsonName?))
  else
    none

/-- The term that a value denotes. -/
def Term.ofSource? (v : Source) : Option Term :=
  return {
    criterion := ← Criterion.ofSource? v
    kind := ← Kind.ofSource? (← v.field? "kind")
    statName := ← (← v.field? "stat_name").string?
    displayValue := ← (← v.field? "display_value").integer?
    operatorName := ← (← v.field? "display_operator_name").string?
    symbol := ← (← v.field? "display_symbol").string?
    description := ← (← v.field? "description").string? }

namespace Tree

/-- The node that a value denotes, above given children. -/
def ofNode? (v : Source) (children : List Tree) : Option Tree := do
  let place : Place := ⟨← (← v.field? "level").natural?, ← (← v.field? "is_last").bool?⟩
  let type ← (← v.field? "type").string?
  if type = "requirement" then
    let verdict ← (← v.field? "status").named? Status.verdictOfName?
    return .requirement place verdict (← Term.ofSource? (← v.field? "criterion"))
  else if type = "group" then
    return .junction place .group children
  else
    match ← (← v.field? "operator").named? Connective.ofJsonName?, children with
    | .and, parts => return .junction place .all parts
    | .or, parts => return .junction place .any parts
    | .not, [operand] => return .negation place operand
    | .not, _ => none

mutual

/-- The tree that a value denotes. -/
def ofSource? : Source → Option Tree
  | .object fields => do ofNode? (.object fields) (← childrenOfFields? fields)
  | _ => none

/-- The trees that the children of an object with some fields denote. -/
def childrenOfFields? : List (List UInt8 × Source) → Option (List Tree)
  | [] => none
  | (key, v) :: rest =>
    if text? key = some "children" then ofArray? v else childrenOfFields? rest

/-- The trees that the elements of an array denote. -/
def ofArray? : Source → Option (List Tree)
  | .array elements => ofSourceEach? elements
  | _ => none

/-- The trees that some values denote. -/
def ofSourceEach? : List Source → Option (List Tree)
  | [] => some []
  | v :: rest => do return (← ofSource? v) :: (← ofSourceEach? rest)

end

end Tree

/-! ### What is written is read -/

@[simp]
theorem Kind.ofSource?_toJson (k : Kind) :
  Kind.ofSource? k.toJson.source = some k
  := by
  cases k with
  | connective c => simp [Kind.ofSource?, Kind.toJson, field?_source_object_cons]
  | unknownOperator => simp [Kind.ofSource?, Kind.toJson, field?_source_object_cons]
  | stateGate => simp [Kind.ofSource?, Kind.toJson, field?_source_object_cons]
  | probe p => simp [Kind.ofSource?, Kind.toJson, field?_source_object_cons]
  | stat comparison =>
    have hdetail := orNull?_source_ofOption (fun c : Comparison => .text c.jsonName)
      (named? Comparison.ofJsonName?) rfl (by simp) comparison
    simp [Kind.ofSource?, Kind.toJson, field?_source_object_cons, hdetail]

/-- A term is read as its criterion: its other fields are not those of a criterion. -/
theorem Criterion.ofSource?_toJson (t : Term) :
  Criterion.ofSource? t.toJson.source = some t.criterion
  := by
  simp [Term.toJson, source_object, Criterion.ofSource?, CriterionDraft.add, text?_content,
    CriterionDraft.fresh, CriterionDraft.finish]

@[simp]
theorem Term.ofSource?_toJson (t : Term) :
  Term.ofSource? t.toJson.source = some t
  := by
  rw [Term.ofSource?, Criterion.ofSource?_toJson, Term.toJson]
  simp [field?_source_object_cons]

namespace Tree

theorem ofSourceEach?_map {trees : List Tree}
    (h : ∀ t ∈ trees, ofSource? t.toJson.source = some t) :
  ofSourceEach? (trees.map fun t => t.toJson.source) = some trees
  := by
  induction trees with
  | nil => rfl
  | cons t rest ih =>
    obtain ⟨hhead, hrest⟩ := List.forall_mem_cons.mp h
    rw [List.map_cons, ofSourceEach?, hhead, ih hrest]
    rfl

/-- The trees below a node are read first. -/
theorem ofSource?_jsonNode (t : Tree) {children : List Tree}
    (h : ∀ c ∈ children, ofSource? c.toJson.source = some c) :
  ofSource? (t.jsonNode (children.map toJson)).source
    = ofNode? (t.jsonNode (children.map toJson)).source children
  := by
  have hchildren : ofArray? (Json.array (children.map toJson)).source = some children := by
    rw [source, sourceOfElements_eq_map, ofArray?, List.map_map]
    exact ofSourceEach?_map h
  rw [jsonNode, source_object, ofSource?]
  simp [childrenOfFields?, text?_content, hchildren]

/-- A tree is read back from its JSON form. -/
theorem ofSource?_toJson (t : Tree) :
  ofSource? t.toJson.source = some t
  := by
  induction t using Tree.induction with
  | requirement place verdict term =>
    have hnode := ofSource?_jsonNode (.requirement place verdict term) (List.forall_mem_nil _)
    rw [toJson_eq_jsonNode, children, hnode]
    simp [ofNode?, jsonNode, field?_source_object_cons, jsonType, term?, ofOption, tally,
      Tally.ofStatus, Tree.place]
  | negation place operand ih =>
    have hnode := ofSource?_jsonNode (.negation place operand) (List.forall_mem_singleton.mpr ih)
    rw [toJson_eq_jsonNode, children, hnode]
    simp [ofNode?, jsonNode, field?_source_object_cons, jsonType, connective?, ofOption, Tree.place]
  | junction place kind parts ih =>
    have hnode := ofSource?_jsonNode (.junction place kind parts) ih
    rw [toJson_eq_jsonNode, children, hnode]
    cases kind <;>
      simp [ofNode?, jsonNode, field?_source_object_cons, jsonType, connective?, ofOption,
        Tree.place]

/-- The tree that a document denotes, or none if the document is `null`. -/
def ofDocument? (text : String) : Option (Option Tree) := do
  (← ofBytes? text.toByteArray.data.toList).orNull? ofSource?

theorem ofDocument?_ofOption (tree? : Option Tree) :
  ofDocument? (Json.ofOption toJson tree?).render = some tree?
    ∧ ofDocument? ((Json.ofOption toJson tree?).render ++ "\n") = some tree?
  := by
  have hread := orNull?_source_ofOption toJson ofSource? rfl ofSource?_toJson tree?
  constructor
  · rw [ofDocument?, ← Utf8.encode_toList, ofBytes?_render]
    exact hread
  · rw [ofDocument?, ← Utf8.encode_toList, ofBytes?_render_newline]
    exact hread

/-- Trees with the same JSON form are the same tree.  A tree is read back from its JSON form as it
is written, and what the program writes of some criteria is read as their tree, if they have one. -/
theorem toJson_loses_nothing :
  (∀ t u : Tree, t.toJson = u.toJson → t = u)
    ∧ (∀ t : Tree, ofDocument? t.toJson.render = some (some t))
    ∧ ∀ (names : Names) (criteria : List Criterion) (stats : Option Snapshot),
      ofDocument? (CommandLine.treeText names true criteria stats ++ "\n")
        = some (build? names stats criteria)
  := by
  refine ⟨?injective, ?document, ?output⟩
  case injective =>
    intro t u h
    have ht := ofSource?_toJson t
    rw [h, ofSource?_toJson] at ht
    exact (Option.some.inj ht).symm
  case document =>
    intro t
    apply (ofDocument?_ofOption (some t)).1
  case output =>
    intro names criteria stats
    apply (ofDocument?_ofOption (build? names stats criteria)).2

end Tree

end Prerequisite
