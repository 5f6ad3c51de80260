import Prerequisite.Decimal

/-!
# JSON values

The values that are written as JSON, and their written form.  Every element and every field
stands on a line of its own, two spaces to the right of what contains it.
-/

namespace Prerequisite

/-- A JSON value whose numbers are integers. The fields of an object have an order. -/
inductive Json where
  | null
  | bool (value : Bool)
  | integer (value : Int64)
  | natural (value : Nat)
  | text (value : String)
  | array (elements : List Json)
  | object (fields : List (String × Json))

namespace Json

/-- What holds of a value as soon as it holds of its elements or of the values of its fields holds
of all values. -/
@[elab_as_elim]
theorem induction {motive : Json → Prop}
    (null : motive .null)
    (bool : ∀ value, motive (.bool value))
    (integer : ∀ value, motive (.integer value))
    (natural : ∀ value, motive (.natural value))
    (text : ∀ value, motive (.text value))
    (array : ∀ elements, (∀ v ∈ elements, motive v) → motive (.array elements))
    (object : ∀ fields, (∀ field ∈ fields, motive field.2) → motive (.object fields))
    (v : Json) :
  motive v
  := by
  refine Json.rec (motive_2 := fun elements => ∀ v ∈ elements, motive v)
    (motive_3 := fun fields => ∀ field ∈ fields, motive field.2)
    (motive_4 := fun field => motive field.2) null bool integer natural text array object
    ?_ ?_ ?_ ?_ ?_ v
  · simp
  · intro head tail hhead htail
    rw [List.forall_mem_cons]
    exact ⟨hhead, htail⟩
  · simp
  · intro head tail hhead htail
    rw [List.forall_mem_cons]
    exact ⟨hhead, htail⟩
  · intro key v hv
    exact hv

/-- The digit with a given value below sixteen. -/
def hexDigit (n : Nat) : Char := Nat.digitChar n

/-- The written form of a character inside quotes. Only the quote, the backslash and the
control characters below the space are escaped. -/
def escaped (c : Char) : List Char :=
  if c = '"' then ['\\', '"']
  else if c = '\\' then ['\\', '\\']
  else if c = '\n' then ['\\', 'n']
  else if c = '\r' then ['\\', 'r']
  else if c = '\t' then ['\\', 't']
  else if c = Char.ofNat 0x08 then ['\\', 'b']
  else if c = Char.ofNat 0x0C then ['\\', 'f']
  else if c.toNat < 0x20 then
    ['\\', 'u', '0', '0', hexDigit (c.toNat / 16), hexDigit (c.toNat % 16)]
  else [c]

/-- The text between quotes. -/
def quoted (s : String) : String := String.ofList ('"' :: s.toList.flatMap escaped ++ ['"'])

/-- The beginning of a line with a given indentation. -/
def lineStart (indent : Nat) : String := String.ofList ('\n' :: List.replicate indent ' ')

/-- The items of an array or an object between a pair of brackets. -/
def enclosed (opening closing : String) (indent : Nat) (items : List String) : String :=
  if items.isEmpty then
    opening ++ closing
  else
    opening ++ lineStart (indent + 2) ++
      ("," ++ lineStart (indent + 2)).intercalate items ++ lineStart indent ++ closing

mutual

/-- The written form of a value inside a text with a given indentation. -/
def pretty (indent : Nat) : Json → String
  | .null => "null"
  | .bool true => "true"
  | .bool false => "false"
  | .integer n => Decimal.numeral n
  | .natural n => Decimal.natural n
  | .text s => quoted s
  | .array elements => enclosed "[" "]" indent (prettyElements (indent + 2) elements)
  | .object fields =>
    enclosed "\x7b" "\x7d" indent (prettyFields (indent + 2) fields)

/-- The written forms of some values. -/
def prettyElements (indent : Nat) : List Json → List String
  | [] => []
  | v :: rest => v.pretty indent :: prettyElements indent rest

/-- The written forms of some fields. -/
def prettyFields (indent : Nat) : List (String × Json) → List String
  | [] => []
  | (key, v) :: rest => (quoted key ++ ": " ++ v.pretty indent) :: prettyFields indent rest

end

@[simp]
theorem prettyElements_eq_map (indent : Nat) (elements : List Json) :
  prettyElements indent elements = elements.map (pretty indent)
  := by
  induction elements with
  | nil => rfl
  | cons v rest ih => simp [prettyElements, ih]

@[simp]
theorem prettyFields_eq_map (indent : Nat) (fields : List (String × Json)) :
  prettyFields indent fields =
    fields.map fun field => quoted field.1 ++ ": " ++ field.2.pretty indent
  := by
  induction fields with
  | nil => rfl
  | cons field rest ih => simp [prettyFields, ih]

/-- The written form of a value. -/
def render (v : Json) : String := v.pretty 0

/-- The value, or `null` if there is none. -/
def ofOption {α : Type} (encode : α → Json) : Option α → Json
  | some a => encode a
  | none => .null

end Json

end Prerequisite
