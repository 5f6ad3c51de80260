import Prerequisite.Json.Token

/-!
# JSON documents

The tokens of a JSON document are put together to one value.  The containers that are open
are kept in a list, so that nesting has no limit.
-/

namespace Prerequisite.Json

/-- A value as a document spells it: the numbers and the texts are those of its tokens. -/
inductive Source where
  | null
  | bool (value : Bool)
  | number (spelling : List Char)
  | text (content : List UInt8)
  | array (elements : List Source)
  | object (fields : List (List UInt8 × Source))

namespace Source

/-- A container that is open, with its contents so far in reverse. -/
inductive Container where
  | array (reversed : List Source)
  /-- An object whose next value belongs to the given key. -/
  | object (reversed : List (List UInt8 × Source)) (key : List UInt8)

/-- What has to come next. -/
inductive Expected where
  | value
  /-- The first element of the innermost array, or its end. -/
  | elementOrEnd
  /-- The first key of an object, or its end. -/
  | keyOrEnd
  /-- A key of an object with some fields. -/
  | key (reversed : List (List UInt8 × Source))
  /-- The colon after a key. -/
  | colon (reversed : List (List UInt8 × Source)) (key : List UInt8)
  /-- A comma or the end of the innermost container. -/
  | separator
  /-- Nothing, as the document is this value. -/
  | finished (value : Source)

/-- The open containers, the innermost first, and what has to come next. -/
structure Assembly where
  containers : List Container := []
  expected : Expected := .value

namespace Assembly

/-- The assembly after a value is complete. -/
def complete (containers : List Container) (value : Source) : Assembly :=
  match containers with
  | [] => ⟨[], .finished value⟩
  | .array elements :: rest => ⟨.array (value :: elements) :: rest, .separator⟩
  | .object fields key :: rest => ⟨.object ((key, value) :: fields) key :: rest, .separator⟩

/-- The assembly after a token with which a value begins. -/
def beginValue? (containers : List Container) : Token → Option Assembly
  | .null => some (complete containers .null)
  | .bool b => some (complete containers (.bool b))
  | .number spelling => some (complete containers (.number spelling))
  | .text content => some (complete containers (.text content))
  | .openArray => some ⟨.array [] :: containers, .elementOrEnd⟩
  | .openObject => some ⟨containers, .keyOrEnd⟩
  | _ => none

/-- The assembly after one more token. -/
def step (a : Assembly) (token : Token) : Option Assembly :=
  match a.expected, token with
  | .value, token => beginValue? a.containers token
  | .elementOrEnd, .closeArray =>
    match a.containers with
    | .array elements :: rest => some (complete rest (.array elements.reverse))
    | _ => none
  | .elementOrEnd, token => beginValue? a.containers token
  | .keyOrEnd, .closeObject => some (complete a.containers (.object []))
  | .keyOrEnd, .text key => some { a with expected := .colon [] key }
  | .key fields, .text key => some { a with expected := .colon fields key }
  | .colon fields key, .colon => some ⟨.object fields key :: a.containers, .value⟩
  | .separator, token =>
    match a.containers, token with
    | .array elements :: rest, .closeArray => some (complete rest (.array elements.reverse))
    | .array _ :: _, .comma => some { a with expected := .value }
    | .object fields _ :: rest, .closeObject => some (complete rest (.object fields.reverse))
    | .object fields _ :: rest, .comma => some ⟨rest, .key fields⟩
    | _, _ => none
  | _, _ => none

end Assembly

/-- The value of a document. -/
def ofBytes? (bytes : List UInt8) : Option Source := do
  let tokens ← Token.scan? bytes
  let a ← tokens.foldlM Assembly.step {}
  match a.expected with
  | .finished value => some value
  | _ => none

end Source

end Prerequisite.Json
