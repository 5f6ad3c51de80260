import Prerequisite.Json.Text

/-!
# Quoted texts of TOML

The text between a pair of quotes is read character by character.  Between double quotes a
backslash begins an escape; between single quotes it stands for itself.  A text between
triple quotes may run over several lines: a line end right after the opening quotes is
dropped, and so are all blanks and line ends after a backslash at the end of a line.
-/

namespace Prerequisite.Toml

/-- The character may occur in a comment and in a quoted text. -/
def isPlain (c : Char) : Bool := c = '\t' || 0x20 ≤ c.toNat && c.toNat ≠ 0x7F

/-- The character that a letter after a backslash stands for. -/
def shortEscape? (c : Char) : Option Char :=
  if c = '"' ∨ c = '\\' then some c
  else if c = 'b' then some (Char.ofNat 0x08)
  else if c = 't' then some '\t'
  else if c = 'n' then some '\n'
  else if c = 'f' then some (Char.ofNat 0x0C)
  else if c = 'r' then some '\r'
  else if c = 'e' then some (Char.ofNat 0x1B)
  else none

/-- The number of hexadecimal digits that follow a letter after a backslash. -/
def escapeDigits? (c : Char) : Option Nat :=
  if c = 'x' then some 2
  else if c = 'u' then some 4
  else if c = 'U' then some 8
  else none

/-- The character with a given code point. -/
def scalar? (code : Nat) : Option Char :=
  if code.isValidChar then some (Char.ofNat code) else none

/-- What the last characters of a quoted text call for. -/
inductive Mode where
  | plain
  /-- After the opening triple quotes. -/
  | opened
  /-- After the opening triple quotes and a carriage return. -/
  | openedCarriage
  /-- After a carriage return, which has to begin a line end. -/
  | carriage
  /-- After a backslash. -/
  | escape
  /-- Before some more digits of a code point, the value of the others being known. -/
  | digits (left value : Nat)
  /-- After a backslash and some blanks, which have to end the line. -/
  | lineEnd
  /-- After a carriage return that has to complete an escaped line end. -/
  | lineEndCarriage
  /-- After an escaped line end. -/
  | trimming

/-- A quoted text that is being read. -/
structure Quotation where
  quote : Char
  multiline : Bool
  mode : Mode := .plain
  /-- The number of quotes that have just been read. -/
  run : Nat := 0
  reversed : List Char := []

namespace Quotation

/-- The quotation after a character that has no special place. -/
def plain (q : Quotation) (c : Char) : Option Quotation :=
  if c = '\\' ∧ q.quote = '"' then some { q with mode := .escape }
  else if c = '\n' ∧ q.multiline then
    some { q with mode := .plain, reversed := c :: q.reversed }
  else if c = '\r' ∧ q.multiline then some { q with mode := .carriage }
  else if isPlain c then some { q with mode := .plain, reversed := c :: q.reversed }
  else none

/-- The quotation after the first character behind a backslash. -/
def escape (q : Quotation) (c : Char) : Option Quotation :=
  if let some c := shortEscape? c then
    some { q with mode := .plain, reversed := c :: q.reversed }
  else if let some digits := escapeDigits? c then
    some { q with mode := .digits digits 0 }
  else if !q.multiline then none
  else if c = ' ' ∨ c = '\t' then some { q with mode := .lineEnd }
  else if c = '\n' then some { q with mode := .trimming }
  else if c = '\r' then some { q with mode := .lineEndCarriage }
  else none

/-- The quotation after one more character that does not belong to its closing quotes. -/
def push (q : Quotation) (c : Char) : Option Quotation :=
  match q.mode with
  | .plain => q.plain c
  | .opened =>
    if c = '\n' then some { q with mode := .plain }
    else if c = '\r' then some { q with mode := .openedCarriage }
    else q.plain c
  | .openedCarriage => if c = '\n' then some { q with mode := .plain } else none
  | .carriage =>
    if c = '\n' then some { q with mode := .plain, reversed := '\n' :: '\r' :: q.reversed }
    else none
  | .escape => q.escape c
  | .digits left value => do
    let value := value * 16 + (← Json.hexValue? c)
    if left = 1 then
      some { q with mode := .plain, reversed := (← scalar? value) :: q.reversed }
    else
      some { q with mode := .digits (left - 1) value }
  | .lineEnd =>
    if c = ' ' ∨ c = '\t' then some q
    else if c = '\n' then some { q with mode := .trimming }
    else if c = '\r' then some { q with mode := .lineEndCarriage }
    else none
  | .lineEndCarriage => if c = '\n' then some { q with mode := .trimming } else none
  | .trimming =>
    if c = ' ' ∨ c = '\t' ∨ c = '\n' then some q
    else if c = '\r' then some { q with mode := .lineEndCarriage }
    else q.plain c

/-- A quote at this point may close the quotation. -/
def mayClose (q : Quotation) : Bool :=
  match q.mode with
  | .plain | .opened | .trimming => true
  | _ => false

/-- The quotation in which some quotes that did not close it are part of the text. -/
def absorb (q : Quotation) (quotes : Nat) : Quotation :=
  { q with run := 0, mode := .plain, reversed := List.replicate quotes q.quote ++ q.reversed }

/-- The text that has been read. -/
def text (q : Quotation) : String := String.ofList q.reversed.reverse

end Quotation

end Prerequisite.Toml
