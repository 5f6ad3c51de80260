/-!
# JSON tokens

The bytes of a JSON document are cut into tokens in one pass.  Numbers and texts stay
unexamined: a number keeps its spelling, and a text keeps the bytes between its quotes, of
which only the escapes are known to be complete.
-/

namespace Prerequisite.Json

/-- A token of a JSON document. -/
inductive Token where
  | openArray
  | closeArray
  | openObject
  | closeObject
  | comma
  | colon
  | null
  | bool (value : Bool)
  /-- A number, as it is spelled. -/
  | number (spelling : List Char)
  /-- A text, as the bytes between its quotes. -/
  | text (content : List UInt8)
  deriving DecidableEq, Repr

namespace Token

/-- The digits that begin a spelling, and what follows them. -/
def spanDigits (spelling : List Char) : List Char × List Char :=
  spelling.span Char.isDigit

/-- The spelling is empty or a valid exponent. -/
def isExponent : List Char → Bool
  | [] => true
  | e :: rest =>
    let digits :=
      match rest with
      | '+' :: digits | '-' :: digits => digits
      | digits => digits
    (e = 'e' ∨ e = 'E') && !digits.isEmpty && digits.all Char.isDigit

/-- The spelling is empty, or it is a valid fraction or exponent or one after the other. -/
def isTail : List Char → Bool
  | '.' :: rest =>
    let (digits, rest) := spanDigits rest
    !digits.isEmpty && isExponent rest
  | rest => isExponent rest

/-- The spelling is that of a number: an integer without superfluous zeros, then perhaps a
fraction and an exponent. -/
def isNumber (spelling : List Char) : Bool :=
  let unsigned :=
    match spelling with
    | '-' :: rest => rest
    | rest => rest
  match spanDigits unsigned with
  | (['0'], rest) => isTail rest
  | (d :: _, rest) => d ≠ '0' && isTail rest
  | ([], _) => false

/-- The token that a word stands for. -/
def ofWord? (word : List Char) : Option Token :=
  if word = "null".toList then some null
  else if word = "true".toList then some (.bool true)
  else if word = "false".toList then some (.bool false)
  else none

/-- The token that a number stands for. -/
def ofNumber? (spelling : List Char) : Option Token :=
  if isNumber spelling then some (.number spelling) else none

/-- What the scanner is reading. What has been read is kept in reverse. -/
inductive Reading where
  | between
  | word (reversed : List Char)
  | number (reversed : List Char)
  | text (reversed : List UInt8)
  /-- A text after a backslash. -/
  | escape (reversed : List UInt8)
  /-- A text before some more hexadecimal digits. -/
  | hexadecimal (digits : Nat) (reversed : List UInt8)

/-- What the scanner is reading, and the tokens that it has found, in reverse. -/
structure Scan where
  reading : Reading := .between
  reversed : List Token := []

/-- The character may occur in a number. -/
def isNumberChar (c : Char) : Bool := c.isDigit || c ∈ ['+', '-', '.', 'e', 'E']

/-- The character is a hexadecimal digit. -/
def isHexDigit (c : Char) : Bool := c.isDigit || c ∈ "abcdefABCDEF".toList

/-- The scan after a character that begins a new token or stands between tokens. -/
def Scan.start (tokens : List Token) (c : Char) : Option Scan :=
  if c = ' ' ∨ c = '\n' ∨ c = '\t' ∨ c = '\r' then some ⟨.between, tokens⟩
  else if c = '[' then some ⟨.between, openArray :: tokens⟩
  else if c = ']' then some ⟨.between, closeArray :: tokens⟩
  else if c = Char.ofNat 0x7B then some ⟨.between, openObject :: tokens⟩
  else if c = Char.ofNat 0x7D then some ⟨.between, closeObject :: tokens⟩
  else if c = ',' then some ⟨.between, comma :: tokens⟩
  else if c = ':' then some ⟨.between, colon :: tokens⟩
  else if c = '"' then some ⟨.text [], tokens⟩
  else if c.isDigit ∨ c = '-' then some ⟨.number [c], tokens⟩
  else if c.isAlpha then some ⟨.word [c], tokens⟩
  else none

/-- The scan after one more byte. -/
def Scan.step (s : Scan) (b : UInt8) : Option Scan :=
  let c := Char.ofNat b.toNat
  match s.reading with
  | .between => start s.reversed c
  | .word word =>
    if c.isAlpha then some { s with reading := .word (c :: word) }
    else do
      let token ← ofWord? word.reverse
      start (token :: s.reversed) c
  | .number spelling =>
    if isNumberChar c then some { s with reading := .number (c :: spelling) }
    else do
      let token ← ofNumber? spelling.reverse
      start (token :: s.reversed) c
  | .text content =>
    if c = '"' then some ⟨.between, .text content.reverse :: s.reversed⟩
    else if c = '\\' then some { s with reading := .escape (b :: content) }
    else if b < 0x20 then none
    else some { s with reading := .text (b :: content) }
  | .escape content =>
    if c = 'u' then some { s with reading := .hexadecimal 4 (b :: content) }
    else if c ∈ ['"', '\\', '/', 'b', 'f', 'n', 'r', 't'] then
      some { s with reading := .text (b :: content) }
    else none
  | .hexadecimal digits content =>
    if isHexDigit c then
      if digits = 1 then some { s with reading := .text (b :: content) }
      else some { s with reading := .hexadecimal (digits - 1) (b :: content) }
    else none

/-- The tokens of a document, unless some bytes belong to no token. -/
def scan? (bytes : List UInt8) : Option (List Token) := do
  let s ← bytes.foldlM Scan.step {}
  match s.reading with
  | .between => return s.reversed.reverse
  | .word word => return ((← ofWord? word.reverse) :: s.reversed).reverse
  | .number spelling => return ((← ofNumber? spelling.reverse) :: s.reversed).reverse
  | _ => none

end Token

end Prerequisite.Json
