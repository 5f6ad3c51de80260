import Prerequisite.Toml.DateTime
import Prerequisite.Toml.Text

/-!
# TOML tokens

The characters of a TOML document are cut into tokens in one pass.  The only values that have
tokens are quoted texts, dates and times, and inline tables; a document with any other value
has characters that belong to no token, or tokens that are out of place.
-/

namespace Prerequisite.Toml

/-- A token of a TOML document. -/
inductive Token where
  | newline
  | dot
  | equals
  | comma
  | openHeader
  | closeHeader
  | openTable
  | closeTable
  /-- A key without quotes. -/
  | bare (name : String)
  /-- A quoted text on one line, which is a key or a value. -/
  | quoted (text : String)
  /-- A text between triple quotes, which is a value. -/
  | multiline (text : String)
  /-- A date, a time or both, which are a value. -/
  | dateTime (text : String)
  deriving DecidableEq, Repr

namespace Token

/-- What the scanner is reading. What has been read is kept in reverse. -/
inductive Reading where
  | between
  | bare (reversed : List Char)
  /-- A date, a time or both, with all blanks that follow. -/
  | dateTime (reversed : List Char)
  | comment
  /-- A carriage return, which has to begin a line end. -/
  | carriage
  /-- One quote, which opens a text. -/
  | quote (c : Char)
  /-- Two quotes, which are an empty text unless a third one follows. -/
  | twoQuotes (c : Char)
  | quotation (q : Quotation)

/-- What the scanner is reading, and the tokens that it has found, in reverse. -/
structure Scan where
  reading : Reading := .between
  reversed : List Token := []

/-- The character may occur in a key without quotes. -/
def isBare (c : Char) : Bool := c.isAlphanum || c = '_' || c = '-'

/-- A value has to come next. The tokens are in reverse. -/
def awaitsValue (tokens : List Token) : Bool :=
  (tokens.dropWhile (· = newline)).head? = some equals

/-- The scan after a character that begins a new token or stands between tokens. -/
def Scan.start (tokens : List Token) (c : Char) : Option Scan :=
  if c = ' ' ∨ c = '\t' then some ⟨.between, tokens⟩
  else if c = '\n' then some ⟨.between, newline :: tokens⟩
  else if c = '\r' then some ⟨.carriage, tokens⟩
  else if c = '#' then some ⟨.comment, tokens⟩
  else if c = '.' then some ⟨.between, dot :: tokens⟩
  else if c = '=' then some ⟨.between, equals :: tokens⟩
  else if c = ',' then some ⟨.between, comma :: tokens⟩
  else if c = '[' then some ⟨.between, openHeader :: tokens⟩
  else if c = ']' then some ⟨.between, closeHeader :: tokens⟩
  else if c = Char.ofNat 0x7B then some ⟨.between, openTable :: tokens⟩
  else if c = Char.ofNat 0x7D then some ⟨.between, closeTable :: tokens⟩
  else if c = '"' ∨ c = '\'' then some ⟨.quote c, tokens⟩
  else if c.isDigit ∧ awaitsValue tokens then some ⟨.dateTime [c], tokens⟩
  else if isBare c then some ⟨.bare [c], tokens⟩
  else none

/-- The tokens after the end of a date, a time or both. -/
def endDateTime (tokens : List Token) (reversed : List Char) : Option (List Token) :=
  let text := (reversed.dropWhile (· = ' ')).reverse
  if DateTime.isDateTime text then some (dateTime (String.ofList text) :: tokens) else none

/-- The scan after one more character of a text on a single line. -/
def Scan.single (tokens : List Token) (q : Quotation) (c : Char) : Option Scan :=
  if c = q.quote ∧ q.mayClose then some ⟨.between, quoted q.text :: tokens⟩
  else (q.push c).map fun q => ⟨.quotation q, tokens⟩

/-- The scan after one more character of a text between triple quotes. Three quotes close the
text, and up to two quotes before them belong to it. -/
def Scan.multi (tokens : List Token) (q : Quotation) (c : Char) : Option Scan :=
  if c = q.quote ∧ q.mayClose then
    if q.run = 4 then some ⟨.between, multiline (q.absorb 2).text :: tokens⟩
    else some ⟨.quotation { q with run := q.run + 1 }, tokens⟩
  else if 3 ≤ q.run then
    start (multiline (q.absorb (q.run - 3)).text :: tokens) c
  else if q.run = 0 then
    (q.push c).map fun q => ⟨.quotation q, tokens⟩
  else
    ((q.absorb q.run).push c).map fun q => ⟨.quotation q, tokens⟩

/-- The scan after one more character. -/
def Scan.step (s : Scan) (c : Char) : Option Scan :=
  match s.reading with
  | .between => start s.reversed c
  | .bare name =>
    if isBare c then some { s with reading := .bare (c :: name) }
    else start (.bare (String.ofList name.reverse) :: s.reversed) c
  | .dateTime text => do
    if DateTime.mayOccur c then return { s with reading := .dateTime (c :: text) }
    start (← endDateTime s.reversed text) c
  | .comment =>
    if c = '\n' then some ⟨.between, newline :: s.reversed⟩
    else if c = '\r' then some { s with reading := .carriage }
    else if isPlain c then some s
    else none
  | .carriage => if c = '\n' then some ⟨.between, newline :: s.reversed⟩ else none
  | .quote quote =>
    if c = quote then some { s with reading := .twoQuotes quote }
    else single s.reversed ⟨quote, false, .plain, 0, []⟩ c
  | .twoQuotes quote =>
    if c = quote then some { s with reading := .quotation ⟨quote, true, .opened, 0, []⟩ }
    else start (quoted "" :: s.reversed) c
  | .quotation q => if q.multiline then multi s.reversed q c else single s.reversed q c

/-- The tokens when the document ends here. -/
def Scan.finish (s : Scan) : Option (List Token) :=
  match s.reading with
  | .between | .comment => some s.reversed
  | .bare name => some (.bare (String.ofList name.reverse) :: s.reversed)
  | .dateTime text => endDateTime s.reversed text
  | .twoQuotes _ => some (quoted "" :: s.reversed)
  | .quotation q =>
    if q.multiline ∧ 3 ≤ q.run then
      some (multiline (q.absorb (q.run - 3)).text :: s.reversed)
    else none
  | _ => none

/-- The tokens of a document, unless some characters belong to no token. A byte order mark at
the beginning is ignored. -/
def scan? (text : List Char) : Option (List Token) := do
  let text := if text.head? = some (Char.ofNat 0xFEFF) then text.tail else text
  let s ← text.foldlM Scan.step {}
  return (← s.finish).reverse

/-- The key that the token denotes. -/
def key? : Token → Option String
  | bare name => some name
  | quoted text => some text
  | _ => none

end Token

end Prerequisite.Toml
