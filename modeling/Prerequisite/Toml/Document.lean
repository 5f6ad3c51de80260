import Std.Data.HashMap
import Prerequisite.Toml.Token

/-!
# TOML documents of texts

A document whose values are texts, dates, times and tables is read as a finite map from paths
to nodes.  A table is defined once: by a header, by dotted keys or inline.  A header may
define a table that other headers have only passed through, and dotted keys may add to a table
that dotted keys have made.  A date or a time stands for an inline table with a single entry.
-/

namespace Prerequisite.Toml

/-- How a table came into being. -/
inductive Origin where
  | header
  /-- A longer header passes through the table. -/
  | passed
  | dotted
  | inline
  deriving DecidableEq, Repr

/-- What stands at a path. -/
inductive Node where
  | text (value : String)
  | table (origin : Origin)
  deriving DecidableEq, Repr

/-- A path from the root of the document. -/
abbrev Path := List String

/-- The nodes of a document. The root is a table that has no entry. -/
abbrev Document := Std.HashMap Path Node

namespace Document

/-- The document in which all tables on the way along some keys exist. A table that is missing
is made with a given origin, and one that exists has to be open. -/
def enter (made : Origin) (isOpen : Origin → Bool) (start : Path) :
    List String → Document → Option Document
  | [], d => some d
  | key :: rest, d =>
    let path := start ++ [key]
    match d[path]? with
    | none => enter made isOpen path rest (d.insert path (.table made))
    | some (.table origin) => if isOpen origin then enter made isOpen path rest d else none
    | some (.text _) => none

/-- The document after the header for a path. -/
def define (path : Path) (d : Document) : Option Document := do
  let d ← enter .passed (· ≠ .inline) [] path.dropLast d
  match d[path]? with
  | none | some (.table .passed) => some (d.insert path (.table .header))
  | some _ => none

/-- The document after a node is put at a dotted key below a table. -/
def assign (table : Path) (keys : List String) (node : Node) (d : Document) :
    Option Document := do
  let d ← enter .dotted (· = .dotted) table keys.dropLast d
  let path := table ++ keys
  if d.contains path then none else some (d.insert path node)

end Document

/-- What has to come next. The keys that have been read are kept in reverse. -/
inductive Expected where
  /-- A header, a key or the end of a line. -/
  | statement
  | headerKey (reversed : List String)
  /-- A dot or the end of a header. -/
  | headerNext (reversed : List String)
  | key (reversed : List String)
  /-- A dot or the equals sign. -/
  | keyNext (reversed : List String)
  /-- The equals sign, after a line end in an inline table. -/
  | equals (reversed : List String)
  | value (keys : List String)
  /-- A key of an inline table, or its end. -/
  | fieldOrEnd
  /-- A comma or the end of an inline table. -/
  | fieldEnd
  | lineEnd

/-- A document that is being read: its nodes, the path of the table to which keys belong, the
paths of the inline tables that are open, the innermost first, and what has to come next. -/
structure Progress where
  document : Document := ∅
  header : Path := []
  tables : List Path := []
  expected : Expected := .statement

namespace Progress

/-- The table to which keys belong. -/
def table (p : Progress) : Path := p.tables.headD p.header

/-- The progress after a value, inside an inline table or at the end of a line. -/
def afterValue (p : Progress) : Progress :=
  { p with expected := if p.tables.isEmpty then .lineEnd else .fieldEnd }

/-- The progress after a text is given to a key. -/
def give (p : Progress) (keys : List String) (text : String) : Option Progress := do
  let document ← p.document.assign p.table keys (.text text)
  return { p with document }.afterValue

/-- The progress after an inline table is opened for a key. -/
def openTable (p : Progress) (keys : List String) : Option Progress := do
  let document ← p.document.assign p.table keys (.table .inline)
  return { p with document, tables := (p.table ++ keys) :: p.tables, expected := .fieldOrEnd }

/-- The progress after the innermost inline table is closed. -/
def closeTable (p : Progress) : Progress := { p with tables := p.tables.tail }.afterValue

/-- The key of the only entry of a table for which a date or a time stands. -/
def dateTimeKey : String := "$__toml_private_datetime"

/-- The progress after a date or a time is given to a key. -/
def giveDateTime (p : Progress) (keys : List String) (text : String) : Option Progress := do
  let p ← p.openTable keys
  let p ← p.give [dateTimeKey] text
  return p.closeTable

/-- The progress after a line end between the parts of a field of an inline table. -/
def breakField (p : Progress) (expected : Expected) : Option Progress :=
  if p.tables.isEmpty then none else some { p with expected }

/-- The progress after one more token. -/
def step (p : Progress) (token : Token) : Option Progress :=
  match p.expected, token with
  | .statement, .newline => some p
  | .statement, .openHeader => some { p with expected := .headerKey [] }
  | .statement, token => do return { p with expected := .keyNext [← token.key?] }
  | .headerKey keys, token => do return { p with expected := .headerNext ((← token.key?) :: keys) }
  | .headerNext keys, .dot => some { p with expected := .headerKey keys }
  | .headerNext keys, .closeHeader => do
    let header := keys.reverse
    return { p with document := ← p.document.define header, header, expected := .lineEnd }
  | .key keys, token => do return { p with expected := .keyNext ((← token.key?) :: keys) }
  | .keyNext keys, .dot => some { p with expected := .key keys }
  | .keyNext keys, .equals => some { p with expected := .value keys.reverse }
  | .keyNext keys, .newline => p.breakField (.equals keys)
  | .equals _, .newline => some p
  | .equals keys, .equals => some { p with expected := .value keys.reverse }
  | .value keys, .newline => p.breakField (.value keys)
  | .value keys, .quoted text => p.give keys text
  | .value keys, .multiline text => p.give keys text
  | .value keys, .dateTime text => p.giveDateTime keys text
  | .value keys, .openTable => p.openTable keys
  | .fieldOrEnd, .newline => some p
  | .fieldOrEnd, .closeTable => some p.closeTable
  | .fieldOrEnd, token => do return { p with expected := .keyNext [← token.key?] }
  | .fieldEnd, .newline => some p
  | .fieldEnd, .comma => some { p with expected := .fieldOrEnd }
  | .fieldEnd, .closeTable => some p.closeTable
  | .lineEnd, .newline => some { p with expected := .statement }
  | _, _ => none

end Progress

/-- The nodes of a document. -/
def Document.ofText? (text : List Char) : Option Document := do
  let p ← (← Token.scan? text).foldlM Progress.step {}
  match p.expected with
  | .statement | .lineEnd => some p.document
  | _ => none

end Prerequisite.Toml
