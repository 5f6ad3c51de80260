import Prerequisite.Text.Utf8

/-!
# Texts of a JSON document

The text that the bytes between two quotes denote.  A character beyond the first plane may be
escaped as a pair of surrogates; a surrogate without its partner denotes nothing.
-/

namespace Prerequisite.Json

/-- The value of a hexadecimal digit. -/
def hexValue? (c : Char) : Option Nat :=
  if c.isDigit then some (c.toNat - '0'.toNat)
  else if 'a' ≤ c ∧ c ≤ 'f' then some (c.toNat - 'a'.toNat + 10)
  else if 'A' ≤ c ∧ c ≤ 'F' then some (c.toNat - 'A'.toNat + 10)
  else none

/-- The value of some hexadecimal digits. -/
def hexNumber? (digits : List Char) : Option Nat :=
  digits.foldlM (fun n c => (hexValue? c).map fun d => n * 16 + d) 0

/-- The character that a letter after a backslash stands for. -/
def shortEscape? (c : Char) : Option Char :=
  if c ∈ ['"', '\\', '/'] then some c
  else if c = 'b' then some (Char.ofNat 0x08)
  else if c = 'f' then some (Char.ofNat 0x0C)
  else if c = 'n' then some '\n'
  else if c = 'r' then some '\r'
  else if c = 't' then some '\t'
  else none

/-- The surrogate begins a pair. -/
def isLeading (unit : Nat) : Bool := 0xD800 ≤ unit ∧ unit < 0xDC00

/-- The surrogate ends a pair. -/
def isTrailing (unit : Nat) : Bool := 0xDC00 ≤ unit ∧ unit < 0xE000

/-- What has been read of a text: its characters in reverse, and the leading surrogate of a
pair whose other half has to follow. -/
structure Unescaped where
  reversed : List Char := []
  leading : Option Nat := none

/-- The text with one more character. -/
def Unescaped.push (s : Unescaped) (c : Char) : Option Unescaped :=
  match s.leading with
  | none => some { s with reversed := c :: s.reversed }
  | some _ => none

/-- The text with one more escaped unit. -/
def Unescaped.pushUnit (s : Unescaped) (unit : Nat) : Option Unescaped :=
  match s.leading with
  | some leading =>
    if isTrailing unit then
      let code := 0x10000 + (leading - 0xD800) * 0x400 + (unit - 0xDC00)
      some { reversed := Char.ofNat code :: s.reversed }
    else none
  | none =>
    if isLeading unit then some { s with leading := some unit }
    else if isTrailing unit then none
    else s.push (Char.ofNat unit)

/-- The text that some characters with escapes denote, after what has been read before. -/
def unescape? (s : Unescaped) : List Char → Option (List Char)
  | [] => if s.leading.isSome then none else some s.reversed.reverse
  | '\\' :: 'u' :: a :: b :: c :: d :: rest => do
    let unit ← hexNumber? [a, b, c, d]
    unescape? (← s.pushUnit unit) rest
  | '\\' :: c :: rest => do
    let c ← shortEscape? c
    unescape? (← s.push c) rest
  | c :: rest => do
    unescape? (← s.push c) rest

/-- The text that the bytes between two quotes denote. -/
def text? (content : List UInt8) : Option String := do
  let chars ← (Utf8.decode content).toOption
  let text ← unescape? {} chars
  return String.ofList text

end Prerequisite.Json
