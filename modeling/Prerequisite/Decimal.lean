/-!
# Decimal numerals

The decimal numeral of a 64-bit integer, and a reader that takes an optional sign followed
by digits.  The reader looks at the characters from left to right and names the first
fault: a character that is no digit, or a digit that carries the number out of range.
-/

namespace Prerequisite.Decimal

/-- The reason why a text is not the numeral of a 64-bit integer. -/
inductive Fault where
  | empty
  | invalidDigit
  | tooLarge
  | tooSmall
  deriving DecidableEq, Repr

/-- The wording of a fault. -/
def Fault.message : Fault → String
  | .empty => "cannot parse integer from empty string"
  | .invalidDigit => "invalid digit found in string"
  | .tooLarge => "number too large to fit in target type"
  | .tooSmall => "number too small to fit in target type"

/-- The characters of the numeral of an integer: a minus sign if it is negative, then the
digits of its absolute value. -/
def digits (n : Int64) : List Char :=
  if n < 0 then
    '-' :: Nat.toDigits 10 n.toInt.natAbs
  else
    Nat.toDigits 10 n.toInt.natAbs

/-- The numeral of an integer. -/
def numeral (n : Int64) : String := String.ofList (digits n)

/-- The numeral of a natural number. -/
def natural (n : Nat) : String := String.ofList (Nat.toDigits 10 n)

/-- The number whose digits are those of `value` followed by the given characters, as long
as it stays within `bound`. -/
def readDigits (bound : Nat) (excess : Fault) (value : Nat) : List Char → Except Fault Nat
  | [] => .ok value
  | c :: rest =>
    if c.isDigit then
      let next := 10 * value + (c.toNat - '0'.toNat)
      if next ≤ bound then readDigits bound excess next rest else .error excess
    else
      .error .invalidDigit

/-- The largest absolute value of a negative 64-bit integer. -/
def negativeBound : Nat := 9223372036854775808

/-- The largest 64-bit integer. -/
def positiveBound : Nat := 9223372036854775807

/-- The integer that a text denotes: an optional sign and at least one digit. Leading zeros
are allowed. -/
def read : List Char → Except Fault Int64
  | [] => .error .empty
  | ['-'] => .error .invalidDigit
  | ['+'] => .error .invalidDigit
  | '-' :: rest =>
    (readDigits negativeBound .tooSmall 0 rest).map fun n => Int64.ofInt (-n)
  | '+' :: rest => (readDigits positiveBound .tooLarge 0 rest).map Int64.ofNat
  | text => (readDigits positiveBound .tooLarge 0 text).map Int64.ofNat

/-- The integer that a text denotes, if there is one. -/
def read? (text : List Char) : Option Int64 := (read text).toOption

end Prerequisite.Decimal
