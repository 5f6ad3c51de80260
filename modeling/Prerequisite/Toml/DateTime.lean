/-!
# Dates and times of TOML

A date is a year, a month and a day that the calendar has.  A time is an hour and a minute,
and may go on with a second and a fraction of it.  A date, a time, and a date with a time
are values; an offset may follow only a date with a time.
-/

namespace Prerequisite.Toml.DateTime

/-- The number that some first digits of a text denote, and the text after them. -/
def number? (digits : Nat) (text : List Char) : Option (Nat × List Char) :=
  let first := text.take digits
  if first.length = digits ∧ first.all Char.isDigit then
    some (first.foldl (fun n c => 10 * n + (c.toNat - '0'.toNat)) 0, text.drop digits)
  else
    none

/-- The text after a character with which it has to begin. -/
def after? (c : Char) : List Char → Option (List Char)
  | first :: rest => if first = c then some rest else none
  | [] => none

/-- The year has a 29th of February. -/
def isLeap (year : Nat) : Bool := year % 4 = 0 && (year % 100 ≠ 0 || year % 400 = 0)

/-- The number of days of a month. -/
def daysIn (year month : Nat) : Nat :=
  if month = 2 then
    if isLeap year then 29 else 28
  else if month ∈ [4, 6, 9, 11] then 30
  else 31

/-- The text after a date. The year has four digits, the month and the day two each. -/
def afterDate? (text : List Char) : Option (List Char) := do
  let (year, text) ← number? 4 text
  let (month, text) ← number? 2 (← after? '-' text)
  let (day, text) ← number? 2 (← after? '-' text)
  guard (1 ≤ month ∧ month ≤ 12 ∧ 1 ≤ day ∧ day ≤ daysIn year month)
  return text

/-- The text after an hour and a minute of two digits each. -/
def afterMinute? (text : List Char) : Option (List Char) := do
  let (hour, text) ← number? 2 text
  let (minute, text) ← number? 2 (← after? ':' text)
  guard (hour ≤ 23 ∧ minute ≤ 59)
  return text

/-- The text after a fraction, which may be missing and has at least one digit. -/
def afterFraction? : List Char → Option (List Char)
  | '.' :: text =>
    if text.head?.any Char.isDigit then some (text.dropWhile Char.isDigit) else none
  | text => some text

/-- The text after a second, which may be missing and may be a leap second. -/
def afterSecond? : List Char → Option (List Char)
  | ':' :: text => do
    let (second, text) ← number? 2 text
    guard (second ≤ 60)
    afterFraction? text
  | text => some text

/-- The text after a time. -/
def afterTime? (text : List Char) : Option (List Char) := do
  afterSecond? (← afterMinute? text)

/-- The text is an offset or is empty. -/
def isOffset : List Char → Bool
  | [] => true
  | ['Z'] | ['z'] => true
  | '+' :: text | '-' :: text => afterMinute? text = some []
  | _ => false

/-- The text may follow a date: it is empty, or it goes on with a time. -/
def mayFollowDate : List Char → Bool
  | [] => true
  | 'T' :: text | 't' :: text | ' ' :: text => (afterTime? text).any isOffset
  | _ => false

/-- The text is a date, a time, or a date with a time. -/
def isDateTime (text : List Char) : Bool :=
  (afterDate? text).any mayFollowDate || afterTime? text = some []

/-- The character may occur in a date or a time. -/
def mayOccur (c : Char) : Bool :=
  c.isDigit || c ∈ ['-', ':', '.', '+', ' ', 'T', 't', 'Z', 'z']

end Prerequisite.Toml.DateTime
