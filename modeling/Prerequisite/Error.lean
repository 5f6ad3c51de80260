import Prerequisite.Criterion.Basic
import Prerequisite.Decimal
import Prerequisite.Text.Utf8

/-!
# Errors

The reasons why an input is refused, and the message for each of them.
-/

namespace Prerequisite

/-- A field of a line of criteria. -/
inductive Field where
  | stat
  | operator
  | value
  deriving DecidableEq, Repr

/-- The name of the field. -/
def Field.name : Field → String
  | stat => "stat"
  | operator => "operator"
  | value => "value"

/-- What is wrong with a line of criteria. -/
inductive LineFault where
  | fieldCount (count : Nat)
  | badNumber (field : Field) (text : String) (fault : Decimal.Fault)
  /-- There are more criteria before the line than there are identifiers. -/
  | noIdentifier
  deriving DecidableEq, Repr

/-- The wording of the fault of a line. -/
def LineFault.message : LineFault → String
  | fieldCount count =>
    "expected stat:operator:value, found " ++ Decimal.natural count ++ " field(s)"
  | badNumber field text fault => field.name ++ " '" ++ text ++ "': " ++ fault.message
  | noIdentifier => "too many criteria"

/-- Why the system does not follow a path, or does not give the content of a file. -/
inductive SystemFault where
  | missing
  | throughFile
  | nameTooLong
  | nulCharacter
  | denied
  | linkLoop
  /-- Any other reason, in the words of the system. -/
  | other (reason : String)
  deriving DecidableEq, Repr

/-- The wording of the fault of the system. -/
def SystemFault.message : SystemFault → String
  | missing => "No such file or directory (os error 2)"
  | throughFile => "Not a directory (os error 20)"
  | nameTooLong => "File name too long (os error 36)"
  | nulCharacter => "file name contained an unexpected NUL byte"
  | denied => "Permission denied (os error 13)"
  | linkLoop => "Too many levels of symbolic links (os error 40)"
  | other reason => reason

/-- What the system is asked for: to follow a path, to read an input, or to read names. -/
inductive Attempt where
  | follow
  | read
  | readNames
  deriving DecidableEq, Repr

/-- The wording of an attempt that fails. -/
def Attempt.message : Attempt → String
  | follow => "Invalid file path"
  | read => "Read"
  | readNames => "Read names"

/-- An attempt that fails, and why it does. -/
structure AccessFault where
  attempt : Attempt
  reason : SystemFault
  deriving DecidableEq, Repr

/-- The largest size of a file that is read, in bytes. -/
def fileSizeLimit : Nat := 1024 * 1024

/-- The reason why an input is refused. Where a document is malformed, the reason is given in the
words of the library that decodes it; no decision depends on them. -/
inductive Error where
  | invalidLine (line : Nat) (fault : LineFault)
  | tooManyCriteria (count : Nat)
  | malformedCriteria {reason : String}
  | malformedStats {reason : String}
  | criteriaEncoding (fault : Utf8.Fault)
  | unreachable (path : String) (fault : AccessFault)
  | notRegularFile (path : String)
  | fileTooLarge (size : Nat)
  | namesEncoding (path : String)
  | malformedNames {reason : String}
  /-- A key in a table of names is not the numeral of a code. -/
  | badCode (table key : String)
  deriving DecidableEq, Repr

/-- The wording of a fault of an encoding. -/
def Utf8.Fault.message : Utf8.Fault → String
  | invalid start length =>
    "invalid utf-8 sequence of " ++ Decimal.natural length ++ " bytes from index " ++
      Decimal.natural start
  | incomplete start => "incomplete utf-8 byte sequence from index " ++ Decimal.natural start

/-- The message for an error. -/
def Error.message : Error → String
  | invalidLine line fault =>
    "Invalid criteria line " ++ Decimal.natural line ++ ": " ++ fault.message
  | tooManyCriteria count =>
    "Criteria count " ++ Decimal.natural count ++ " exceeds maximum " ++
      Decimal.natural criteriaLimit
  | @malformedCriteria reason => "Serialization error: Criteria JSON: " ++ reason
  | @malformedStats reason => "Serialization error: Stats JSON: " ++ reason
  | criteriaEncoding fault => "Serialization error: Criteria text: " ++ fault.message
  | unreachable path fault =>
    "I/O error: " ++ fault.attempt.message ++ " '" ++ path ++ "': " ++ fault.reason.message
  | notRegularFile path => "I/O error: Path '" ++ path ++ "' is not a regular file"
  | fileTooLarge size =>
    "I/O error: File size " ++ Decimal.natural size ++ " bytes exceeds maximum allowed " ++
      Decimal.natural fileSizeLimit ++ " bytes"
  | namesEncoding path =>
    "I/O error: Read names '" ++ path ++ "': stream did not contain valid UTF-8"
  | @malformedNames reason => "Configuration error: " ++ reason
  | badCode table key =>
    "Configuration error: [" ++ table ++ "] key '" ++ key ++ "' is not a decimal code"

end Prerequisite
