import Prerequisite.Input

/-!
# Commands and options

The commands of the program, and the options that it takes before and after the name of a
command.  A flag stands alone; a setting takes a value.
-/

namespace Prerequisite.CommandLine

/-- The name of a command. -/
inductive CommandName where
  | describe
  | tree
  | check
  | format
  deriving DecidableEq, Repr

namespace CommandName

/-- The word for the command. -/
def word : CommandName → String
  | describe => "describe"
  | tree => "tree"
  | check => "check"
  | format => "format"

/-- The command with a given word. -/
def ofWord? (text : String) : Option CommandName :=
  [describe, tree, check, format].find? fun name => name.word = text

end CommandName

/-- An option without a value. -/
inductive Flag where
  | verbose
  | quiet
  | jsonMode
  | listOrder
  | help
  | version
  deriving DecidableEq, Repr

namespace Flag

/-- The long name of the flag. -/
def long : Flag → String
  | verbose => "verbose"
  | quiet => "quiet"
  | jsonMode => "json-mode"
  | listOrder => "postfix"
  | help => "help"
  | version => "version"

/-- The letter for the flag. -/
def letter? : Flag → Option Char
  | verbose => some 'v'
  | quiet => some 'q'
  | help => some 'h'
  | version => some 'V'
  | jsonMode | listOrder => none

end Flag

/-- An option with a value. -/
inductive Setting where
  | names
  | criteria
  | inputFormat
  | stats
  deriving DecidableEq, Repr

namespace Setting

/-- The long name of the setting. -/
def long : Setting → String
  | names => "names"
  | criteria => "criteria"
  | inputFormat => "input-format"
  | stats => "stats"

/-- The letter for the setting. -/
def letter : Setting → Char
  | names => 'N'
  | criteria => 'c'
  | inputFormat => 't'
  | stats => 's'

/-- The value is acceptable for the setting: the name of a format, or a path that is not
empty. -/
def accepts (setting : Setting) (value : String) : Bool :=
  match setting with
  | inputFormat => (InputFormat.ofName? value).isSome
  | names | criteria | stats => !value.isEmpty

end Setting

/-- The part of the command line in which an option stands. -/
inductive Scope where
  /-- Before the name of the command. -/
  | program
  /-- After the name of the command. -/
  | command (name : CommandName)
  deriving DecidableEq, Repr

namespace Scope

/-- The flags that may stand in the scope. -/
def flags : Scope → List Flag
  | program => [.verbose, .quiet, .jsonMode, .help, .version]
  | command .format => [.verbose, .quiet, .jsonMode, .listOrder, .help]
  | command _ => [.verbose, .quiet, .jsonMode, .help]

/-- The settings that may stand in the scope. -/
def settings : Scope → List Setting
  | program => [.names]
  | command .tree | command .check => [.names, .criteria, .inputFormat, .stats]
  | command _ => [.names, .criteria, .inputFormat]

/-- The settings that must stand in the scope. -/
def required : Scope → List Setting
  | program => []
  | command .check => [.criteria, .stats]
  | command _ => [.criteria]

end Scope

/-- The reason why a command line is refused, or why it asks for a text about the program
instead of a command. -/
inductive ArgumentError where
  | unknownArgument
  | invalidSubcommand
  | missingSubcommand
  | missingRequiredArgument
  | invalidValue
  | tooManyValues
  | argumentConflict
  | displayHelp
  | displayVersion
  | displayHelpOnMissingArgumentOrSubcommand
  deriving DecidableEq, Repr

/-- The name of the reason. -/
def ArgumentError.name : ArgumentError → String
  | unknownArgument => "UnknownArgument"
  | invalidSubcommand => "InvalidSubcommand"
  | missingSubcommand => "MissingSubcommand"
  | missingRequiredArgument => "MissingRequiredArgument"
  | invalidValue => "InvalidValue"
  | tooManyValues => "TooManyValues"
  | argumentConflict => "ArgumentConflict"
  | displayHelp => "DisplayHelp"
  | displayVersion => "DisplayVersion"
  | displayHelpOnMissingArgumentOrSubcommand => "DisplayHelpOnMissingArgumentOrSubcommand"

end Prerequisite.CommandLine
