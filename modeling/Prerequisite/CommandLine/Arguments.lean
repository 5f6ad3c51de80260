import Prerequisite.CommandLine.Option

/-!
# Arguments

The arguments are read from left to right, first in the scope of the program and, after the
name of a command, in the scope of that command.  A value that stands in an argument of its
own is examined when the next option or the end of the scope is reached; an argument that is
unknown is reported before that.
-/

namespace Prerequisite.CommandLine

/-- The options that are given in one scope. -/
structure Given where
  flags : List Flag := []
  settings : List (Setting × String) := []

namespace Given

/-- The value of a setting. -/
def value? (g : Given) (setting : Setting) : Option String := g.settings.lookup setting

/-- The flag is given. -/
def has (g : Given) (flag : Flag) : Bool := flag ∈ g.flags

/-- The options with one more value. Each setting is given at most once. -/
def set (g : Given) (setting : Setting) (value : String) : Except ArgumentError Given :=
  if (g.value? setting).isSome then .error .argumentConflict
  else if setting.accepts value then .ok { g with settings := (setting, value) :: g.settings }
  else .error .invalidValue

/-- The options with one more flag. Each flag is given at most once, and the flags for the help
and for the version are answered at once. -/
def raise (g : Given) (flag : Flag) : Except ArgumentError Given :=
  match flag with
  | .help => .error .displayHelp
  | .version => .error .displayVersion
  | flag =>
    if g.has flag then .error .argumentConflict else .ok { g with flags := flag :: g.flags }

end Given

/-- What has been read in one scope. -/
structure Progress where
  scope : Scope
  given : Given := {}
  /-- The setting whose value has not been examined, and its value if that has been read. -/
  pending : Option (Setting × Option String) := none
  /-- The remaining arguments are not options. -/
  trailing : Bool := false

namespace Progress

/-- The options that are given, after the pending value has been examined. -/
def settle (p : Progress) : Except ArgumentError Given :=
  match p.pending with
  | none => .ok p.given
  | some (setting, some value) => p.given.set setting value
  | some (_, none) => .error .invalidValue

/-- The value of a setting has to be the next argument. -/
def isAwaiting (p : Progress) : Bool :=
  match p.pending with
  | some (_, none) => !p.trailing
  | _ => false

/-- The progress after a flag. -/
def raise (p : Progress) (flag : Flag) : Except ArgumentError Progress := do
  return { p with given := ← (← p.settle).raise flag, pending := none }

/-- The progress after a setting and its value, if the value is part of the same argument. -/
def set (p : Progress) (setting : Setting) (value : Option String) :
    Except ArgumentError Progress := do
  let given ← p.settle
  match value with
  | some value => return { p with given := ← given.set setting value, pending := none }
  | none => return { p with given, pending := some (setting, none) }

/-- The progress after an option with a long name, which an equals sign separates from its
value. -/
def long (p : Progress) (text : List Char) : Except ArgumentError Progress :=
  let name := String.ofList (text.takeWhile (· ≠ '='))
  let value :=
    match text.dropWhile (· ≠ '=') with
    | [] => none
    | _ :: value => some (String.ofList value)
  match p.scope.settings.find? (·.long = name), p.scope.flags.find? (·.long = name), value with
  | some setting, _, value => p.set setting value
  | none, some flag, none => p.raise flag
  | none, some _, some _ => .error .tooManyValues
  | none, none, _ => .error .unknownArgument

/-- The value that stands right after the letter of a setting, perhaps behind an equals sign. -/
def attached? : List Char → Option String
  | [] => none
  | '=' :: value => some (String.ofList value)
  | value => some (String.ofList value)

/-- The progress after some letters for options. What follows the letter of a setting is its
value. -/
def letters (p : Progress) : List Char → Except ArgumentError Progress
  | [] => .ok p
  | c :: rest =>
    match p.scope.settings.find? (·.letter = c), p.scope.flags.find? (·.letter? = some c) with
    | some setting, _ => p.set setting (attached? rest)
    | none, some flag =>
      match p.raise flag with
      | .ok p => letters p rest
      | .error e => .error e
    | none, none => .error .unknownArgument

/-- The error for an argument that is neither an option nor a value nor the name of a command. -/
def surplus (p : Progress) (text : String) : ArgumentError :=
  match p.scope with
  | .command _ => .unknownArgument
  | .program =>
    if p.trailing ∧ (text = "help" ∨ (CommandName.ofWord? text).isSome) then .unknownArgument
    else .invalidSubcommand

/-- The progress after one more argument. -/
def step (p : Progress) (text : String) : Except ArgumentError Progress :=
  if p.trailing then
    .error (p.surplus text)
  else
    match text.toList with
    | ['-', '-'] => .ok { p with trailing := true }
    | '-' :: '-' :: option => p.long option
    | '-' :: c :: rest => p.letters (c :: rest)
    | _ =>
      match p.pending with
      | some (setting, none) => .ok { p with pending := some (setting, some text) }
      | _ => .error (p.surplus text)

end Progress

/-- The options that are given in one scope, once they are complete: at most one of two
opposite flags, and each setting that is required. -/
def Given.complete (g : Given) (scope : Scope) : Except ArgumentError Given :=
  if g.has .verbose ∧ g.has .quiet then .error .argumentConflict
  else if scope.required.all fun setting => (g.value? setting).isSome then .ok g
  else .error .missingRequiredArgument

/-- The options after the name of a command. -/
def readCommand (name : CommandName) (arguments : List String) : Except ArgumentError Given := do
  let p ← arguments.foldlM Progress.step { scope := .command name }
  (← p.settle).complete (.command name)

/-- The error for a question about some commands: a text about the last of them, unless one of
them does not exist. -/
def helpOn : List String → ArgumentError
  | [] => .displayHelp
  | [word] =>
    if word = "help" ∨ (CommandName.ofWord? word).isSome then .displayHelp
    else .invalidSubcommand
  | _ => .invalidSubcommand

/-- The options before the name of a command, that name, and the options after it. -/
def readProgram (p : Progress) : List String →
    Except ArgumentError (Given × CommandName × Given)
  | [] => do
    let given ← p.settle
    if given.flags.isEmpty ∧ given.settings.isEmpty then
      throw .displayHelpOnMissingArgumentOrSubcommand
    else
      throw .missingSubcommand
  | text :: rest =>
    let word? := if p.trailing ∨ p.isAwaiting then none else CommandName.ofWord? text
    match word? with
    | some name => do
      let inner ← readCommand name rest
      let outer ← (← p.settle).complete .program
      return (outer, name, inner)
    | none =>
      if text = "help" ∧ ¬ p.trailing ∧ ¬ p.isAwaiting then
        .error (helpOn rest)
      else
        match p.step text with
        | .ok p => readProgram p rest
        | .error e => .error e

/-- A list of criteria in a file. -/
structure CriteriaFile where
  path : String
  format : InputFormat
  deriving DecidableEq, Repr

/-- A command with the files that it takes. -/
inductive Command where
  | describe (criteria : CriteriaFile)
  | tree (criteria : CriteriaFile) (stats : Option String)
  | check (criteria : CriteriaFile) (stats : String)
  /-- The formula of some criteria, as their tree has it or as their list has it. -/
  | format (criteria : CriteriaFile) (listOrder : Bool)
  deriving DecidableEq, Repr

/-- What a command line asks for. -/
structure Request where
  verbose : Bool
  quiet : Bool
  jsonMode : Bool
  names : Option String
  command : Command
  deriving DecidableEq, Repr

/-- The level of detail of the log. -/
def Request.logFilter (r : Request) : String :=
  if r.verbose then "reqtree=debug"
  else if r.quiet then "reqtree=error"
  else "reqtree=info"

/-- The command with some options after its name. -/
def Given.command? (g : Given) (name : CommandName) : Option Command := do
  let path ← g.value? .criteria
  let format := ((g.value? .inputFormat).bind InputFormat.ofName?).getD .json
  let criteria : CriteriaFile := ⟨path, format⟩
  match name with
  | .describe => return .describe criteria
  | .tree => return .tree criteria (g.value? .stats)
  | .check => return .check criteria (← g.value? .stats)
  | .format => return .format criteria (g.has .listOrder)

/-- What some arguments ask for. An option that may stand in both scopes counts wherever it
stands, and a value after the name of the command counts before one that precedes it. -/
def Request.ofArguments (arguments : List String) : Except ArgumentError Request := do
  let (outer, name, inner) ← readProgram { scope := .program } arguments
  match inner.command? name with
  | none => throw .missingRequiredArgument
  | some command =>
    return {
      verbose := outer.has .verbose || inner.has .verbose
      quiet := outer.has .quiet || inner.has .quiet
      jsonMode := outer.has .jsonMode || inner.has .jsonMode
      names := (inner.value? .names).or (outer.value? .names)
      command }

end Prerequisite.CommandLine
