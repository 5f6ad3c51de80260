import Prerequisite.CommandLine.Arguments
import Prerequisite.CommandLine.Files
import Prerequisite.Json.Encoding
import Prerequisite.Report
import Prerequisite.Tree.Drawing

/-!
# Execution of a command

A command loads its inputs in a fixed order, the names first, then the criteria, then the
snapshot, and stops at the first of them that is refused.  Only a command that has all its
inputs writes anything.
-/

namespace Prerequisite.CommandLine

variable [Decoders]

/-- The table of the names in a file. -/
def loadNames (files : Files) (path : String) : Except Error NameTable := do
  readNames (← files.readText path)

/-- The criteria in a file. -/
def loadCriteria (files : Files) (source : CriteriaFile) : Except Error (List Criterion) := do
  readCriteria source.format (← files.read source.path)

/-- The snapshot in a file. -/
def loadSnapshot (files : Files) (path : String) : Except Error Snapshot := do
  readSnapshot (← files.read path)

namespace Request

/-- The path of the names: the one that is asked for, or else the one that the environment
gives. -/
def namesPath? (r : Request) (environment : Option String) : Option String :=
  r.names.or (environment.filter fun path => !path.isEmpty)

/-- The paths of the files that the request uses. -/
def paths (r : Request) (environment : Option String) : List String :=
  let inputs :=
    match r.command with
    | .describe criteria | .format criteria _ => [criteria.path]
    | .tree criteria stats => criteria.path :: stats.toList
    | .check criteria stats => [criteria.path, stats]
  (r.namesPath? environment).toList ++ inputs

/-- The table of the names that the request uses. It is empty unless a path is given. -/
def loadTable (files : Files) (environment : Option String) (r : Request) :
    Except Error NameTable :=
  match r.namesPath? environment with
  | some path => loadNames files path
  | none => .ok {}

end Request

/-- The terms of some criteria as they are described. -/
def describeText (names : Names) (jsonMode : Bool) (criteria : List Criterion) : String :=
  let terms := terms names criteria
  if jsonMode then (Json.array (terms.map Term.toJson)).render else listing terms

/-- The tree of some criteria as it is drawn. -/
def treeText (names : Names) (jsonMode : Bool) (criteria : List Criterion)
    (stats : Option Snapshot) : String :=
  let tree? := Tree.build? names stats criteria
  if jsonMode then (Json.ofOption Tree.toJson tree?).render
  else (tree?.map Tree.draw).getD "(no requirements)"

/-- The outcome for some criteria as it is reported. -/
def checkText (names : Names) (jsonMode : Bool) (criteria : List Criterion) (s : Snapshot) :
    String :=
  let outcome := check names criteria s
  if jsonMode then outcome.toJson.render else outcome.report

/-- The formula of some criteria. -/
def formatText (names : Names) (jsonMode : Bool) (criteria : List Criterion)
    (listOrder : Bool) : String :=
  let formula :=
    if listOrder then Formula.ofTerms (terms names criteria)
    else ((Tree.build? names none criteria).map Tree.formula).getD ""
  if jsonMode then
    (Json.object [("expression", .text formula), ("postfix", .bool listOrder)]).render
  else
    formula

/-- The text that a command writes. -/
def Command.output (files : Files) (names : Names) (jsonMode : Bool) :
    Command → Except Error String
  | .describe source => do
    let criteria ← loadCriteria files source
    return describeText names jsonMode criteria
  | .tree source path? => do
    let criteria ← loadCriteria files source
    let stats ← path?.mapM (loadSnapshot files)
    return treeText names jsonMode criteria stats
  | .check source path => do
    let criteria ← loadCriteria files source
    let s ← loadSnapshot files path
    return checkText names jsonMode criteria s
  | .format source listOrder => do
    let criteria ← loadCriteria files source
    return formatText names jsonMode criteria listOrder

/-- What a request writes: the text of its command and the end of a line. -/
def Request.execute (files : Files) (environment : Option String) (r : Request) :
    Except Error String := do
  let table ← r.loadTable files environment
  let text ← r.command.output files table.names r.jsonMode
  return text ++ "\n"

/-- What the program gives back: the text that it writes to the standard output, the message with
which it fails, and its exit code. -/
structure Response where
  output : String
  message : String
  exitCode : UInt32
  deriving DecidableEq, Repr

/-- The response to the result of a request. -/
def Response.ofResult : Except Error String → Response
  | .ok text => ⟨text, "", 0⟩
  | .error e => ⟨"", e.message ++ "\n", 1⟩

/-- The response to a request. -/
def Request.respond (files : Files) (environment : Option String) (r : Request) : Response :=
  .ofResult (r.execute files environment)

end Prerequisite.CommandLine
