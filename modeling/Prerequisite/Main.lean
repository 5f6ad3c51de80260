import Prerequisite.CommandLine.Execution

/-!
# The program

The arguments and the files that they name are read here; what to write is decided by the
execution of the request.
-/

open Prerequisite CommandLine

/-- The reason why the system fails. It gives the numbers of its faults with a minus sign. -/
def systemFault : IO.Error → SystemFault
  | .noFileOrDirectory _ _ _ => .missing
  | .inappropriateType _ _ _ => .throughFile
  | .permissionDenied _ _ _ => .denied
  | .invalidArgument _ number reason =>
    if number = 22 then .nulCharacter
    else if number = -36 then .nameTooLong
    else if number = -40 then .linkLoop
    else .other reason
  | fault => .other (toString fault)

/-- Where a path leads in the file system. -/
def targetAt (path : String) : IO (Except SystemFault Target) := do
  match ← (IO.FS.realPath path).toBaseIO, ← (IO.FS.readBinFile path).toBaseIO with
  | .ok canonical, content =>
    let metadata ← canonical.metadata
    let entry : Entry :=
      match metadata.type, content with
      | .file, .ok content => .file content
      | .file, .error fault => .unreadable metadata.byteSize.toNat (systemFault fault)
      | _, _ => .other
    return .ok ⟨canonical.toString, entry⟩
  -- that there is no canonical path is no reason, but that the path cannot be read is one
  | .error _, .error fault | .error fault, .ok _ => return .error (systemFault fault)

/-- The view of the file system through some paths. -/
def filesAt (paths : List String) : IO Files := do
  let targets ← paths.mapM fun path => return (path, ← targetAt path)
  return fun path => (targets.lookup path).getD (.error .missing)

/-- Runs the program: the text of the command goes to the standard output, and the reason why
there is none to the standard error. -/
def main (arguments : List String) : IO UInt32 := do
  match Request.ofArguments arguments with
  | .error reason =>
    IO.eprintln reason.name
    return 2
  | .ok request =>
    let environment ← IO.getEnv "REQTREE_NAMES"
    let files ← filesAt (request.paths environment)
    let response := request.respond files environment
    IO.eprint response.message
    IO.print response.output
    return response.exitCode
