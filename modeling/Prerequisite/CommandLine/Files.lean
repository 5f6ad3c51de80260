import Prerequisite.Error

/-!
# Files

What the program sees of a file system: a path leads to a file, to a file that cannot be read, to
something else such as a folder, or to nothing.  A folder of files that are given as data is one
such view.
-/

namespace Prerequisite

/-- What stands at a place in a file system. -/
inductive Entry where
  | file (content : ByteArray)
  /-- A file of a known size whose content the system does not give. -/
  | unreadable (size : Nat) (reason : SystemFault)
  | other

/-- Where a path leads: the canonical path of the place, and what stands there. -/
structure Target where
  path : String
  entry : Entry

/-- A view of a file system. -/
abbrev Files := String → Except SystemFault Target

/-- A file that is about to be read: its canonical path, and its content unless the system does not
give it. -/
structure OpenFile where
  path : String
  content : Except SystemFault (List UInt8)

namespace Files

/-- The file to which a path leads, unless it is too large. -/
def openFile (files : Files) (path : String) : Except Error OpenFile := do
  let target ← (files path).mapError fun reason => .unreachable path ⟨.follow, reason⟩
  match target.entry with
  | .other => .error (.notRegularFile path)
  | .file content =>
    if content.size ≤ fileSizeLimit then .ok ⟨target.path, .ok content.data.toList⟩
    else .error (.fileTooLarge content.size)
  | .unreadable size reason =>
    if size ≤ fileSizeLimit then .ok ⟨target.path, .error reason⟩
    else .error (.fileTooLarge size)

/-- The bytes in the file of an input. -/
def read (files : Files) (path : String) : Except Error (List UInt8) := do
  let file ← files.openFile path
  file.content.mapError fun reason => .unreachable path ⟨.read, reason⟩

/-- The text in the file of the names. What is wrong with the content is reported with the canonical
path. -/
def readText (files : Files) (path : String) : Except Error (List Char) := do
  let file ← files.openFile path
  let bytes ← file.content.mapError fun reason => .unreachable file.path ⟨.readNames, reason⟩
  (Utf8.decode bytes).mapError fun _ => .namesEncoding file.path

end Files

/-- A folder of files that are given as data, each with the names on its path. A folder inside
is given with the names on its path, or as part of the path of a file. -/
abbrev Folder := List (List String × Entry)

namespace Folder

/-- A place to which the beginning of a path leads. -/
inductive Position where
  /-- Below the folder, along some names. -/
  | inside (names : List String)
  /-- In a folder around this one, of which nothing else is known. -/
  | outside

/-- What stands at a position. A name that only begins longer paths is a folder. -/
def entry? (folder : Folder) : Position → Option Entry
  | .outside | .inside [] => some .other
  | .inside names =>
    match folder.lookup names with
    | some entry => some entry
    | none => if folder.any fun (path, _) => names.isPrefixOf path then some .other else none

/-- The longest name, in bytes. -/
def nameLimit : Nat := 255

/-- The position after one more name. The names `.` and `..` and the empty name have to follow a
folder, as every name has. -/
def follow (folder : Folder) (position : Position) (name : String) :
    Except SystemFault Position :=
  match folder.entry? position with
  | none => .error .missing
  | some (.file _) | some (.unreadable _ _) => .error .throughFile
  | some .other =>
    if name = "" ∨ name = "." then
      .ok position
    else
      match position with
      | .inside names =>
        if name = ".." then
          .ok (if names.isEmpty then .outside else .inside names.dropLast)
        else if nameLimit < name.utf8ByteSize then .error .nameTooLong
        else if (folder.entry? (.inside (names ++ [name]))).isSome then
          .ok (.inside (names ++ [name]))
        else .error .missing
      | .outside =>
        if name = ".." then .ok .outside
        else if nameLimit < name.utf8ByteSize then .error .nameTooLong
        else .error .missing

/-- The names in a path, between its slashes. -/
def pathNames (path : String) : List String :=
  (path.toList.splitOn '/').map String.ofList

/-- The canonical path of a position, when the folder is the root. -/
def Position.path : Position → String
  | .inside names => "/" ++ "/".intercalate names
  | .outside => "/.."

/-- The view of a file system whose current folder is the given one. -/
def files (folder : Folder) : Files := fun path =>
  if path.isEmpty then .error .missing
  else if '\x00' ∈ path.toList then .error .nulCharacter
  else do
    let start := if path.toList.head? = some '/' then .outside else .inside []
    let position ← (pathNames path).foldlM folder.follow start
    match folder.entry? position with
    | some entry => .ok ⟨position.path, entry⟩
    | none => .error .missing

end Folder

end Prerequisite
