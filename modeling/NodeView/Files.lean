/-!
# NodeView.Files

Paths, and the files that they lead to.

A path is walked step by step from the working directory or from the root: `.` and empty steps
stay, `..` goes up, and a name goes into a directory that has to be there. Directories above the
working directory can be reached, but no name in them is known. Names and paths have a greatest
length.
-/

namespace NodeView

/-! ### Paths -/

namespace Path

/-- The pieces of a text between slashes. -/
def splitSlashes : List Char → List (List Char)
  | [] => [[]]
  | '/' :: rest => [] :: splitSlashes rest
  | c :: rest =>
    match splitSlashes rest with
    | piece :: pieces => (c :: piece) :: pieces
    | [] => [[c]]

/-- The steps of a path that lead somewhere; a step that stays counts only in front. -/
def steps (path : String) : List String :=
  match splitSlashes path.toList with
  | [] => []
  | first :: pieces =>
    let moving := pieces.filter fun piece => piece ≠ [] ∧ piece ≠ ['.']
    (if first = [] then moving else first :: moving).map String.ofList

/-- The last step of a path, if it is a name. -/
def fileName? (path : String) : Option String :=
  match (steps path).getLast? with
  | some name => if name = "." ∨ name = ".." then none else some name
  | none => none

/-- The extension of the file that a path names: what follows the last point of its name,
unless the point is in front. -/
def extension? (path : String) : Option String :=
  match fileName? path with
  | none => none
  | some name =>
    let behind := (name.toList.reverse.takeWhile (· ≠ '.')).reverse
    let front := name.toList.take (name.toList.length - behind.length - 1)
    if front = [] then none else some (String.ofList behind)

/-- A path without the steps that stay. -/
def tidy (path : String) : String :=
  String.intercalate "/" ((steps path).filter (· ≠ "."))

end Path

/-! ### Files -/

/-- The files and directories below one directory, each with the names that lead to it. -/
structure Files where
  files : List (List String × List UInt8) := []
  /-- Directories that need not hold a file. -/
  directories : List (List String) := []
  /-- Whether nothing is above. -/
  isRoot : Bool := false

/-- Why a file is not read. -/
inductive FileFault where
  | notFound
  | notDirectory
  | isDirectory
  | nameTooLong
  deriving DecidableEq, Repr

/-- The wording of a fault. -/
def FileFault.message : FileFault → String
  | .notFound => "No such file or directory (os error 2)"
  | .notDirectory => "Not a directory (os error 20)"
  | .isDirectory => "Is a directory (os error 21)"
  | .nameTooLong => "File name too long (os error 36)"

/-- What a path leads to. -/
inductive Place where
  /-- A directory with the names that lead to it. -/
  | directory (names : List String)
  /-- A directory above those of which the names are known. -/
  | above
  | file (bytes : List UInt8)

namespace Files

/-- The greatest length of a name in bytes. -/
def maxName : Nat := 255

/-- The greatest length of a path in bytes. -/
def maxPath : Nat := 4095

/-- What every system has below its root: some directories, and a device that holds nothing. -/
def system : Files where
  files := [(["dev", "null"], [])]
  directories := ["bin", "boot", "etc", "home", "lib", "media", "mnt", "opt", "proc", "run", "sbin",
    "srv", "sys", "tmp", "usr", "var"].map ([·])
  isRoot := true

/-- What the names `names` lead to. -/
def lookup (files : Files) (names : List String) : Except FileFault Place :=
  match files.files.lookup names with
  | some bytes => .ok (.file bytes)
  | none =>
    if (files.files.map Prod.fst ++ files.directories).any names.isPrefixOf then
      .ok (.directory names)
    else .error .notFound

/-- Where a step leads from a directory. -/
def stepFrom (files : Files) (names : List String) (piece : String) : Except FileFault Place :=
  if piece = "" ∨ piece = "." then .ok (.directory names)
  else if piece = ".." then
    .ok (if names = [] ∧ ¬ files.isRoot then .above else .directory names.dropLast)
  else if maxName < piece.utf8ByteSize then .error .nameTooLong
  else files.lookup (names ++ [piece])

/-- Where a step leads. -/
def step (files : Files) (place : Place) (piece : String) : Except FileFault Place :=
  match place with
  | .file _ => .error .notDirectory
  | .directory names => files.stepFrom names piece
  | .above =>
    if piece ∈ ["", ".", ".."] then .ok .above
    else if maxName < piece.utf8ByteSize then .error .nameTooLong
    else .error .notFound

/-- What a path leads to that is walked from the directory of `files`. -/
def walk (files : Files) (path : String) : Except FileFault Place :=
  ((Path.splitSlashes path.toList).map String.ofList).foldlM files.step (.directory [])

/-- The bytes of the file at a path; a path that starts with a slash is walked from the root. -/
def read (files : Files) (path : String) : Except FileFault (List UInt8) := do
  if path = "" then throw .notFound
  if maxPath < path.utf8ByteSize then throw .nameTooLong
  match ← (if path.toList.head? = some '/' then system else files).walk path with
  | .file bytes => return bytes
  | _ => throw .isDirectory

end Files

end NodeView
