import RegionScope.Failure
import RegionScope.Text.Split

/-!
# File trees

The files that a run can see: a root directory and the working directory as the names that
lead to it. Paths are looked up as the file system does it, step by step, from the root if
they begin with a slash and from the working directory otherwise. Empty steps and single
dots stay where they are, two dots go up, and only a directory can be stepped through.
A name has at most 255 bytes and a path at most 4095, and no path holds a null character.
-/

namespace RegionScope

open RegionScope.Text

/-- A file with its bytes, or a directory with its entries. -/
inductive Entry where
  | file (bytes : ByteArray)
  | directory (entries : List (String × Entry))

/-- The entries of a directory. -/
abbrev Directory := List (String × Entry)

/-- A directory with `entry` under a name, in place of what stood there. -/
def Directory.set (directory : Directory) (name : String) (entry : Entry) : Directory :=
  match directory with
  | [] => [(name, entry)]
  | first :: rest =>
    if first.1 = name then (name, entry) :: rest else first :: Directory.set rest name entry

/-- The entries of the directory that stands under a name; none if no directory does. -/
def Directory.below (directory : Directory) (name : String) : Directory :=
  match directory.lookup name with
  | some (.directory entries) => entries
  | _ => []

/-- A directory with `entry` at the end of the steps, the directories on the way made where
they are missing. -/
def Directory.put (directory : Directory) (entry : Entry) : List String → Directory
  | [] => directory
  | [name] => directory.set name entry
  | name :: rest =>
    directory.set name (.directory (Directory.put (directory.below name) entry rest))

/-- What stands at a path, or why nothing can be found there. -/
inductive Lookup where
  | found (entry : Entry)
  | missing
  | notDirectory
  | nameTooLong
  | nullInPath

/-- The root directory and the way from it to the working directory. -/
structure FileTree where
  root : Directory
  working : List String

namespace FileTree

/-- The steps of a path. -/
def steps (path : String) : List String := splitString '/' path

/-- The most bytes that a name may have. -/
def longestName : Nat := 255

/-- The most bytes that a path may have. -/
def longestPath : Nat := 4095

/-- Follows steps from a directory; `above` holds the directories that it lies in, the
nearest first. Going up from the root leads to the root. The first step that cannot be made
decides how the way ends. -/
def follow (here : Directory) (above : List Directory) : List String → Lookup
  | [] => .found (.directory here)
  | step :: rest =>
    if step = "" ∨ step = "." then follow here above rest
    else if step = ".." then
      match above with
      | [] => follow here [] rest
      | parent :: outer => follow parent outer rest
    else if longestName < step.utf8ByteSize then .nameTooLong
    else
      match here.lookup step with
      | none => .missing
      | some (.directory entries) => follow entries (here :: above) rest
      | some (.file bytes) => if rest.isEmpty then .found (.file bytes) else .notDirectory

/-- The steps of a path from the root on. -/
def stepsFromRoot (files : FileTree) (path : String) : List String :=
  if path.toList.head? = some '/' then steps path else files.working ++ steps path

/-- What stands at a path. The empty path leads nowhere. -/
def lookup (files : FileTree) (path : String) : Lookup :=
  if path.toList.contains (Char.ofNat 0) then .nullInPath
  else if longestPath < path.utf8ByteSize then .nameTooLong
  else if path = "" then .missing
  else follow files.root [] (files.stepsFromRoot path)

/-- The bytes of the file at a path. -/
def read (files : FileTree) (path : String) : Except Failure ByteArray :=
  match files.lookup path with
  | .found (.file bytes) => .ok bytes
  | .found (.directory _) => .error (.isDirectory path)
  | .missing => .error (.missingFile path)
  | .notDirectory => .error (.notDirectory path)
  | .nameTooLong => .error (.nameTooLong path)
  | .nullInPath => .error .nullInPath

/-- Whether a file stands at a path. -/
def isFile (files : FileTree) (path : String) : Bool :=
  match files.lookup path with
  | .found (.file _) => true
  | _ => false

/-- The entries of the directory at a path. -/
def directory? (files : FileTree) (path : String) : Option Directory :=
  match files.lookup path with
  | .found (.directory entries) => some entries
  | _ => none

/-- Steps without empty ones and dots, every pair of a name and two dots behind it struck
out; `done` holds the names so far, last first. -/
def normalSteps (done : List String) : List String → List String
  | [] => done.reverse
  | step :: rest =>
    if step = "" ∨ step = "." then normalSteps done rest
    else if step = ".." then normalSteps (done.drop 1) rest
    else normalSteps (step :: done) rest

/-- The absolute path in its normal form. A path that begins with exactly two slashes keeps
both. -/
def absolute (files : FileTree) (path : String) : String :=
  let slashes := (path.toList.takeWhile (· == '/')).length
  (if slashes = 2 then "//" else "/") ++
    "/".intercalate (normalSteps [] (files.stepsFromRoot path))

/-- The tree with a file or directory at a path. -/
def put (files : FileTree) (path : String) (entry : Entry) : FileTree :=
  { files with root := files.root.put entry (normalSteps [] (files.stepsFromRoot path)) }

end FileTree

end RegionScope
