import RegionScope.Files.Tree
import RegionScope.Text.Lowercase

/-!
# Source files

The files that a list of input paths stands for. A file is taken whatever its name; a
directory stands for all files at any depth below it whose extension is in a list, except
in directories of build output and in those whose path from the input path on is too long
to be opened, which are passed over. The result is a set in increasing order.

A host goes down into a directory by a call, so a search fails where directories are nested more
deeply than calls may be.
-/

namespace RegionScope

open RegionScope.Text

namespace FileTree

/-- The extension of a file name: from its last dot on, unless only dots stand before. -/
def extension (name : String) : String :=
  let letters := name.toList
  let tail := (letters.reverse.takeWhile (· != '.')).reverse
  let stem := letters.take (letters.length - (tail.length + 1))
  if stem.any (· != '.') then String.ofList ('.' :: tail) else ""

/-- The directories that are not entered below an input path. -/
def isBuildOutput (name : String) : Bool := name == "bin" || name == "obj" || name == ".git"

/-- The path of an entry of the directory at `path`. -/
def join (path name : String) : String :=
  if path.toList.getLast? = some '/' then path ++ name else path ++ "/" ++ name

mutual

/-- The source files of an entry named `name`, whose path is `path`. -/
def sourcesOf (extensions : List String) (name path : String) : Entry → List String
  | .file _ => if extensions.contains (lowercase (extension name)) then [path] else []
  | .directory entries =>
    if isBuildOutput name ∨ longestPath < path.utf8ByteSize then []
    else sourcesBelow extensions path entries

/-- The source files below the directory at `path`. -/
def sourcesBelow (extensions : List String) (path : String) :
    List (String × Entry) → List String
  | [] => []
  | (name, entry) :: rest =>
    sourcesOf extensions name (join path name) entry ++ sourcesBelow extensions path rest

end

mutual

/-- How many directories one below the other are entered at an entry named `name`, whose path is
`path`. One whose path is too long is entered too, but not opened. -/
def depthOf (name path : String) : Entry → Nat
  | .file _ => 0
  | .directory entries =>
    if isBuildOutput name then 0
    else if longestPath < path.utf8ByteSize then 1
    else depthBelow path entries + 1

/-- How many directories one below the other are entered below the directory at `path`. -/
def depthBelow (path : String) : List (String × Entry) → Nat
  | [] => 0
  | (name, entry) :: rest => max (depthOf name (join path name) entry) (depthBelow path rest)

end

/-- The source files of one input path, where directories may be entered down to some levels. -/
def sourcesAt (files : FileTree) (levels : Nat) (extensions : List String) (path : String) :
    Except Failure (List String) :=
  if files.isFile path then .ok [path]
  else
    match files.directory? path with
    | none => .error (.missingInput path)
    | some entries =>
      if levels < depthBelow path entries then .error (.tooDeep .directories)
      else .ok (sourcesBelow extensions path entries)

/-- The source files of input paths, in increasing order; the first path that leads nowhere, or
below which directories are nested too deeply, is a failure. -/
def sources (files : FileTree) (levels : Nat) (extensions paths : List String) :
    Except Failure (List String) := do
  let found ← paths.mapM (files.sourcesAt levels extensions)
  return sortedSet found.flatten

end FileTree

end RegionScope
