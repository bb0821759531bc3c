import RegionScope.CommandLine.Run

/-!
# The command line program

The program takes a snapshot of the files that its arguments and settings name, makes the
run on it, prints the output and exits with the status. A failure is printed to the error
output. It has no loader for rule files.
-/

namespace RegionScope

/-- The host of the program: no rule files, calls nested to a bound that leaves room for the program
itself, and a record for each issue. -/
def plainHost : CommandLine.Host where
  loader := ⟨[], fun _ _ _ => ⟨none, none, none, none⟩⟩
  calls := 980
  levels := 980
  depth := 980
  record := Prod.mk

/-- What stands at a path, if anything does. Build output inside a directory is left out. -/
partial def snapshot (path : String) : IO (Option Entry) := do
  try
    let place ← IO.FS.realPath path
    if ← place.isDir then
      let mut entries : Directory := []
      for child in ← place.readDir do
        unless FileTree.isBuildOutput child.fileName do
          if let some entry ← snapshot (FileTree.join path child.fileName) then
            entries := (child.fileName, entry) :: entries
      return some (.directory entries)
    else return some (.file (← IO.FS.readBinFile place))
  catch _ => return none

/-- The file tree with what stands at some paths. -/
def addPaths (files : FileTree) (paths : List String) : IO FileTree :=
  paths.foldlM (fun files path => do
    match ← snapshot path with
    | some entry => return files.put path entry
    | none => return files) files

/-- The files that a run with these arguments looks at. -/
def gatherFiles (arguments : CommandLine.Arguments) : IO FileTree := do
  let working := (FileTree.steps (← IO.currentDir).toString).filter (· != "")
  let start : FileTree := (FileTree.mk [] working).put "." (.directory [])
  let config := arguments.configPath.toOption.join
  let files ← addPaths start (arguments.paths ++ config.toList)
  match Settings.load files config with
  | .ok settings => addPaths files settings.pluginPaths
  | .error _ => return files

end RegionScope

/-- The entry point. -/
def main (args : List String) : IO UInt32 := do
  let files ← match RegionScope.CommandLine.Request.parse? args with
    | some (.run arguments) => RegionScope.gatherFiles arguments
    | _ => pure (RegionScope.FileTree.mk [] [])
  let outcome := RegionScope.CommandLine.run RegionScope.plainHost files args
  IO.print outcome.output
  match outcome.status with
  | .ok status => return status.toUInt32
  | .error failure =>
    IO.eprintln failure.message
    return 1
