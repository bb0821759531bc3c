import RegionScope.CommandLine.Arguments
import RegionScope.Files.Sources
import RegionScope.Json.Writer
import RegionScope.Lint.Registry
import RegionScope.Settings

/-!
# A run of the command line

A run reads the settings, registers the rules, selects among them, finds the source files
and lints each. It prints one line for each issue as it goes and a count at the end, or a
single JSON summary. The exit status is 1 if there are errors, or if there are warnings and
the run is to fail on them; arguments that cannot be understood give 2.

A failure ends a run. What was printed before it stands.

What a run needs of its host is given to it: the loader of rule files, how deeply calls may be
nested for literals, directories and values, and in which record each reported issue is kept. An
issue that is kept in the record of an earlier one replaces it there, so what is counted and written
at the end is what the records hold then.
-/

namespace RegionScope.CommandLine

/-- What a run needs of its host. `record` names the record in which the issue of a number among
those of a file is kept. -/
structure Host where
  loader : Loader
  calls : Nat
  levels : Nat
  depth : Nat
  record : (path : String) → (number : Nat) → String × Nat

/-- How a run ended: what it printed, and its exit status or the failure that stopped it. -/
structure Outcome where
  output : String
  status : Except Failure Nat

/-- The line that describes a registered rule. -/
def describe (rule : Rule) : String :=
  (rule.id.getD .null).display ++ ": " ++ (rule.name.getD .null).display ++
    (if rule.isDefault then " (default)" else " (optional)") ++ "\n"

/-- The rules of this library and those of the rule files, in order. -/
def registryOf (loader : Loader) (files : FileTree) (settings : Settings) :
    Except Failure Registry :=
  settings.pluginPaths.foldlM (fun registry path => registry.load loader files path)
    Registry.builtin

/-- What the settings and the arguments select together. -/
def selectionOf (settings : Settings) (arguments : Arguments) :
    Except Failure Registry.Selection := do
  let only ← Arguments.idTexts arguments.only
  let disable ← Arguments.idTexts arguments.disable
  return {
    only := Text.commaItems (settings.only ++ only)
    enable := Text.commaItems settings.enable
    disable := Text.commaItems (settings.disable ++ disable) }

/-- What a run lints: the registered and the selected rules and the source files. -/
structure Plan where
  rules : List Rule
  sources : List String

/-- The plan of a run, once its settings and its registry are known. -/
def planOf (levels : Nat) (files : FileTree) (settings : Settings) (registry : Registry)
    (arguments : Arguments) : Except Failure Plan := do
  let selection ← selectionOf settings arguments
  let rules ← registry.select selection
  let sources ←
    files.sources levels (Settings.extensionList settings.extensions) arguments.paths
  return ⟨rules, sources⟩

/-- The issues of each source file with its path, up to the first file that cannot be linted,
and the failure of that one. -/
def lintAll (calls : Nat) (files : FileTree) (rules : List Rule) :
    List String → List (String × List Issue) × Option Failure
  | [] => ([], none)
  | path :: rest =>
    match lintFile calls rules files path with
    | .error failure => ([], some failure)
    | .ok issues =>
      let others := lintAll calls files rules rest
      ((path, issues.map (Issue.withFile path)) :: others.1, others.2)

/-- The lines of the issues of one file. -/
def issueLines (path : String) (issues : List Issue) : String :=
  String.join (issues.map fun issue => issue.format path true ++ "\n")

/-- The lines of all issues. -/
def textReport (results : List (String × List Issue)) : String :=
  String.join (results.map fun result => issueLines result.1 result.2)

/-- The line with the counts, if there is any issue. -/
def countLine (issues : List Issue) : String :=
  if issues.isEmpty then ""
  else
    "Found " ++ toString (Issue.count issues).1 ++ " errors and " ++
      toString (Issue.count issues).2 ++ " warnings.\n"

/-- The summary of a run. -/
def summary (plan : Plan) (issues : List Issue) : Json :=
  .obj
    [("files_checked", .int plan.sources.length),
     ("errors", .int (Issue.count issues).1),
     ("warnings", .int (Issue.count issues).2),
     ("plugins", .arr (plan.rules.map fun rule => .str rule.key)),
     ("issues", .arr (issues.map fun issue => .obj issue.fields))]

/-- The exit status that the issues call for. -/
def statusOf (failOnWarn : Bool) (issues : List Issue) : Nat :=
  if 0 < (Issue.count issues).1 ∨ (failOnWarn ∧ 0 < (Issue.count issues).2) then 1 else 0

/-- The issues of all files, each with the record that it is kept in. -/
def Host.records (host : Host) (results : List (String × List Issue)) :
    List ((String × Nat) × Issue) :=
  results.flatMap fun result =>
    result.2.zipIdx.map fun issue => (host.record result.1 issue.2, issue.1)

/-- What the records of issues hold at the end, in the order of the issues: what was put there
last. -/
def settle (records : List ((String × Nat) × Issue)) : List Issue :=
  records.map fun record => (records.reverse.lookup record.1).getD record.2

/-- Why an issue has no written form, if it has none. -/
def Host.fault? (host : Host) (issue : Issue) : Option Failure :=
  Json.faultOfFields? host.depth issue.fields

/-- Lints what is planned and reports. -/
def report (host : Host) (files : FileTree) (arguments : Arguments) (plan : Plan) : Outcome :=
  let results := lintAll host.calls files plan.rules plan.sources
  let issues := settle (host.records results.1)
  match results.2 with
  | some failure => ⟨if arguments.json then "" else textReport results.1, .error failure⟩
  | none =>
    let status := statusOf arguments.failOnWarn issues
    if arguments.json then
      match issues.findSome? host.fault? with
      | some failure => ⟨"", .error failure⟩
      | none => ⟨(summary plan issues).layOut ++ "\n", .ok status⟩
    else ⟨textReport results.1 ++ countLine issues, .ok status⟩

/-- A run with understood arguments. -/
def runWith (host : Host) (files : FileTree) (arguments : Arguments) : Outcome :=
  let prepared : Except Failure (Settings × Registry) := do
    let path ← arguments.configPath
    let settings ← Settings.load files path
    let registry ← registryOf host.loader files settings
    return (settings, registry)
  match prepared with
  | .error failure => ⟨"", .error failure⟩
  | .ok (settings, registry) =>
    if arguments.listPlugins then ⟨String.join (registry.rules.map describe), .ok 0⟩
    else
      match planOf host.levels files settings registry arguments with
      | .error failure => ⟨"", .error failure⟩
      | .ok plan => report host files arguments plan

/-- The text that explains the options. -/
def usage : String :=
  "usage: [-h] [-c FILE] [--only IDS] [--disable IDS] [--list-plugins] [--json] " ++
    "[--fail-on-warn] [PATH ...]\n"

/-- A run of the command line. -/
def run (host : Host) (files : FileTree) (args : List String) : Outcome :=
  match Request.parse? args with
  | none => ⟨"", .ok 2⟩
  | some .help => ⟨usage, .ok 0⟩
  | some (.run arguments) => runWith host files arguments

end RegionScope.CommandLine
