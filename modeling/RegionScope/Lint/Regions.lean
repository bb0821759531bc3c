import RegionScope.Lint.Rule

/-!
# Rule: no regions within elements

A region that lies, with all directives matched with it, in the body of one code element
is reported as a warning at the line of its `#region`.
-/

namespace RegionScope.Regions

/-- The report, with the name of the region if it has one. -/
def message (name : String) : String :=
  let text := "SA1123: Region must not be located within a code element"
  if name = "" then text else text ++ " ('" ++ name ++ "')"

/-- The report for a directive. -/
def report? (context : Context) (directive : Nat) : Option Issue := do
  let (kind, label) ← context.directive? directive
  if kind = .region ∧ context.tree.isContained directive then
    some (Issue.make "WARNING" (message label.name) (some label.line) none)
  else none

/-- The reports for all directives. -/
def run (context : Context) : List Issue := context.directives.filterMap (report? context)

/-- The rule. -/
def rule : Rule where
  id := some (.str "regions_within_elements")
  name := some (.str "SA1123 Do not place regions within elements")
  defaultEnabled := some (.bool true)
  run := run

end RegionScope.Regions
