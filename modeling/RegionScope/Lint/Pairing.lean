import RegionScope.Lint.Rule

/-!
# Rule: directives come in pairs

A directive that is left without its partner is an error. That is so for a region or a
conditional that is opened and not closed, for one that is closed and was not opened, and
for a branch outside of every conditional.
-/

namespace RegionScope.Pairing

/-- The report for a directive without its partner. -/
def unmatchedMessage? : DirectiveKind → Option String
  | .region => some "#region without matching #endregion"
  | .endRegion => some "#endregion without matching #region"
  | .ifStart => some "#if without matching #endif"
  | .elifBranch => some "#elif without matching #if"
  | .elseBranch => some "#else without matching #if"
  | .endIf => some "#endif without matching #if"
  | .other => none

/-- Whether a group that begins with the one kind and ends with the other is complete. -/
def isComplete (first last : DirectiveKind) : Bool :=
  match first, last with
  | .region, .endRegion => true
  | .ifStart, .endIf => true
  | _, _ => false

/-- The report for a group, at the line of its first member. -/
def report? (context : Context) (group : List Nat) : Option Issue := do
  let (first, label) ← context.directive? (← group.head?)
  let message ← unmatchedMessage? first
  let last := (group.getLast?.bind context.tree.directive?).getD .other
  if isComplete first last then none
  else some (Issue.make "ERROR" message (some label.line) none)

/-- The reports for all groups of the directives. -/
def run (context : Context) : List Issue :=
  (context.tree.groups context.directives).filterMap (report? context)

/-- The rule. -/
def rule : Rule where
  id := some (.str "directive_pairing")
  name := some (.str "#region/#endregion and #if/#endif pairing")
  defaultEnabled := some (.bool true)
  run := run

end RegionScope.Pairing
