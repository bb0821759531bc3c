import RegionScope.Failure
import RegionScope.Lint.Issue
import RegionScope.Source.CallDepth
import RegionScope.Tree.Body

/-!
# Rules

A rule looks at a text: at the path of its file, if it is that of a file, at the text itself with
the index of its newlines, at its outline, and at the directives in the outline. It reports issues.
The identity of a rule is the text of its id. A rule is on by default only if it says so with
the truth value itself.
-/

namespace RegionScope

open RegionScope.Text

/-- What rules look at; the directives stand in document order. -/
structure Context where
  path : Option String
  text : List Char
  lines : LineIndex
  tree : Tree
  directives : List Nat

namespace Context

/-- The context of a text: its outline and all directives in it. -/
def ofText (path : Option String) (text : List Char) : Context :=
  let lines := LineIndex.ofText text
  let tree := Source.outlineWith lines text
  ⟨path, text, lines, tree, tree.directivesBelow 0⟩

/-- The directive that node `i` is, with what the node shows. -/
def directive? (context : Context) (i : Nat) : Option (DirectiveKind × Label) := do
  let label ← context.tree.label? i
  let kind ← label.kind.directive?
  return (kind, label)

end Context

/-- A rule with its metadata, each of which may be missing and of any kind. -/
structure Rule where
  id : Option Json
  name : Option Json
  defaultEnabled : Option Json
  run : Context → List Issue

namespace Rule

/-- The text by which a rule is known. -/
def key (rule : Rule) : String := (rule.id.getD .null).display

/-- Whether a rule is on unless it is disabled. -/
def isDefault (rule : Rule) : Bool :=
  match rule.defaultEnabled with
  | some (.bool b) => b
  | _ => false

end Rule

/-- The issues of a list of rules, each stamped with the id of its rule, sorted by line and
message. -/
def runRules (context : Context) (rules : List Rule) : List Issue :=
  Issue.sort (rules.flatMap fun rule => (rule.run context).map (Issue.stamp rule.key))

/-- The issues of a text. -/
def lintText (rules : List Rule) (path : Option String) (text : List Char) : List Issue :=
  runRules (.ofText path text) rules

/-- The issues of a text under a bound on nested calls. -/
def lintTextWithin (calls : Nat) (rules : List Rule) (path : Option String) (text : List Char) :
    Except Failure (List Issue) :=
  if Source.callDepth text ≤ calls then .ok (lintText rules path text)
  else .error (.tooDeep .literals)

end RegionScope
