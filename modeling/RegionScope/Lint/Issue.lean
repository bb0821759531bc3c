import RegionScope.Json.Display

/-!
# Issues

An issue is what a rule reports: fields in order, of which severity, message, line and
plugin have a meaning. Rules may report further fields and values of any kind, so issues
are kept as they are given.
-/

namespace RegionScope

/-- A reported issue. -/
structure Issue where
  fields : Json.Fields

namespace Issue

/-- An issue of a severity and a message, with the line and the plugin that are given. -/
def make (severity message : String) (line : Option Int) (plugin : Option String) : Issue :=
  ⟨[("severity", .str severity), ("message", .str message)] ++
    (line.map fun n => ("line", Json.int n)).toList ++
    (plugin.map fun id => ("plugin", Json.str id)).toList⟩

/-- The value of a field. -/
def get? (issue : Issue) (key : String) : Option Json := issue.fields.get? key

/-- The issue with the plugin `id`, unless it names one. -/
def stamp (id : String) (issue : Issue) : Issue :=
  ⟨issue.fields.setIfMissing "plugin" (.str id)⟩

/-- The issue with the path of its file. -/
def withFile (path : String) (issue : Issue) : Issue := ⟨issue.fields.set "file" (.str path)⟩

/-- The text of the message, empty if there is none. -/
def messageText (issue : Issue) : String := ((issue.get? "message").getD (.str "")).display

/-- The line by which issues are sorted. An issue without a line comes last. -/
def sortLine (issue : Issue) : Int := ((issue.get? "line").bind (·.integer?)).getD 1000000000

/-- Whether `a` may stand before `b`: by line, then by message. -/
def le (a b : Issue) : Bool :=
  decide (a.sortLine < b.sortLine) ||
    (a.sortLine == b.sortLine && decide (a.messageText ≤ b.messageText))

/-- Issues by line and message; those that agree in both keep their order. -/
def sort (issues : List Issue) : List Issue := issues.mergeSort le

/-- Whether an issue is an error; any other is a warning. -/
def isError (issue : Issue) : Bool :=
  match issue.get? "severity" with
  | some (.str severity) => severity == "ERROR"
  | _ => false

/-- The numbers of errors and of warnings. -/
def count (issues : List Issue) : Nat × Nat :=
  (issues.countP isError, issues.countP fun issue => !issue.isError)

/-- The issue on one line of text: the file, its line if that is an integer, the severity,
the plugin if it is to be shown and named, and the message. -/
def format (path : String) (showPlugin : Bool) (issue : Issue) : String :=
  let severity := ((issue.get? "severity").getD (.str "WARNING")).display
  let plugin := match issue.get? "plugin" with
    | some id => if showPlugin && id.truthy then "(" ++ id.display ++ ")" else ""
    | none => ""
  let line := match issue.get? "line" with
    | some (.int n) => ":" ++ (Json.int n).display
    | some (.bool b) => ":" ++ (Json.bool b).display
    | _ => ""
  path ++ line ++ ": " ++ severity ++ plugin ++ ": " ++ issue.messageText

end Issue

end RegionScope
