import RegionScope.Text.Blank
import RegionScope.Directive.Kind

/-!
# Directive lines

A directive line is a hash sign, blanks, a keyword of ASCII letters, spaces or tabs, and a
name up to the end of the line or a carriage return. A keyword outside the table is part
of the name. A line without a keyword has all of its text as the name. In every case the
name is trimmed, and a trailing comment is cut off with the blanks before it.
-/

namespace RegionScope.Directive

open RegionScope.Text

/-- The text before the first two slashes in a row, all of it if there are none. -/
def beforeComment : List Char → List Char
  | [] => []
  | c :: cs => if c = '/' ∧ cs.head? = some '/' then [] else c :: beforeComment cs

/-- The name without a trailing comment. A name that holds no comment is left as it is. -/
def cutComment (cs : List Char) : List Char :=
  if (beforeComment cs).length = cs.length then cs else dropTrailingBlanks (beforeComment cs)

/-- The blanks within a line that may stand between a keyword and a name. -/
def isGap (c : Char) : Bool := c == ' ' || c == '\t'

/-- Kind and name of the directive whose line, hash sign left out, is `rest`. -/
def readAfterHash (rest : List Char) : DirectiveKind × List Char :=
  let body := skipBlanks rest
  let keyword := body.takeWhile Char.isAlpha
  if keyword.isEmpty then (.other, cutComment (trim rest))
  else
    let tail := (body.dropWhile Char.isAlpha).dropWhile isGap
    let name := trim (tail.takeWhile fun c => c != '\r' && c != '\n')
    match DirectiveKind.ofKeyword? (String.ofList keyword) with
    | some kind => (kind, cutComment name)
    | none => (.other, cutComment (trim (keyword ++ ' ' :: name)))

/-- Kind and name of the directive that a line holds. -/
def read (line : List Char) : DirectiveKind × List Char := readAfterHash (line.drop 1)

end RegionScope.Directive
