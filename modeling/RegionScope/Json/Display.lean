import RegionScope.Json.Value
import RegionScope.Text.Quoted

/-!
# Values as shown in messages

A string is shown as it is, and every other value by its literal form: capitalised words
for null and the truth values, lists in square brackets, objects in braces, items
separated by a comma and a space. Inside lists and objects strings are quoted.
-/

namespace RegionScope.Json

open RegionScope.Text

mutual

/-- The literal form of a value. -/
def literal : Json → String
  | null => "None"
  | bool b => if b then "True" else "False"
  | int i => toString i
  | float x => x.toText
  | str s => quoteString s
  | arr items => "[" ++ ", ".intercalate (literalItems items) ++ "]"
  | obj fields => "\x7b" ++ ", ".intercalate (literalFields fields) ++ "\x7d"
  | foreign value => value.literal

/-- The literal forms of the items of a list. -/
def literalItems : List Json → List String
  | [] => []
  | item :: rest => literal item :: literalItems rest

/-- The literal forms of the fields of an object. -/
def literalFields : List (String × Json) → List String
  | [] => []
  | (key, value) :: rest => (quoteString key ++ ": " ++ literal value) :: literalFields rest

end

/-- The text of a value in a message. -/
def display : Json → String
  | str s => s
  | foreign value => value.text
  | value => value.literal

end RegionScope.Json
