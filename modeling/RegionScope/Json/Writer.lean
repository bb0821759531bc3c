import RegionScope.Failure
import RegionScope.Json.Value

/-!
# Writing values

The written form holds printable ASCII alone: any other character is escaped by its code units,
four hexadecimal digits each. A laid-out value has every item and every field on a line of
its own, two spaces deeper than the list or object around it; an empty list or object
stays on one line. A compact value stands on one line without blanks.
-/

namespace RegionScope.Json

open RegionScope.Text

/-- The escape of a code unit. -/
def escapeUnit (unit : Nat) : List Char := '\\' :: 'u' :: hexDigits 4 unit

/-- One character of a written string. -/
def writeChar (c : Char) : List Char :=
  if c = '"' ∨ c = '\\' then ['\\', c]
  else if c = '\n' then ['\\', 'n']
  else if c = '\r' then ['\\', 'r']
  else if c = '\t' then ['\\', 't']
  else if c.toNat = 8 then ['\\', 'b']
  else if c.toNat = 12 then ['\\', 'f']
  else if 32 ≤ c.toNat ∧ c.toNat < 127 then [c]
  else if c.toNat < 0x10000 then escapeUnit c.toNat
  else
    escapeUnit (0xD800 + (c.toNat - 0x10000) / 0x400) ++
      escapeUnit (0xDC00 + (c.toNat - 0x10000) % 0x400)

/-- A written string. -/
def writeString (s : String) : String :=
  String.ofList ('"' :: s.toList.flatMap writeChar ++ ['"'])

/-- A written floating point number. -/
def writeFloat : Binary64 → String
  | .nan => "NaN"
  | .infinite negative => if negative then "-Infinity" else "Infinity"
  | x => x.toText

/-- How the parts of a value are set apart: what stands before every item at a depth, what
stands behind the last, and what stands behind a key. -/
structure Spacing where
  before : Nat → String
  colon : String

/-- Every item on a line of its own. -/
def Spacing.lines : Spacing where
  before depth := "\n" ++ String.ofList (List.replicate (2 * depth) ' ')
  colon := ": "

/-- No blanks. -/
def Spacing.none : Spacing where
  before _ := ""
  colon := ":"

mutual

/-- The written form of a value at a depth. -/
def write (spacing : Spacing) (depth : Nat) : Json → String
  | null => "null"
  | bool b => if b then "true" else "false"
  | int i => toString i
  | float x => writeFloat x
  | str s => writeString s
  | arr items =>
    if items.isEmpty then "[]"
    else
      "[" ++ ",".intercalate (writeItems spacing (depth + 1) items) ++ spacing.before depth ++ "]"
  | obj fields =>
    if fields.isEmpty then "\x7b\x7d"
    else
      "\x7b" ++ ",".intercalate (writeFields spacing (depth + 1) fields) ++
        spacing.before depth ++ "\x7d"
  | foreign _ => ""

/-- The written items of a list, each with what stands before it. -/
def writeItems (spacing : Spacing) (depth : Nat) : List Json → List String
  | [] => []
  | item :: rest =>
    (spacing.before depth ++ write spacing depth item) :: writeItems spacing depth rest

/-- The written fields of an object, each with what stands before it. -/
def writeFields (spacing : Spacing) (depth : Nat) : List (String × Json) → List String
  | [] => []
  | (key, value) :: rest =>
    (spacing.before depth ++ writeString key ++ spacing.colon ++ write spacing depth value) ::
      writeFields spacing depth rest

end

/-! ## Values that are refused -/

mutual

/-- Why a value is refused where lists and objects may be nested to a depth; none if it is
written. -/
def fault? (depth : Nat) : Json → Option Failure
  | arr items => if depth = 0 then some (.tooDeep .values) else faultOfItems? (depth - 1) items
  | obj fields => if depth = 0 then some (.tooDeep .values) else faultOfFields? (depth - 1) fields
  | foreign value => some (.unwritable value.refusal)
  | _ => none

/-- Why a list of items is refused. -/
def faultOfItems? (depth : Nat) : List Json → Option Failure
  | [] => none
  | item :: rest => fault? depth item <|> faultOfItems? depth rest

/-- Why the fields of an object are refused. -/
def faultOfFields? (depth : Nat) : List (String × Json) → Option Failure
  | [] => none
  | (_, value) :: rest => fault? depth value <|> faultOfFields? depth rest

end

/-- The value laid out on lines. -/
def layOut (value : Json) : String := value.write .lines 0

/-- The value on one line. -/
def compact (value : Json) : String := value.write .none 0

end RegionScope.Json
