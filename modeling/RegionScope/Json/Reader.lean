import RegionScope.Json.Value

/-!
# Reading values

The reader accepts one value with blanks around it. Besides the standard forms it accepts
`NaN`, `Infinity` and `-Infinity`. A number without fraction and exponent is an integer, which
is refused if it has too many digits. Strings hold no raw control characters; two escaped
surrogates in a row that belong together are one character, and a document with a surrogate alone
is refused.

Nested values are read with fuel, one unit for each step down or along. Every step takes at
least one character, so the length of the text is always enough.
-/

namespace RegionScope.Json

/-- The blanks that may stand between the parts of a value. -/
def isGap (c : Char) : Bool := c == ' ' || c == '\t' || c == '\n' || c == '\r'

/-- The text without its leading blanks. -/
def skipGaps (cs : List Char) : List Char := cs.dropWhile isGap

/-! ## Strings -/

/-- The value of a hexadecimal digit. -/
def hexDigit? (c : Char) : Option Nat :=
  if '0' ≤ c ∧ c ≤ '9' then some (c.toNat - 48)
  else if 'a' ≤ c ∧ c ≤ 'f' then some (c.toNat - 87)
  else if 'A' ≤ c ∧ c ≤ 'F' then some (c.toNat - 55)
  else none

/-- The value of four hexadecimal digits. -/
def hexUnit? (a b c d : Char) : Option Nat := do
  let a ← hexDigit? a
  let b ← hexDigit? b
  let c ← hexDigit? c
  let d ← hexDigit? d
  return ((a * 16 + b) * 16 + c) * 16 + d

/-- The character of an escape of one letter. -/
def escapeChar? (c : Char) : Option Char :=
  [('"', '"'), ('\\', '\\'), ('/', '/'), ('b', Char.ofNat 8), ('f', Char.ofNat 12), ('n', '\n'),
   ('r', '\r'), ('t', '\t')].lookup c

/-- The code units of a string from behind its opening quote, and what follows the closing
one. -/
def readUnits : List Char → Option (List Nat × List Char)
  | [] => none
  | c :: cs =>
    if c = '"' then some ([], cs)
    else if c = '\\' then
      match cs with
      | [] => none
      | e :: rest =>
        if e = 'u' then
          match rest with
          | a :: b :: c :: d :: rest => do
            let unit ← hexUnit? a b c d
            let (units, rest) ← readUnits rest
            return (unit :: units, rest)
          | _ => none
        else do
          let unit ← escapeChar? e
          let (units, rest) ← readUnits rest
          return (unit.toNat :: units, rest)
    else if c.toNat < 32 then none
    else do
      let (units, rest) ← readUnits cs
      return (c.toNat :: units, rest)

/-- The character of a code unit that stands alone; none if it is a surrogate. -/
def charOfUnit? (unit : Nat) : Option Char :=
  if 0xD800 ≤ unit ∧ unit < 0xE000 then none else some (Char.ofNat unit)

/-- The characters of code units, a high surrogate joined with a low one behind it. -/
def charsOfUnits? : List Nat → Option (List Char)
  | [] => some []
  | [unit] => (charOfUnit? unit).map ([·])
  | high :: low :: rest =>
    if 0xD800 ≤ high ∧ high < 0xDC00 ∧ 0xDC00 ≤ low ∧ low < 0xE000 then
      (charsOfUnits? rest).map
        (Char.ofNat (0x10000 + (high - 0xD800) * 0x400 + (low - 0xDC00)) :: ·)
    else do
      let first ← charOfUnit? high
      let others ← charsOfUnits? (low :: rest)
      return first :: others

/-- A string from behind its opening quote, and what follows it. -/
def readString (cs : List Char) : Option (String × List Char) := do
  let (units, rest) ← readUnits cs
  let chars ← charsOfUnits? units
  return (String.ofList chars, rest)

/-! ## Numbers -/

/-- The number that decimal digits write. -/
def ofDigits (digits : List Char) : Nat :=
  digits.foldl (fun n c => n * 10 + (c.toNat - 48)) 0

/-- The digits of an integral part: a zero alone, or digits that do not begin with one. -/
def readWhole (cs : List Char) : Option (List Char × List Char) :=
  match cs with
  | [] => none
  | c :: rest =>
    if c = '0' then some (['0'], rest)
    else if c.isDigit then some (cs.takeWhile Char.isDigit, cs.dropWhile Char.isDigit)
    else none

/-- The digits behind a point, if a point and a digit follow. -/
def readFraction (cs : List Char) : Option (List Char × List Char) :=
  match cs with
  | '.' :: rest =>
    if rest.head?.any Char.isDigit then
      some (rest.takeWhile Char.isDigit, rest.dropWhile Char.isDigit)
    else none
  | _ => none

/-- The exponent, if its mark and a digit follow. -/
def readExponent (cs : List Char) : Option (Int × List Char) :=
  match cs with
  | c :: rest =>
    if c = 'e' ∨ c = 'E' then
      let signed := rest.head?.any fun s => s == '+' || s == '-'
      let digits := if signed then rest.drop 1 else rest
      if digits.head?.any Char.isDigit then
        let size : Int := ofDigits (digits.takeWhile Char.isDigit)
        some (if rest.head? = some '-' then -size else size, digits.dropWhile Char.isDigit)
      else none
    else none
  | [] => none

/-- A number, its sign read already. -/
def readNumber (negative : Bool) (cs : List Char) : Option (Json × List Char) := do
  let (whole, rest) ← readWhole cs
  let fraction := readFraction rest
  let afterFraction := (fraction.map (·.2)).getD rest
  let exponent := readExponent afterFraction
  if fraction.isNone && exponent.isNone then
    let size : Int := ofDigits whole
    if mostDigits < whole.length then none
    else return (int (if negative then -size else size), rest)
  else
    let places := (fraction.map (·.1)).getD []
    let power := (exponent.map (·.1)).getD 0
    let value := Binary64.ofDecimal negative (ofDigits (whole ++ places)) (power - places.length)
    return (float value, (exponent.map (·.2)).getD afterFraction)

/-! ## Values -/

/-- What follows `word` at the head of a text. -/
def after? (word : String) (cs : List Char) : Option (List Char) :=
  if word.toList.isPrefixOf cs then some (cs.drop word.length) else none

/-- The words that stand for a value. -/
def readWord (cs : List Char) : Option (Json × List Char) :=
  [("null", null), ("true", bool true), ("false", bool false), ("NaN", float .nan),
   ("Infinity", float (.infinite false)), ("-Infinity", float (.infinite true))].findSome?
    fun entry => (after? entry.1 cs).map fun rest => (entry.2, rest)

/-- Expects the character `c` and drops it. -/
def expect (c : Char) (cs : List Char) : Option (List Char) :=
  match cs with
  | [] => none
  | d :: rest => if d = c then some rest else none

mutual

/-- A value at the head of the text. -/
def readValue : Nat → List Char → Option (Json × List Char)
  | 0, _ => none
  | fuel + 1, cs =>
    match cs with
    | [] => none
    | c :: rest =>
      if c = '"' then (readString rest).map fun r => (str r.1, r.2)
      else if c = '[' then
        match skipGaps rest with
        | ']' :: rest => some (arr [], rest)
        | _ => (readItems fuel (skipGaps rest)).map fun r => (arr r.1, r.2)
      else if c = '{' then
        match skipGaps rest with
        | '}' :: rest => some (obj [], rest)
        | _ => (readMembers fuel (skipGaps rest)).map fun r => (obj (Fields.ofPairs r.1), r.2)
      else
        match readWord cs with
        | some r => some r
        | none => if c = '-' then readNumber true rest else readNumber false cs

/-- The items of a list, up to and with its closing bracket. -/
def readItems : Nat → List Char → Option (List Json × List Char)
  | 0, _ => none
  | fuel + 1, cs => do
    let (item, rest) ← readValue fuel cs
    match skipGaps rest with
    | ']' :: rest => return ([item], rest)
    | ',' :: rest =>
      let (items, rest) ← readItems fuel (skipGaps rest)
      return (item :: items, rest)
    | _ => none

/-- The members of an object, up to and with its closing brace. -/
def readMembers : Nat → List Char → Option (List (String × Json) × List Char)
  | 0, _ => none
  | fuel + 1, cs => do
    let (key, rest) ← readString (← expect '"' cs)
    let (value, rest) ← readValue fuel (skipGaps (← expect ':' (skipGaps rest)))
    match skipGaps rest with
    | '}' :: rest => return ([(key, value)], rest)
    | ',' :: rest =>
      let (members, rest) ← readMembers fuel (skipGaps rest)
      return ((key, value) :: members, rest)
    | _ => none

end

/-- The value that a text holds; none if the text is no value with blanks around it. -/
def read? (text : List Char) : Option Json :=
  match readValue (text.length + 1) (skipGaps text) with
  | some (value, rest) => if (skipGaps rest).isEmpty then some value else none
  | none => none

end RegionScope.Json
