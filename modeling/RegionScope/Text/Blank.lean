import RegionScope.Text.CharRange

/-!
# Blanks

The blank characters, trimming, and the collapse of blank runs. A text is collapsed when
it neither begins nor ends with a blank and every inner run of blanks is one space.
`collapse` is what splitting at blank runs and joining with single spaces gives.
-/

namespace RegionScope.Text

/-- The blank code points: tab to carriage return, the four separators and space, and the
spaces and line separators beyond ASCII. The zero width space and the byte order mark are
no blanks. -/
def blankRanges : List CharRange :=
  [(0x09, 0x0D), (0x1C, 0x20), (0x85, 0x85), (0xA0, 0xA0), (0x1680, 0x1680),
   (0x2000, 0x200A), (0x2028, 0x2029), (0x202F, 0x202F), (0x205F, 0x205F), (0x3000, 0x3000)]

/-- Whether `c` is a blank. -/
def isBlank (c : Char) : Bool := inRanges blankRanges c

/-- The text without its leading blanks. -/
def skipBlanks (cs : List Char) : List Char := cs.dropWhile isBlank

/-- The text without its trailing blanks. -/
def dropTrailingBlanks : List Char → List Char
  | [] => []
  | c :: cs =>
    match dropTrailingBlanks cs with
    | [] => if isBlank c then [] else [c]
    | d :: ds => c :: d :: ds

/-- The text without leading and trailing blanks. -/
def trim (cs : List Char) : List Char := dropTrailingBlanks (skipBlanks cs)

/-- Puts `c` in front of a collapsed text, a blank as one space unless the text is empty
or begins with a space already. -/
def squeezeOnto (c : Char) (rest : List Char) : List Char :=
  if isBlank c then
    match rest with
    | [] => []
    | d :: ds => if d = ' ' then d :: ds else ' ' :: d :: ds
  else c :: rest

/-- Every run of blanks as one space, a final run dropped. -/
def squeeze (cs : List Char) : List Char := cs.foldr squeezeOnto []

/-- The blank-separated words of the text, joined by single spaces. -/
def collapse (cs : List Char) : List Char := squeeze (skipBlanks cs)

/-- The string without leading and trailing blanks. -/
def trimString (s : String) : String := String.ofList (trim s.toList)

end RegionScope.Text
