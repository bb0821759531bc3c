import RegionScope.Text.Blank
import RegionScope.Text.Word

/-!
# Places in a text

A place is a position between two characters, seen as the character before it, if there is
one, and the text after it. Searches ask whether some place of a text meets a test. A word
stands at a place when the character before is no word character and the text after begins
with the word; a whole word is moreover not followed by a word character.

The end of a text is the place behind its last character, and also the place just before a
newline that is the last character.
-/

namespace RegionScope.Text

/-- Whether some place of the text, which stands after `prev`, meets the test. -/
def anyPlace (test : Option Char → List Char → Bool) (prev : Option Char) : List Char → Bool
  | [] => test prev []
  | c :: cs => test prev (c :: cs) || anyPlace test (some c) cs

/-- The text before the first place that meets the test, all of it if none does. -/
def beforePlace (test : Option Char → List Char → Bool) (prev : Option Char) :
    List Char → List Char
  | [] => []
  | c :: cs => if test prev (c :: cs) then [] else c :: beforePlace test (some c) cs

/-- What follows `word` at the head of a text that begins with it. -/
def afterWord? : List Char → List Char → Option (List Char)
  | [], cs => some cs
  | _ :: _, [] => none
  | w :: ws, c :: cs => if w = c then afterWord? ws cs else none

/-- Whether only the end of the text follows. -/
def isEnd : List Char → Bool
  | [] => true
  | c :: cs => c == '\n' && cs.isEmpty

/-- Whether a word character follows. -/
def wordFollows (cs : List Char) : Bool := cs.head?.any isWord

/-- Whether a name follows, with or without an at sign. -/
def nameFollows : List Char → Bool
  | [] => false
  | c :: cs => if c = '@' then cs.head?.any isNameStart else isNameStart c

/-- The test that no word character stands before and the text after begins with `word`,
followed by what `rest` accepts. -/
def wordThen (word : String) (rest : List Char → Bool) (prev : Option Char)
    (cs : List Char) : Bool :=
  !prev.any isWord && (afterWord? word.toList cs).any rest

/-- Whether the text begins with `word` as a whole word. -/
def startsWholeWord (word : String) (cs : List Char) : Bool :=
  (afterWord? word.toList cs).any fun rest => !wordFollows rest

/-- Whether the text holds `word` as a whole word. -/
def hasWord (word : String) (cs : List Char) : Bool :=
  anyPlace (wordThen word fun rest => !wordFollows rest) none cs

/-- Whether the text ends with `word`, no word character before it. -/
def endsWithWord (word : String) (cs : List Char) : Bool :=
  anyPlace (wordThen word isEnd) none cs

/-- Whether `word`, blanks and a name stand somewhere in the text. -/
def hasDeclaration (word : String) (cs : List Char) : Bool :=
  anyPlace (wordThen word fun rest => rest.head?.any isBlank && nameFollows (skipBlanks rest))
    none cs

/-- The text before `word` as a whole word. -/
def beforeWord (word : String) (cs : List Char) : List Char :=
  beforePlace (wordThen word fun rest => !wordFollows rest) none cs

end RegionScope.Text
