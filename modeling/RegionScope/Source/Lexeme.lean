import RegionScope.Text.Blank
import RegionScope.Source.Literal

/-!
# Lexemes of a source text

A text is cut into lexemes from left to right: newlines, other blanks, directive lines,
comments, string and character literals, and single characters of code. What a lexeme is
depends only on the text from there on and on whether a directive may begin there, that is
whether nothing but blanks and directives stands before it on its line. Braces, headers
and pending directives play no part here.

`lex` is the list of all tokens, each with the offset of its first character. Every step
of `lex` takes at least one character, so the list is finite for every text.
-/

namespace RegionScope.Source

open RegionScope.Text

/-- The kinds of lexeme, with the text of a directive line and the character of a code
lexeme. -/
inductive Lexeme where
  | newline
  | blank
  | directive (line : List Char)
  | lineComment
  | blockComment
  | stringLiteral
  | charLiteral
  | code (c : Char)
deriving DecidableEq, Repr

/-- Code characters and literals are significant: they decide what surrounds them. -/
def Lexeme.isSignificant : Lexeme → Bool
  | .stringLiteral | .charLiteral | .code _ => true
  | _ => false

/-- Whether a directive may begin after the lexeme, if `atStart` says so for before it.
Only a newline lets one begin; blanks change nothing. -/
def Lexeme.leavesAtStart (atStart : Bool) : Lexeme → Bool
  | .newline => true
  | .blank | .directive _ => atStart
  | _ => false

/-- The text up to the end of its line, without the newline. -/
def restOfLine (cs : List Char) : List Char := cs.takeWhile (· != '\n')

/-- Extent of the rest of a block comment after its opening mark. -/
def commentTail : List Char → Nat
  | [] => 0
  | c :: cs => if c = '*' ∧ cs.head? = some '/' then 2 else 1 + commentTail cs

/-- The lexeme at the head of the text `c :: cs`, and how many characters of `cs` belong to it. -/
def nextLexeme (atStart : Bool) (c : Char) (cs : List Char) : Lexeme × Nat :=
  if c = '\n' then (.newline, 0)
  else if isBlank c then (.blank, 0)
  else if atStart && c == '#' then
    (.directive (c :: restOfLine cs), (restOfLine cs).length)
  else if c = '/' ∧ cs.head? = some '/' then (.lineComment, (restOfLine cs).length)
  else if c = '/' ∧ cs.head? = some '*' then (.blockComment, 1 + commentTail (cs.drop 1))
  else if startsString (c :: cs) then (.stringLiteral, stringExtent (c :: cs) - 1)
  else if c = '\'' then (.charLiteral, charTail cs)
  else (.code c, 0)

/-- A lexeme with the offset at which it starts. -/
structure Token where
  start : Nat
  lexeme : Lexeme
deriving DecidableEq, Repr

/-- The tokens of a text that begins at offset `pos`. -/
def lexFrom (pos : Nat) (atStart : Bool) : List Char → List Token
  | [] => []
  | c :: cs =>
    let next := nextLexeme atStart c cs
    ⟨pos, next.1⟩ ::
      lexFrom (pos + 1 + next.2) (next.1.leavesAtStart atStart) (cs.drop next.2)
termination_by cs => cs.length
decreasing_by simp only [List.length_cons, List.length_drop]; omega

theorem lexFrom_nil (pos : Nat) (atStart : Bool) : lexFrom pos atStart [] = [] := by
  rw [lexFrom]

/-- The first token, and the tokens behind it. -/
theorem lexFrom_cons (pos : Nat) (atStart : Bool) (c : Char) (cs : List Char) :
    lexFrom pos atStart (c :: cs) =
      ⟨pos, (nextLexeme atStart c cs).1⟩ ::
        lexFrom (pos + 1 + (nextLexeme atStart c cs).2)
          ((nextLexeme atStart c cs).1.leavesAtStart atStart)
          (cs.drop (nextLexeme atStart c cs).2) := by
  rw [lexFrom]

/-- The tokens of a text. -/
def lex (text : List Char) : List Token := lexFrom 0 true text

end RegionScope.Source
