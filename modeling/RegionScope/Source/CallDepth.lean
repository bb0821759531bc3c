import RegionScope.Source.Outline

/-!
# How deep literals are nested

A string may hold literals in its holes, and these may hold further ones. Whoever passes over a
string by a call makes a call more for each literal in a hole, while the call for the string
around it waits. A host that nests calls only up to a bound has an outline for a text whose
literals need no more of them, and for no other.
-/

namespace RegionScope.Source

open RegionScope.Text

/-- How many calls are nested for the literals in the holes of a string, from within it on, at
`depth` open braces. -/
def textCalls (style : StringStyle) (depth : Nat) : List Char → Nat
  | [] => 0
  | c :: cs =>
    let move := stringMove style depth c cs
    let others := match move.2 with
      | none => 0
      | some depth' => textCalls style depth' (cs.drop (move.1 - 1))
    let quote := afterSigils (c :: cs)
    if depth = 0 then others
    else if startsString (c :: cs) then
      max (if startsRaw quote then 1
        else 1 + textCalls (.ofSigils (sigils (c :: cs))) 0 (quote.drop 1)) others
    else if c = '\'' then max 1 others
    else others
termination_by cs => cs.length
decreasing_by
  all_goals simp only [List.length_cons, List.length_drop]
  all_goals first
    | omega
    | exact length_afterSigils_cons c cs

/-- How many calls are nested for the string at the head of a text, its own among them. -/
def stringCalls (cs : List Char) : Nat :=
  if startsRaw (afterSigils cs) then 1
  else 1 + textCalls (.ofSigils (sigils cs)) 0 ((afterSigils cs).drop 1)

/-- How many calls are nested for a token of a text. -/
def Token.calls (text : List Char) (token : Token) : Nat :=
  match token.lexeme with
  | .stringLiteral => stringCalls (text.drop token.start)
  | .charLiteral => 1
  | _ => 0

/-- How many calls are nested for the literals of a text at the deepest place. -/
def callDepth (text : List Char) : Nat :=
  (lex text).foldr (fun token deepest => max (token.calls text) deepest) 0

/-- The outline of a text under a bound on nested calls. -/
def outlineWithin? (calls : Nat) (lines : LineIndex) (text : List Char) : Option Tree :=
  if callDepth text ≤ calls then some (outlineWith lines text) else none

end RegionScope.Source
