import RegionScope.Text.LineIndex
import RegionScope.Tree.Basic
import RegionScope.Directive.Line
import RegionScope.Source.Lexeme
import RegionScope.Source.HeaderKind

/-!
# Outline of a source text

The outline is the tree of the brace structure of a text, built in one pass over its
tokens. An opening brace opens a node whose kind is read off its header, and below it a
block if the kind owns one; a closing brace closes the innermost open node, if one is open
besides the root. A semicolon outside parentheses ends a header, as both braces do.
Parentheses are counted for each open node by itself, so that the semicolons in the head of
a loop do not end it.

A directive belongs to the node that owns the next significant token: to the node that an
opening brace opens, otherwise to the innermost open node; at the end of the text too.
-/

namespace RegionScope.Source

open RegionScope.Text

/-- An open node and the parentheses that are open in it. -/
structure Level where
  node : Nat
  parens : Nat
deriving DecidableEq, Repr

/-- A directive line that waits for the next significant token. -/
structure PendingDirective where
  start : Nat
  line : List Char
deriving DecidableEq, Repr

/-- The state of the pass: the tree so far, the innermost open level and those around it,
the header so far (latest character first) with the offset of its first significant token,
and the directives that wait. -/
structure Outline where
  tree : Tree
  level : Level
  outer : List Level
  header : List Char
  headerStart : Option Nat
  pending : List PendingDirective

namespace Outline

/-- Before the first token only the root is open. -/
def start : Outline where
  tree := Tree.empty.add ⟨.compilationUnit, 0, 1, ""⟩ none
  level := ⟨0, 0⟩
  outer := []
  header := []
  headerStart := none
  pending := []

/-- Adds a waiting directive to the tree as a child of `node`. -/
def addDirective (lines : LineIndex) (node : Nat) (tree : Tree) (d : PendingDirective) : Tree :=
  let content := Directive.read d.line
  tree.add ⟨.directive content.1, d.start, lines.line d.start, String.ofList content.2⟩ (some node)

/-- Adds all waiting directives to `node`. -/
def flushTo (lines : LineIndex) (node : Nat) (s : Outline) : Outline :=
  { s with tree := s.pending.foldl (addDirective lines node) s.tree, pending := [] }

/-- Adds all waiting directives to the innermost open node. -/
def flush (lines : LineIndex) (s : Outline) : Outline := s.flushTo lines s.level.node

/-- Takes a blank into the header. -/
def addBlank (s : Outline) : Outline := { s with header := ' ' :: s.header }

/-- Takes the text of a significant token that starts at `pos` into the header. -/
def addText (pos : Nat) (text : List Char) (s : Outline) : Outline :=
  { s with header := text.reverse ++ s.header, headerStart := s.headerStart <|> some pos }

/-- Ends the header. -/
def endHeader (s : Outline) : Outline := { s with header := [], headerStart := none }

/-- Counts a parenthesis of the innermost open node; a closing one beyond the open ones
does not count. -/
def countParen (c : Char) (s : Outline) : Outline :=
  if c = '(' then { s with level := { s.level with parens := s.level.parens + 1 } }
  else if c = ')' then { s with level := { s.level with parens := s.level.parens - 1 } }
  else s

/-- Opens a node at the brace at `pos`. -/
def openBrace (lines : LineIndex) (pos : Nat) (s : Outline) : Outline :=
  let header := normalHeader s.header.reverse
  let context := (s.tree.kind? s.level.node).getD .compilationUnit
  let kind := headerKind context header
  let ownerStart := s.headerStart.getD pos
  let owner := s.tree.size
  let tree := s.tree.add ⟨kind, ownerStart, lines.line ownerStart, String.ofList header⟩
    (some s.level.node)
  let opened : Nat × Tree :=
    if kind.ownsBlock then (owner + 1, tree.add ⟨.block, pos, lines.line pos, ""⟩ (some owner))
    else (owner, tree)
  (flushTo lines opened.1
    { s with tree := opened.2, level := ⟨opened.1, 0⟩, outer := s.level :: s.outer }).endHeader

/-- Closes the innermost open node, unless it is the root. -/
def closeBrace (s : Outline) : Outline :=
  match s.outer with
  | [] => s.endHeader
  | level :: outer => { s with level, outer }.endHeader

/-- Takes a code character that is no brace. -/
def addCode (pos : Nat) (c : Char) (s : Outline) : Outline :=
  if c = ';' ∧ s.level.parens = 0 then s.endHeader
  else (s.countParen c).addText pos [c]

/-- Takes one token. -/
def step (lines : LineIndex) (s : Outline) (token : Token) : Outline :=
  match token.lexeme with
  | .newline | .blank | .blockComment => s.addBlank
  | .lineComment => s
  | .directive line => { s with pending := s.pending ++ [⟨token.start, line⟩] }
  | .stringLiteral => (s.flush lines).addText token.start ['"', '"']
  | .charLiteral => (s.flush lines).addText token.start ['\'', '\'']
  | .code c =>
    if c = '{' then s.openBrace lines token.start
    else if c = '}' then (s.flush lines).closeBrace
    else (s.flush lines).addCode token.start c

/-- The state after a list of tokens. -/
def run (lines : LineIndex) (tokens : List Token) : Outline := tokens.foldl (step lines) start

end Outline

/-- The outline of a text whose lines are looked up in `lines`. -/
def outlineWith (lines : LineIndex) (text : List Char) : Tree :=
  ((Outline.run lines (lex text)).flush lines).tree

/-- The outline of a text. Its root is node 0. -/
def outline (text : List Char) : Tree := outlineWith (.ofText text) text

end RegionScope.Source
