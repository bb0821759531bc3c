import RegionScope.Proofs.Source.CheckedLiterals
import RegionScope.Proofs.Source.OpenNodes
import RegionScope.Proofs.Source.StatementKeywords

/-!
# The pass over a text as a loop that may fail

The pass is a loop over the offsets of a text. Here it keeps the open nodes and the counts of
parentheses around them on two stacks of their own, and fails where it looks at or takes from a
stack that is empty, finds a keyword without an entry in the table, or meets a literal whose end is
not found. From every state of the outline one round takes one token, as the outline does, unless
the literals of the token are nested deeper than calls may be (`round?_scannerAt`). So the loop
reaches the end of the text in no more rounds than the text has characters, and fails exactly if
the literals of the text are nested that deep (`scanner_total`). A bound of a thousand calls is
passed by a text of three thousand characters (`scan?_of_nestedStrings`).
-/

namespace RegionScope.Source

open RegionScope.Text

variable {lines : LineIndex} {text : List Char} {calls : Nat}

/-! ## Reading a token -/

/-- The lexeme that begins with `c` at `pos`, and the offset behind it. -/
def readToken? (calls : Nat) (text : List Char) (atStart : Bool) (pos : Nat) (c : Char) :
    Option (Lexeme × Nat) :=
  match nextLexeme atStart c (text.drop (pos + 1)) with
  | (.stringLiteral, _) =>
    (stringEnd? text calls (2 * text.length + 1) pos).map (.stringLiteral, ·)
  | (.charLiteral, _) => (charEnd? text calls text.length pos).map (.charLiteral, ·)
  | (lexeme, n) => some (lexeme, pos + 1 + n)

/-- The lexeme at an offset is read exactly if calls may be nested as deep as it needs. -/
theorem readToken?_eq {atStart : Bool} {pos n : Nat} {c : Char} {lexeme : Lexeme}
    (hc : text[pos]? = some c) (hnext : nextLexeme atStart c (text.drop (pos + 1)) = (lexeme, n)) :
    readToken? calls text atStart pos c =
      if Token.calls text ⟨pos, lexeme⟩ ≤ calls then some (lexeme, pos + 1 + n) else none := by
  rw [readToken?, hnext]
  cases lexeme with
  | stringLiteral =>
    obtain ⟨hstring, hextent⟩ := nextLexeme_stringLiteral hnext
    rw [← drop_eq_cons_of_getElem? hc] at hstring hextent
    dsimp only [Token.calls]
    rw [stringEnd?_eq calls hstring (by omega), ← hextent, Nat.add_assoc]
    exact apply_ite (Option.map (Lexeme.stringLiteral, ·)) _ _ _
  | charLiteral =>
    dsimp only [Token.calls]
    rw [charEnd?_eq calls (List.getElem?_eq_some_iff.1 hc).1 (Nat.sub_le _ _),
      nextLexeme_charLiteral hnext]
    exact apply_ite (Option.map (Lexeme.charLiteral, ·)) _ _ _
  | _ => exact (if_pos (Nat.zero_le calls)).symm

/-! ## The loop -/

/-- The state of the loop. `stack` holds the open nodes, the innermost one first, and `saved` the
open parentheses of all of them but the innermost one. -/
structure Scanner where
  pos : Nat
  atStart : Bool
  tree : Tree
  stack : List Nat
  saved : List Nat
  parens : Nat
  header : List Char
  headerStart : Option Nat
  pending : List PendingDirective

namespace Scanner

/-- The state in front of the first round. -/
def start : Scanner where
  pos := 0
  atStart := true
  tree := Tree.empty.add ⟨.compilationUnit, 0, 1, ""⟩ none
  stack := [0]
  saved := []
  parens := 0
  header := []
  headerStart := none
  pending := []

/-- Takes the text of a significant token into the header. -/
def addText (token : List Char) (s : Scanner) : Scanner :=
  { s with header := token.reverse ++ s.header, headerStart := s.headerStart <|> some s.pos }

/-- Ends the header. -/
def endHeader (s : Scanner) : Scanner := { s with header := [], headerStart := none }

/-- Takes a code character that is no brace. -/
def addCode (c : Char) (s : Scanner) : Scanner :=
  if c = ';' ∧ s.parens = 0 then s.endHeader
  else if c = '(' then addText [c] { s with parens := s.parens + 1 }
  else if c = ')' then addText [c] { s with parens := s.parens - 1 }
  else s.addText [c]

/-- Adds the waiting directives to the node on the top of the stack. -/
def flush? (lines : LineIndex) (s : Scanner) : Option Scanner :=
  s.stack.head?.map fun node =>
    { s with tree := s.pending.foldl (Outline.addDirective lines node) s.tree, pending := [] }

/-- Opens a node below the one on the top of the stack. -/
def openBrace? (lines : LineIndex) (s : Scanner) : Option Scanner :=
  s.stack.head?.bind fun parent =>
    let header := normalHeader s.header.reverse
    (headerKind? ((s.tree.kind? parent).getD .compilationUnit) header).map fun kind =>
      let ownerStart := s.headerStart.getD s.pos
      let owner := s.tree.size
      let tree := s.tree.add ⟨kind, ownerStart, lines.line ownerStart, String.ofList header⟩
        (some parent)
      let opened : Nat × Tree :=
        if kind.ownsBlock then
          (owner + 1, tree.add ⟨.block, s.pos, lines.line s.pos, ""⟩ (some owner))
        else (owner, tree)
      endHeader
        { s with tree := s.pending.foldl (Outline.addDirective lines opened.1) opened.2,
                 stack := opened.1 :: s.stack, saved := s.parens :: s.saved, parens := 0,
                 pending := [] }

/-- Closes the node on the top of the stack, unless it is the last one there. -/
def closeBrace? (s : Scanner) : Option Scanner :=
  if 1 < s.stack.length then
    match s.stack, s.saved with
    | _ :: stack, parens :: saved => some { s with stack, saved, parens }.endHeader
    | _, _ => none
  else some s.endHeader

/-- Takes a lexeme that begins at the offset of the state. -/
def take? (lines : LineIndex) (lexeme : Lexeme) (s : Scanner) : Option Scanner :=
  match lexeme with
  | .newline | .blank | .blockComment => some { s with header := ' ' :: s.header }
  | .lineComment => some s
  | .directive line => some { s with pending := s.pending ++ [⟨s.pos, line⟩] }
  | .stringLiteral => (s.flush? lines).map (addText ['"', '"'])
  | .charLiteral => (s.flush? lines).map (addText ['\'', '\''])
  | .code c =>
    if c = '{' then s.openBrace? lines
    else if c = '}' then (s.flush? lines).bind closeBrace?
    else (s.flush? lines).map (addCode c)

/-- One round of the loop. At the end of the text nothing is left to do. -/
def round? (calls : Nat) (lines : LineIndex) (text : List Char) (s : Scanner) : Option Scanner :=
  match text[s.pos]? with
  | none => some s
  | some c =>
    (readToken? calls text s.atStart s.pos c).bind fun (lexeme, next) =>
      (s.take? lines lexeme).map fun s' =>
        { s' with pos := next, atStart := lexeme.leavesAtStart s.atStart }

/-- The state after a number of rounds. -/
def rounds? (calls : Nat) (lines : LineIndex) (text : List Char) : Nat → Option Scanner
  | 0 => some start
  | n + 1 => (rounds? calls lines text n).bind (round? calls lines text)

/-- The tree at the end of the text, which the loop has to have reached. -/
def finish? (lines : LineIndex) (text : List Char) (s : Scanner) : Option Tree :=
  if text.length ≤ s.pos then (s.flush? lines).map (·.tree) else none

end Scanner

/-- The outline of a text by the loop, with as many rounds as the text has characters. -/
def scan? (calls : Nat) (lines : LineIndex) (text : List Char) : Option Tree :=
  (Scanner.rounds? calls lines text text.length).bind (Scanner.finish? lines text)

/-! ## Rounds of the loop and steps of the outline -/

/-- The state of the loop at `pos` that stands for a state of the outline. -/
def Outline.scannerAt (pos : Nat) (atStart : Bool) (s : Outline) : Scanner where
  pos := pos
  atStart := atStart
  tree := s.tree
  stack := s.openNodes
  saved := s.outer.map (·.parens)
  parens := s.level.parens
  header := s.header
  headerStart := s.headerStart
  pending := s.pending

namespace Outline

variable {s : Outline} {pos : Nat} {atStart : Bool}

/-- There is one open node more than counts of parentheses. -/
theorem length_stack_scannerAt :
    (s.scannerAt pos atStart).stack.length = (s.scannerAt pos atStart).saved.length + 1 := by
  show s.openNodes.length = (s.outer.map _).length + 1
  rw [length_openNodes, List.length_map]

theorem flush?_scannerAt :
    (s.scannerAt pos atStart).flush? lines = some ((s.flush lines).scannerAt pos atStart) := rfl

theorem openBrace?_scannerAt : (s.scannerAt pos atStart).openBrace? lines =
    some ((s.openBrace lines pos).scannerAt pos atStart) := by
  have htop : (s.scannerAt pos atStart).stack.head? = some s.level.node := rfl
  rw [Scanner.openBrace?, htop, Option.bind_some]
  dsimp only
  rw [headerKind?_eq]
  rfl

theorem closeBrace?_scannerAt :
    (s.scannerAt pos atStart).closeBrace? = some (s.closeBrace.scannerAt pos atStart) := by
  obtain ⟨tree, level, outer, header, headerStart, pending⟩ := s
  cases outer with
  | nil => rfl
  | cons around outer => rfl

theorem addCode_scannerAt (c : Char) :
    (s.scannerAt pos atStart).addCode c = (s.addCode pos c).scannerAt pos atStart := by
  rw [Scanner.addCode, Outline.addCode, countParen]
  by_cases hend : c = ';' ∧ s.level.parens = 0
  · rw [if_pos hend, if_pos (by exact hend)]
    rfl
  · rw [if_neg hend, if_neg (by exact hend)]
    split
    · rfl
    · split <;> rfl

/-- A lexeme is taken as the outline takes the token. -/
theorem take?_scannerAt (lexeme : Lexeme) : (s.scannerAt pos atStart).take? lines lexeme =
    some ((s.step lines ⟨pos, lexeme⟩).scannerAt pos atStart) := by
  cases lexeme with
  | code c =>
    rw [Scanner.take?]
    by_cases hopen : c = '\x7b'
    · subst hopen
      rw [if_pos rfl, step_open]
      exact openBrace?_scannerAt
    by_cases hclose : c = '\x7d'
    · subst hclose
      rw [if_neg hopen, if_pos rfl, step_close, flush?_scannerAt, Option.bind_some]
      exact closeBrace?_scannerAt
    rw [if_neg hopen, if_neg hclose, step_other hopen hclose, flush?_scannerAt, Option.map_some,
      addCode_scannerAt]
  | _ => rfl

theorem pos_scannerAt : (s.scannerAt pos atStart).pos = pos := rfl

/-- A round takes the token at its offset exactly if calls may be nested as deep as it needs. -/
theorem round?_scannerAt {c : Char} {lexeme : Lexeme} {n : Nat} (hc : text[pos]? = some c)
    (hnext : nextLexeme atStart c (text.drop (pos + 1)) = (lexeme, n)) :
    (s.scannerAt pos atStart).round? calls lines text =
      if Token.calls text ⟨pos, lexeme⟩ ≤ calls then
        some ((s.step lines ⟨pos, lexeme⟩).scannerAt (pos + 1 + n) (lexeme.leavesAtStart atStart))
      else none := by
  have hread : readToken? calls text (s.scannerAt pos atStart).atStart pos c =
      if Token.calls text ⟨pos, lexeme⟩ ≤ calls then some (lexeme, pos + 1 + n) else none :=
    readToken?_eq hc hnext
  rw [Scanner.round?, pos_scannerAt, hc]
  dsimp only
  rw [hread]
  split
  · rw [Option.bind_some]
    dsimp only
    rw [take?_scannerAt]
    rfl
  · rfl

/-- At the end of the text nothing is left to do. -/
theorem round?_scannerAt_of_le (h : text.length ≤ pos) :
    (s.scannerAt pos atStart).round? calls lines text = some (s.scannerAt pos atStart) := by
  rw [Scanner.round?, pos_scannerAt, List.getElem?_eq_none h]

/-- A round in front of the end of the text advances. -/
theorem lt_pos_of_round?_scannerAt (h : pos < text.length) {next : Scanner}
    (hround : (s.scannerAt pos atStart).round? calls lines text = some next) : pos < next.pos := by
  obtain ⟨c, hc⟩ : ∃ c, text[pos]? = some c := ⟨_, List.getElem?_eq_getElem h⟩
  obtain ⟨lexeme, n, hnext⟩ : ∃ lexeme n,
      nextLexeme atStart c (text.drop (pos + 1)) = (lexeme, n) := ⟨_, _, rfl⟩
  rw [round?_scannerAt hc hnext] at hround
  split at hround
  · cases hround
    rw [pos_scannerAt]
    omega
  · cases hround

end Outline

/-! ## The whole loop -/

/-- Some rounds take the first tokens of the text and stand in front of the others, unless one of
the tokens needs more calls than may be nested. -/
theorem rounds?_cases (calls : Nat) (lines : LineIndex) (text : List Char) (n : Nat) :
    (∃ pos atStart before, (lex text = before ++ lexFrom pos atStart (text.drop pos) ∧
        ∀ token ∈ before, token.calls text ≤ calls) ∧
      Scanner.rounds? calls lines text n =
        some ((Outline.run lines before).scannerAt pos atStart) ∧
      min n text.length ≤ pos) ∨
    Scanner.rounds? calls lines text n = none ∧ calls < callDepth text := by
  induction n with
  | zero => exact .inl ⟨0, true, [], ⟨rfl, by simp⟩, rfl, Nat.min_le_left 0 _⟩
  | succ n ih =>
    rcases ih with ⟨pos, atStart, before, ⟨htokens, hcalls⟩, hrounds, hpos⟩ | ⟨hrounds, hdeep⟩
    · rw [Scanner.rounds?, hrounds, Option.bind_some]
      cases hc : text[pos]? with
      | none =>
        have hle := List.getElem?_eq_none_iff.1 hc
        exact .inl ⟨pos, atStart, before, ⟨htokens, hcalls⟩,
          Outline.round?_scannerAt_of_le hle, by omega⟩
      | some c =>
        obtain ⟨lexeme, m, hnext⟩ : ∃ lexeme m,
            nextLexeme atStart c (text.drop (pos + 1)) = (lexeme, m) := ⟨_, _, rfl⟩
        rw [drop_eq_cons_of_getElem? hc, lexFrom_cons, hnext, List.drop_drop] at htokens
        rw [Outline.round?_scannerAt hc hnext]
        by_cases hfits : Token.calls text ⟨pos, lexeme⟩ ≤ calls
        · refine .inl ⟨pos + 1 + m, lexeme.leavesAtStart atStart, before ++ [⟨pos, lexeme⟩],
            ⟨?_, ?_⟩, ?_, ?_⟩
          · rw [htokens, List.append_assoc, List.singleton_append]
          · intro token htoken
            rcases List.mem_append.1 htoken with hbefore | hlast
            · exact hcalls token hbefore
            · rwa [List.mem_singleton.1 hlast]
          · rw [if_pos hfits, Outline.run, Outline.run, List.foldl_append]
            rfl
          · omega
        · refine .inr ⟨if_neg hfits, Nat.lt_of_not_le fun hdepth => hfits ?_⟩
          apply callDepth_le_iff.1 hdepth
          rw [htokens]
          exact List.mem_append_right _ List.mem_cons_self
    · exact .inr ⟨by rw [Scanner.rounds?, hrounds]; rfl, hdeep⟩

/-- The loop builds the outline exactly if calls may be nested as deep as the text needs. -/
theorem scan?_eq (calls : Nat) (lines : LineIndex) (text : List Char) :
    scan? calls lines text = outlineWithin? calls lines text := by
  rw [scan?, outlineWithin?]
  rcases rounds?_cases calls lines text text.length with
    ⟨pos, atStart, before, ⟨htokens, hcalls⟩, hrounds, hpos⟩ | ⟨hrounds, hdeep⟩
  · have hle : text.length ≤ pos := by omega
    rw [List.drop_eq_nil_of_le hle, lexFrom_nil, List.append_nil] at htokens
    rw [if_pos (callDepth_le_iff.2 (htokens ▸ hcalls)), hrounds, Option.bind_some,
      Scanner.finish?, Outline.pos_scannerAt, if_pos hle, Outline.flush?_scannerAt, outlineWith,
      htokens]
    rfl
  · rw [if_neg (Nat.not_le_of_lt hdeep), hrounds]
    rfl

/-- Every number of rounds ends well exactly if calls may be nested as deep as the text needs. -/
theorem exists_rounds?_iff (lines : LineIndex) :
    (∀ n, ∃ s, Scanner.rounds? calls lines text n = some s) ↔ callDepth text ≤ calls := by
  constructor
  · intro hrounds
    obtain ⟨s, hs⟩ := hrounds text.length
    rcases rounds?_cases calls lines text text.length with
      ⟨pos, atStart, before, ⟨htokens, hcalls⟩, -, hpos⟩ | ⟨hnone, -⟩
    · have hle : text.length ≤ pos := by omega
      rw [List.drop_eq_nil_of_le hle, lexFrom_nil, List.append_nil] at htokens
      exact callDepth_le_iff.2 (htokens ▸ hcalls)
    · rw [hnone] at hs
      cases hs
  · intro hdepth n
    rcases rounds?_cases calls lines text n with ⟨pos, atStart, before, -, hrounds, -⟩ | ⟨-, hdeep⟩
    · exact ⟨_, hrounds⟩
    · exact absurd hdepth (Nat.not_le_of_lt hdeep)

theorem stringExtent?_eq {pos : Nat} (h : startsString (text.drop pos) = true) :
    stringExtent? (text.drop pos) = some (stringExtent (text.drop pos)) := by
  rw [stringExtent?, if_neg]
  exact fun hempty => afterSigils_ne_nil h (List.isEmpty_iff.1 hempty)

/-- The scanner is total, but for calls that are nested too deep, and always advances. The rounds of
its loop end well exactly if calls may be nested as deep as the literals of the text are, and then
as many rounds as the text has characters build the outline. No text needs calls that are nested
deeper than a third of its length. In front of every round the stack of open nodes is one longer
than the stack of counts, and a round in front of the end of the text goes on. Every keyword that a
header begins with has an entry in the table. Wherever a string begins or a single quote stands, in
a hole of another string too, the literal is read with as many rounds as two for each character that
is left, if calls may be nested as deep as it needs; it takes a character at least, and ends no
further than one character behind the end of the text, and this only behind a backslash. -/
theorem scanner_total (calls : Nat) (lines : LineIndex) (text : List Char) :
    (((∀ n, ∃ s, Scanner.rounds? calls lines text n = some s) ↔ callDepth text ≤ calls) ∧
      scan? calls lines text =
        (if callDepth text ≤ calls then some (outlineWith lines text) else none) ∧
      3 * callDepth text ≤ text.length + 2) ∧
    (∀ n s, Scanner.rounds? calls lines text n = some s →
      s.stack.length = s.saved.length + 1 ∧
      (s.pos < text.length → ∀ s', s.round? calls lines text = some s' → s.pos < s'.pos)) ∧
    (∀ header keyword, statementKeyword? header = some keyword →
      (statementKind? keyword).isSome = true) ∧
    (∀ pos, startsString (text.drop pos) = true → ∃ extent,
      stringExtent? (text.drop pos) = some extent ∧
      (∀ fuel, 2 * (text.length - pos) < fuel → stringEnd? text calls fuel pos =
        if stringCalls (text.drop pos) ≤ calls then some (pos + extent) else none) ∧
      pos < pos + extent ∧ pos + extent ≤ text.length + 1 ∧
      (pos + extent = text.length + 1 → text.getLast? = some '\\')) ∧
    (∀ pos, text[pos]? = some '\'' →
      (∀ fuel, text.length - pos ≤ fuel → charEnd? text calls fuel pos =
        if 1 ≤ calls then some (pos + charExtent (text.drop pos)) else none) ∧
      pos < pos + charExtent (text.drop pos) ∧
      pos + charExtent (text.drop pos) ≤ text.length + 1 ∧
      (pos + charExtent (text.drop pos) = text.length + 1 → text.getLast? = some '\\')) := by
  refine ⟨⟨exists_rounds?_iff lines, scan?_eq calls lines text, callDepth_le text⟩, ?_,
    fun header keyword => isSome_statementKind?_of_keyword, ?_, ?_⟩
  · intro n s hs
    rcases rounds?_cases calls lines text n with ⟨pos, atStart, before, -, hrounds, -⟩ | ⟨hnone, -⟩
    · rw [hrounds] at hs
      cases hs
      exact ⟨Outline.length_stack_scannerAt,
        fun hlt s' hround => Outline.lt_pos_of_round?_scannerAt hlt hround⟩
    · rw [hnone] at hs
      cases hs
  · intro pos hstring
    exact ⟨stringExtent (text.drop pos), stringExtent?_eq hstring,
      fun fuel hfuel => stringEnd?_eq calls hstring hfuel, isLiteralEnd_string hstring⟩
  · intro pos hquote
    have hlt := (List.getElem?_eq_some_iff.1 hquote).1
    rw [charExtent, List.drop_drop, ← Nat.add_assoc]
    exact ⟨fun fuel hfuel => charEnd?_eq calls hlt hfuel, isLiteralEnd_char hlt⟩

/-- A thousand strings that are opened one in the hole of the other need more calls than 999, so the
text has no outline where no more of them may be nested. -/
theorem scan?_of_nestedStrings :
    (nestedStrings 1000).length = 3000 ∧
      scan? 999 (.ofText (nestedStrings 1000)) (nestedStrings 1000) = none := by
  have hlength : ∀ n, (nestedStrings n).length = 3 * n := by
    intro n
    induction n with
    | zero => rfl
    | succ n ih =>
      rw [nestedStrings, List.length_cons, List.length_cons, List.length_cons, ih]
      omega
  have hdeep := le_callDepth_nestedStrings 1000
  refine ⟨hlength 1000, ?_⟩
  rw [scan?_eq, outlineWithin?, if_neg (by omega)]

end RegionScope.Source
