import Mathlib.Data.List.Induction
import Mathlib.Data.List.TakeWhile
import RegionScope.Proofs.Segments
import RegionScope.Proofs.Source.Bodies
import RegionScope.Proofs.Source.Openings
import RegionScope.Proofs.Source.RightEdge
import RegionScope.Proofs.Source.Tokens

/-!
# The open nodes during a pass

In front of every offset of a text the pass is in a state (`upTo`) with a stack of open nodes and
their open parentheses. An opening brace adds one level to the stack, a closing one takes one away,
and any other token counts on the innermost level if it is a parenthesis (`levels_of_neither`). So
where the stack comes back to its height and never falls below it the braces match
(`balanced_of_outer`). A header that has not started holds nothing but blanks (`headerBlank_run`).
-/

namespace RegionScope.Source.Outline

open RegionScope.Text RegionScope.Tree

/-- The state of the pass over a text in front of offset `pos`. -/
def upTo (text : List Char) (pos : Nat) : Outline :=
  run (.ofText text) ((lex text).takeWhile fun token => decide (token.start < pos))

/-- The open nodes, the innermost one first. -/
def openNodes (s : Outline) : List Nat := (s.level :: s.outer).map (·.node)

/-- Whether no parenthesis is open and no header has started. -/
def isIdle (s : Outline) : Bool := s.level.parens == 0 && s.headerStart.isNone

variable {lines : LineIndex} {s : Outline} {text : List Char}

theorem length_openNodes (s : Outline) : s.openNodes.length = s.outer.length + 1 := by
  rw [openNodes, List.length_map, List.length_cons]

theorem isIdle_iff : s.isIdle = true ↔ s.level.parens = 0 ∧ s.headerStart = none := by
  rw [isIdle, Bool.and_eq_true, beq_iff_eq, Option.isNone_iff_eq_none]

/-- Up to an offset the pass has taken the tokens in front of it. -/
theorem upTo_eq_run {before after : List Token} {pos : Nat} (h : lex text = before ++ after)
    (hbefore : ∀ token ∈ before, token.start < pos) (hafter : ∀ token ∈ after, pos ≤ token.start) :
    upTo text pos = run (.ofText text) before := by
  have htake : before.takeWhile (fun token => decide (token.start < pos)) = before :=
    List.takeWhile_eq_self_iff.2 fun token htoken => decide_eq_true (hbefore token htoken)
  have hnone : after.takeWhile (fun token => decide (token.start < pos)) = [] := by
    cases after with
    | nil => rfl
    | cons token after =>
      have := hafter token List.mem_cons_self
      rw [List.takeWhile_cons_of_neg (by simpa using this)]
  rw [upTo, h, List.takeWhile_append, htake, if_pos rfl, hnone, List.append_nil]

/-- Up to a token the pass has taken the tokens before it. -/
theorem upTo_start {before after : List Token} {token : Token}
    (h : lex text = before ++ token :: after) :
    upTo text token.start = run (.ofText text) before := by
  obtain ⟨hbefore, hafter⟩ := start_lt_of_lex_eq h
  exact upTo_eq_run h hbefore (List.forall_mem_cons.2
    ⟨Nat.le_refl _, fun other hother => Nat.le_of_lt (hafter other hother)⟩)

/-- Behind a token the pass has taken it and the tokens before it. -/
theorem upTo_behind {before after : List Token} {token : Token}
    (h : lex text = before ++ token :: after) :
    upTo text (token.start + 1) = run (.ofText text) (before ++ [token]) := by
  obtain ⟨hbefore, hafter⟩ := start_lt_of_lex_eq h
  refine upTo_eq_run (by simp [h]) (fun other hother => ?_) hafter
  rcases List.mem_append.1 hother with hother | hother
  · exact Nat.lt_succ_of_lt (hbefore other hother)
  · rw [List.mem_singleton.1 hother]
    exact Nat.lt_succ_self _

/-! ## What a token does to the stack -/

/-- The open parentheses behind a token on the level of the token, `depth` in front of it; a closing
one beyond the open ones does not count. -/
def parenStep (depth : Nat) (token : Token) : Nat :=
  if token.lexeme = .code '(' then depth + 1
  else if token.lexeme = .code ')' then depth - 1
  else depth

/-- An opening brace opens a level without parentheses. -/
theorem levels_of_opensBrace (lines : LineIndex) (s : Outline) {token : Token}
    (h : token.opensBrace = true) :
    (s.step lines token).level.parens = 0 ∧ (s.step lines token).outer = s.level :: s.outer := by
  obtain ⟨pos, lexeme⟩ := token
  obtain rfl : lexeme = .code '\x7b' := Token.opensBrace_iff.1 h
  -- a block stands in the place of its owner, so one level is added all the same
  rw [step_open, openBrace_eq]
  show (s.enter lines pos).level.parens = 0 ∧ (s.enter lines pos).outer = s.level :: s.outer
  unfold enter
  split <;> exact ⟨rfl, rfl⟩

/-- A closing brace comes back to the level around the innermost one. -/
theorem levels_of_closesBrace (lines : LineIndex) {s : Outline} {token : Token}
    (h : token.closesBrace = true) {level : Level} {outer : List Level}
    (houter : s.outer = level :: outer) :
    (s.step lines token).level = level ∧ (s.step lines token).outer = outer := by
  obtain ⟨pos, lexeme⟩ := token
  obtain rfl : lexeme = .code '\x7d' := Token.closesBrace_iff.1 h
  rw [step_close, closeBrace, show (s.flush lines).outer = s.outer from rfl, houter]
  exact ⟨rfl, rfl⟩

/-- A closing brace leaves the last level as it is. -/
theorem levels_of_closesBrace_last (lines : LineIndex) {s : Outline} {token : Token}
    (h : token.closesBrace = true) (houter : s.outer = []) :
    (s.step lines token).level = s.level ∧ (s.step lines token).outer = [] := by
  obtain ⟨pos, lexeme⟩ := token
  obtain rfl : lexeme = .code '\x7d' := Token.closesBrace_iff.1 h
  rw [step_close, closeBrace, show (s.flush lines).outer = s.outer from rfl, houter]
  exact ⟨rfl, houter⟩

theorem levels_addCode (pos : Nat) (c : Char) (s : Outline) :
    (s.addCode pos c).level = ⟨s.level.node, parenStep s.level.parens ⟨pos, .code c⟩⟩ ∧
      (s.addCode pos c).outer = s.outer := by
  unfold addCode
  split
  · next hend =>
    obtain ⟨rfl, -⟩ := hend
    exact ⟨rfl, rfl⟩
  · show (s.countParen c).level = _ ∧ (s.countParen c).outer = s.outer
    unfold countParen parenStep
    by_cases hopen : c = '('
    · rw [if_pos hopen, if_pos (congrArg Lexeme.code hopen)]
      exact ⟨rfl, rfl⟩
    · rw [if_neg hopen, if_neg (mt Lexeme.code.inj hopen)]
      by_cases hclose : c = ')'
      · rw [if_pos hclose, if_pos (congrArg Lexeme.code hclose)]
        exact ⟨rfl, rfl⟩
      · rw [if_neg hclose, if_neg (mt Lexeme.code.inj hclose)]
        exact ⟨rfl, rfl⟩

/-- A token that is no brace counts on the innermost level if it is a parenthesis. -/
theorem levels_of_neither (lines : LineIndex) (s : Outline) {token : Token}
    (hopens : token.opensBrace = false) (hcloses : token.closesBrace = false) :
    (s.step lines token).level = ⟨s.level.node, parenStep s.level.parens token⟩ ∧
      (s.step lines token).outer = s.outer := by
  obtain ⟨pos, lexeme⟩ := token
  cases lexeme with
  | code c =>
    have hopen : c ≠ '\x7b' := by simpa [Token.opensBrace] using hopens
    have hclose : c ≠ '\x7d' := by simpa [Token.closesBrace] using hcloses
    rw [step_other hopen hclose]
    exact levels_addCode pos c (s.flush lines)
  | _ => exact ⟨rfl, rfl⟩

/-! ## The height of the stack -/

/-- A brace adds a node to the stack or takes one away. -/
theorem length_outer_step (s : Outline) (token : Token)
    (hclose : token.closesBrace = true → 0 < s.outer.length) :
    ((s.step lines token).outer.length : Int) = s.outer.length +
      if token.opensBrace then 1 else if token.closesBrace then -1 else 0 := by
  cases hopens : token.opensBrace with
  | true =>
    rw [(levels_of_opensBrace lines s hopens).2]
    rfl
  | false =>
    cases hcloses : token.closesBrace with
    | true =>
      obtain ⟨level, outer, houter⟩ := List.exists_cons_of_length_pos (hclose hcloses)
      rw [(levels_of_closesBrace lines hcloses houter).2, houter, List.length_cons]
      simp only [Bool.false_eq_true, if_false, if_true]
      omega
    | false =>
      rw [(levels_of_neither lines s hopens hcloses).2]
      exact (Int.add_zero _).symm

/-- The root is open below all other nodes. -/
theorem getLast?_openNodes (lines : LineIndex) (tokens : List Token) :
    (run lines tokens).openNodes.getLast? = some 0 := by
  have hinvariant : Frontier.TreeInvariant lines
      fun _ node around => (node :: around).getLast? = some 0 := by
    constructor
    · rfl
    · exact fun _ _ _ _ h => h
    · exact fun _ _ _ _ _ _ h _ _ => h
    · exact fun _ _ _ _ _ _ _ h _ _ => h
    · exact fun _ _ _ _ h => h
  exact hinvariant.at_end tokens

/-- Around a node in a block some other node is open. -/
theorem outer_pos_of_block {tokens : List Token} {b : Nat}
    (hmem : b ∈ (run lines tokens).tree.lineage (run lines tokens).level.node)
    (hblock : (run lines tokens).tree.kind? b = some .block) :
    0 < (run lines tokens).outer.length := by
  apply Nat.pos_of_ne_zero
  intro hlength
  have hlast := getLast?_openNodes lines tokens
  rw [openNodes, List.eq_nil_of_length_eq_zero hlength] at hlast
  -- only the root is open, which is no block and has nothing above it
  rw [show (run lines tokens).level.node = 0 from Option.some.inj hlast] at hmem
  obtain rfl : b = 0 := Nat.le_zero.1 (le_of_mem_lineage hmem)
  have hroot := ((WellKinded.treeInvariant lines).at_end tokens).root
  exact absurd (hroot.symm.trans hblock) (by simp)

/-- Where the stack comes back to its height and never falls below it the braces match. -/
theorem balanced_of_outer {tokens : List Token} (hpos : 0 < s.outer.length)
    (hstays : ∀ front back, tokens = front ++ back →
      s.outer.length ≤ (front.foldl (step lines) s).outer.length)
    (hend : (tokens.foldl (step lines) s).outer.length = s.outer.length) :
    Brackets.BalancedFrom Token.opensBrace Token.closesBrace 0 tokens := by
  -- the height of the stack in front of each token tells how many braces are open there
  have hheight : ∀ front back, tokens = front ++ back →
      ((front.foldl (step lines) s).outer.length : Int) =
        s.outer.length + Brackets.excess Token.opensBrace Token.closesBrace front := by
    intro front
    induction front using List.reverseRecOn with
    | nil =>
      intro back _
      exact (Int.add_zero _).symm
    | append_singleton front token ih =>
      intro back hsplit
      rw [List.append_assoc, List.singleton_append] at hsplit
      have hfront := hstays front _ hsplit
      have hnil : Brackets.excess Token.opensBrace Token.closesBrace [] = 0 := rfl
      rw [List.foldl_append, List.foldl_cons, List.foldl_nil,
        length_outer_step _ token fun _ => by omega, ih _ hsplit, Brackets.excess_append,
        Brackets.excess_cons, hnil, Int.zero_add, Int.add_assoc]
  constructor
  · have := hheight tokens [] (List.append_nil tokens).symm
    omega
  · intro front back hsplit
    have := hheight front back hsplit
    have := hstays front back hsplit
    omega

/-! ## Headers -/

theorem orElse_some_ne_none (start : Option Nat) (pos : Nat) : (start <|> some pos) ≠ none := by
  cases start <;> nofun

/-- A literal starts a header. -/
theorem headerStart_step_ne_none {token : Token}
    (h : token.lexeme = .stringLiteral ∨ token.lexeme = .charLiteral) :
    (s.step lines token).headerStart ≠ none := by
  obtain ⟨pos, lexeme⟩ := token
  rcases h with h | h
  · obtain rfl : lexeme = .stringLiteral := h
    exact orElse_some_ne_none s.headerStart pos
  · obtain rfl : lexeme = .charLiteral := h
    exact orElse_some_ne_none s.headerStart pos

/-- Whether the header has started or holds nothing but blanks. -/
def HeaderBlank (s : Outline) : Prop := s.headerStart = none → ∀ c ∈ s.header, c = ' '

theorem HeaderBlank.endHeader (s : Outline) : s.endHeader.HeaderBlank :=
  fun _ _ hc => absurd hc List.not_mem_nil

theorem HeaderBlank.addBlank (h : s.HeaderBlank) : s.addBlank.HeaderBlank := by
  intro hnone c hc
  rcases List.mem_cons.1 hc with rfl | hc
  · rfl
  · exact h hnone c hc

theorem HeaderBlank.closeBrace (s : Outline) : s.closeBrace.HeaderBlank := by
  unfold Outline.closeBrace
  split <;> exact HeaderBlank.endHeader _

theorem HeaderBlank.addCode (s : Outline) (pos : Nat) (c : Char) :
    (s.addCode pos c).HeaderBlank := by
  unfold Outline.addCode
  split
  · exact HeaderBlank.endHeader s
  · intro hnone
    exact absurd hnone (orElse_some_ne_none _ pos)

theorem HeaderBlank.step (h : s.HeaderBlank) (token : Token) :
    (s.step lines token).HeaderBlank := by
  obtain ⟨pos, lexeme⟩ := token
  cases lexeme with
  | newline => exact h.addBlank
  | blank => exact h.addBlank
  | blockComment => exact h.addBlank
  | lineComment => exact h
  | directive line => exact h
  | stringLiteral => exact fun hnone => absurd hnone (headerStart_step_ne_none (.inl rfl))
  | charLiteral => exact fun hnone => absurd hnone (headerStart_step_ne_none (.inr rfl))
  | code c =>
    by_cases hopens : c = '\x7b'
    · subst hopens
      rw [step_open, openBrace_eq]
      exact HeaderBlank.endHeader _
    by_cases hcloses : c = '\x7d'
    · subst hcloses
      exact HeaderBlank.closeBrace _
    rw [step_other hopens hcloses]
    exact HeaderBlank.addCode _ pos c

/-- A header that has not started holds nothing but blanks. -/
theorem headerBlank_run (lines : LineIndex) (tokens : List Token) :
    (run lines tokens).HeaderBlank := by
  induction tokens using List.reverseRecOn with
  | nil => exact fun _ _ hc => absurd hc List.not_mem_nil
  | append_singleton tokens token ih =>
    rw [run, List.foldl_append]
    exact ih.step token

end RegionScope.Source.Outline
