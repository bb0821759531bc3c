import RegionScope.Proofs.Source.Scans
import RegionScope.Proofs.Source.SketchRuns

/-!
# Lines put into a statement

Lines of a text may be put between the braces of a statement, once or several times (`nest`). The
tokens are then those of the lines at their new places and, around them, those of the statements
(`scans_nest`). In a body the statements make no difference to directives: their braces open nodes
of the same body and close them again (`Inside.run_nest`).
-/

namespace RegionScope.Source

open RegionScope.Text RegionScope.Tree

/-! ## Nested lines -/

/-- What stands before lines that are put into a statement. -/
def nestHead : List Char := "if (x)\n\x7b\n".toList

/-- What stands behind them. -/
def nestFoot : List Char := "\x7d\n".toList

/-- Lines put into `n` statements, one inside of the other. -/
def nest : Nat → List Char → List Char
  | 0, mid => mid
  | n + 1, mid => nestHead ++ nest n mid ++ nestFoot

theorem length_nest (n : Nat) (mid : List Char) : (nest n mid).length = mid.length + 11 * n := by
  induction n with
  | zero => rfl
  | succ n ih =>
    have hhead : nestHead.length = 9 := rfl
    have hfoot : nestFoot.length = 2 := rfl
    rw [nest, List.length_append, List.length_append, ih, hhead, hfoot]
    omega

theorem newlines_nest (n : Nat) (mid : List Char) :
    newlines (nest n mid) = newlines mid + 3 * n := by
  induction n with
  | zero => rfl
  | succ n ih =>
    have hhead : newlines nestHead = 2 := rfl
    have hfoot : newlines nestFoot = 1 := rfl
    rw [nest, newlines_append, newlines_append, ih, hhead, hfoot]
    omega

/-- Before a place in the nested lines stand two more lines for each statement. -/
theorem newlines_take_nest (n : Nat) {mid : List Char} {pos : Nat} (h : pos ≤ mid.length) :
    newlines ((nest n mid).take (pos + 9 * n)) = newlines (mid.take pos) + 2 * n := by
  induction n with
  | zero => rfl
  | succ n ih =>
    have hhead : newlines nestHead = 2 := rfl
    have hlength := length_nest n mid
    have htake : (nest (n + 1) mid).take (pos + 9 * (n + 1)) =
        nestHead ++ (nest n mid).take (pos + 9 * n) := by
      rw [nest, List.append_assoc,
        show pos + 9 * (n + 1) = nestHead.length + (pos + 9 * n) by
          rw [show nestHead.length = 9 from rfl]
          omega,
        List.take_length_add_append, List.take_append_of_le_length (by omega)]
    rw [htake, newlines_append, ih, hhead]
    omega

/-! ## Their tokens -/

/-- The tokens before the brace of a statement. -/
def headerTokens : List Token :=
  [⟨0, .code 'i'⟩, ⟨1, .code 'f'⟩, ⟨2, .blank⟩, ⟨3, .code '('⟩, ⟨4, .code 'x'⟩, ⟨5, .code ')'⟩,
    ⟨6, .newline⟩]

/-- The tokens from the brace to the nested lines. -/
def openingTokens : List Token := [⟨7, .code '\x7b'⟩, ⟨8, .newline⟩]

/-- The tokens behind the nested lines. -/
def closingTokens : List Token := [⟨0, .code '\x7d'⟩, ⟨1, .newline⟩]

/-- The tokens of `n` times nested lines that begin at offset `pos`, where the lines have these
`tokens` if they are not nested. -/
def nestTokens (mid : List Char) : Nat → Nat → List Token → List Token
  | 0, _, tokens => tokens
  | n + 1, pos, tokens => (headerTokens ++ openingTokens).map (Token.shift pos) ++
      (nestTokens mid n (pos + 9) (tokens.map (Token.shift 9)) ++
        closingTokens.map (Token.shift (pos + 9 + (nest n mid).length)))

theorem scans_nestHead (after : List Char) (pos : Nat) :
    Scans after pos true nestHead ((headerTokens ++ openingTokens).map (Token.shift pos)) true := by
  have h : Scans after 0 true nestHead (headerTokens ++ openingTokens) true := by
    repeat' refine .cons rfl (Nat.zero_le _) ?_
    exact .nil _ _
  have := h.shift pos
  rwa [Nat.zero_add] at this

theorem scans_nestFoot (after : List Char) (pos : Nat) :
    Scans after pos true nestFoot (closingTokens.map (Token.shift pos)) true := by
  have h : Scans after 0 true nestFoot closingTokens true := by
    repeat' refine .cons rfl (Nat.zero_le _) ?_
    exact .nil _ _
  have := h.shift pos
  rwa [Nat.zero_add] at this

/-- Lines that are scanned alike in front of every text are so when they are nested. -/
theorem scans_nest {pos : Nat} {mid : List Char} {tokens : List Token}
    (h : ∀ after, Scans after pos true mid tokens true) (n : Nat) (after : List Char) :
    Scans after pos true (nest n mid) (nestTokens mid n pos tokens) true := by
  induction n generalizing pos tokens after with
  | zero => exact h after
  | succ n ih =>
    rw [nest, List.append_assoc]
    apply Scans.append (scans_nestHead _ pos)
    apply Scans.append (ih (fun after => (h after).shift 9) (nestFoot ++ after))
    exact scans_nestFoot after _

theorem shift_shift (distance distance' : Nat) (tokens : List Token) :
    (tokens.map (Token.shift distance)).map (Token.shift distance') =
      tokens.map (Token.shift (distance + distance')) := by
  rw [List.map_map]
  apply List.map_congr_left
  intro token _
  simp only [Function.comp_apply, Token.shift, Nat.add_assoc]

theorem shift_zero (tokens : List Token) : tokens.map (Token.shift 0) = tokens :=
  List.map_id'' (fun _ => rfl) tokens

/-! ## Their runs -/

/-- Braces match whatever the offsets are. -/
theorem balancedFrom_shift {tokens : List Token} {depth : Nat}
    (h : Brackets.BalancedFrom Token.opensBrace Token.closesBrace depth tokens) (distance : Nat) :
    Brackets.BalancedFrom Token.opensBrace Token.closesBrace depth
      (tokens.map (Token.shift distance)) := Brackets.balancedFrom_map h

namespace Sketch.Inside

variable {lines : LineIndex} {g : Ground} {known more : List Marker} {σ : Sketch}

/-- Every place inside of a body is a ground on its own. -/
theorem reground {depth : Nat} (h : Inside g depth known σ) :
    Inside ⟨g.body, σ.scope.kind, σ.outer, g.bodies⟩ 0 known σ := by
  refine ⟨h.waiting, h.known, h.bodies, [], rfl, rfl, ?_, rfl⟩
  intro scope hscope
  rw [List.mem_singleton.1 hscope]
  exact h.body_scope

theorem outer_openBrace (σ : Sketch) : σ.openBrace.outer = σ.scope :: σ.outer := by
  unfold Sketch.openBrace enter
  split <;> rfl

/-- Tokens that stay in a body from every place of it do so between the braces of a statement, and
leave the scope as it was. -/
theorem wrap (h : Inside g 0 known σ) {tokens : List Token}
    (htokens : ∀ g' σ', Inside g' 0 known σ' → g'.body = g.body →
      Inside g' 0 (known ++ more) (tokens.foldl (Sketch.step lines) σ')) (pos pos' : Nat) :
    let σ' := ((headerTokens ++ openingTokens).map (Token.shift pos) ++
      (tokens ++ closingTokens.map (Token.shift pos'))).foldl (Sketch.step lines) σ
    Inside g 0 (known ++ more) σ' ∧ σ'.scope = σ.scope ∧ σ'.header = [' '] := by
  intro σ'
  -- in front of the brace nothing is changed but the header
  obtain ⟨σ₁, hσ₁⟩ : ∃ σ₁, (headerTokens.map (Token.shift pos)).foldl (Sketch.step lines) σ = σ₁ :=
    ⟨_, rfl⟩
  have hheader : Inside g 0 known σ₁ := by
    have hbalanced : Brackets.BalancedFrom Token.opensBrace Token.closesBrace 0 headerTokens :=
      Brackets.balancedFrom_zero_of_neither (by decide)
    have hrun := h.run lines (balancedFrom_shift hbalanced pos)
    rw [hσ₁] at hrun
    rwa [show marks lines g.body (headerTokens.map (Token.shift pos)) = [] from rfl,
      List.append_nil] at hrun
  have hscope : σ₁.scope = σ.scope := by
    rw [← hσ₁]
    rfl
  -- the brace opens a ground of its own, and the tokens come back to it
  obtain ⟨σ₃, hσ₃⟩ : ∃ σ₃, tokens.foldl (Sketch.step lines) (σ₁.openBrace.addText [' ']) = σ₃ :=
    ⟨_, rfl⟩
  have hground := htokens _ _ (hheader.openBrace.reground.addText [' ']) rfl
  rw [hσ₃] at hground
  have houter : σ₃.outer = σ₁.scope :: σ₁.outer :=
    hground.of_depth_zero.1.trans (outer_openBrace σ₁)
  -- the closing brace leads back to what was open before the statement
  have hclose : σ₃.closeBrace = { σ₃ with scope := σ₁.scope, outer := σ₁.outer }.endHeader := by
    unfold Sketch.closeBrace
    rw [houter]
  have hσ' : σ' = σ₃.closeBrace.addText [' '] := by
    have hfold : σ' = (σ₃.settle.closeBrace).addText [' '] := by
      simp only [σ', List.map_append, List.foldl_append, hσ₁]
      rw [← hσ₃]
      rfl
    rw [hfold, hground.settle_eq]
  rw [hσ', hclose]
  exact ⟨⟨hground.waiting, hground.known, hground.bodies, hheader.stack⟩, hscope, rfl⟩

/-- Nested tokens only add the directives of the tokens to the body if the braces of these match. -/
theorem run_nest (lines : LineIndex) (h : Inside g 0 known σ) {tokens : List Token}
    (hbalanced : Brackets.BalancedFrom Token.opensBrace Token.closesBrace 0 tokens)
    (mid : List Char) (n pos : Nat) :
    let σ' := (nestTokens mid n pos tokens).foldl (Sketch.step lines) σ
    Inside g 0 (known ++ marks lines g.body (tokens.map (Token.shift (9 * n)))) σ' ∧
      (n ≠ 0 → σ'.scope = σ.scope ∧ σ'.header = [' ']) := by
  -- for every ground, since the statement opens one of its own around what it holds
  induction n generalizing g known σ tokens pos with
  | zero =>
    rw [Nat.mul_zero, shift_zero]
    exact ⟨h.run lines hbalanced, fun hne => absurd rfl hne⟩
  | succ n ih =>
    have htokens : ∀ g' σ', Inside g' 0 known σ' → g'.body = g.body →
        Inside g' 0 (known ++ marks lines g.body (tokens.map (Token.shift (9 * (n + 1)))))
          ((nestTokens mid n (pos + 9) (tokens.map (Token.shift 9))).foldl
            (Sketch.step lines) σ') := by
      intro g' σ' hin hbody
      have hinner := (ih hin (balancedFrom_shift hbalanced 9) (pos + 9)).1
      rwa [shift_shift, show 9 + 9 * n = 9 * (n + 1) by omega, hbody] at hinner
    obtain ⟨hinside, hrest⟩ := h.wrap htokens pos (pos + 9 + (nest n mid).length)
    exact ⟨hinside, fun _ => hrest⟩

end Sketch.Inside

/-- The pass over nested lines comes out as that over the lines, if these lie in a body, their
braces match, and neither parentheses nor a header are left over. -/
theorem Sketch.agrees_nestTokens {e : Edit} {σ σ' : Sketch} {g : Ground} {known : List Marker}
    {tokens : List Token} {n : Nat} (h : Agrees e σ σ') (hinside : Inside g 0 known σ)
    (hbalanced : Brackets.BalancedFrom Token.opensBrace Token.closesBrace 0 tokens)
    (hmoves : List.Forall₂ e.Moves tokens (tokens.map (Token.shift (9 * n))))
    (hbefore : σ.scope.parens = 0) (hbehind : (tokens.foldl (step e.lines) σ).scope.parens = 0)
    (hheader : ∀ c ∈ (tokens.foldl (step e.lines) σ).header, c = ' ') (mid : List Char)
    (pos : Nat) : Agrees e (tokens.foldl (step e.lines) σ)
      ((nestTokens mid n pos tokens).foldl (step e.lines') σ') := by
  cases n with
  | zero =>
    rw [Nat.mul_zero, shift_zero] at hmoves
    exact h.run hmoves
  | succ n =>
    have hrun := hinside.run e.lines hbalanced
    obtain ⟨hnest, hlast⟩ := (hinside.of_agrees h).run_nest e.lines' hbalanced mid (n + 1) pos
    obtain ⟨hscope, hblank⟩ := hlast (Nat.succ_ne_zero n)
    -- the statement leaves the scope as it was before the lines, which is as it is behind them
    constructor
    · rw [hscope, h.scope, hinside.of_depth_zero.2, hrun.of_depth_zero.2, hbefore, hbehind]
    · rw [hnest.of_depth_zero.1, hrun.of_depth_zero.1]
    · rw [hblank]
      apply (SameHeader.of_blanks hheader).trans
      exact (SameHeader.of_blanks (by simp)).symm
    · rw [hnest.known, hrun.known, List.map_append, Inside.marks_of_moves hmoves]
    · rw [hnest.waiting, hrun.waiting, List.map_nil]
    · rw [hnest.bodies, hrun.bodies]

end RegionScope.Source
