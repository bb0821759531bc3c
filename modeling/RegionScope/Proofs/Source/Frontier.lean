import RegionScope.Source.Outline
import RegionScope.Proofs.Tree.Ancestry

/-!
# The frontier of a pass

What the pass over the tokens does to the tree depends on a part of its state: the tree so far,
the innermost open node and those around it, the directives that wait, and the start of the
header. This part is the frontier. `Move` lists what one token can do to it, and every step is
such a move (`move_of_step`). What every move keeps holds at the end of every run
(`run_induction`).
-/

namespace RegionScope.Source

open RegionScope.Text

/-- The directive line that a token holds. -/
def Token.directive? : Token → Option PendingDirective
  | ⟨start, .directive line⟩ => some ⟨start, line⟩
  | _ => none

/-- Whether a token is an opening brace of the code. -/
def Token.opensBrace (token : Token) : Bool := token.lexeme == .code '\x7b'

/-- Whether a token is a closing brace of the code. -/
def Token.closesBrace (token : Token) : Bool := token.lexeme == .code '\x7d'

theorem Token.opensBrace_iff {token : Token} :
    token.opensBrace = true ↔ token.lexeme = .code '\x7b' := beq_iff_eq

theorem Token.closesBrace_iff {token : Token} :
    token.closesBrace = true ↔ token.lexeme = .code '\x7d' := beq_iff_eq

theorem Token.isSignificant_of_opensBrace {token : Token} (h : token.opensBrace = true) :
    token.lexeme.isSignificant = true := by
  rw [Token.opensBrace_iff.1 h]
  rfl

theorem Token.isSignificant_of_closesBrace {token : Token} (h : token.closesBrace = true) :
    token.lexeme.isSignificant = true := by
  rw [Token.closesBrace_iff.1 h]
  rfl

theorem Token.opensBrace_of_closesBrace {token : Token} (h : token.closesBrace = true) :
    token.opensBrace = false := by
  rw [Token.opensBrace, Token.closesBrace_iff.1 h]
  decide

theorem Token.directive?_eq_some {token : Token} {d : PendingDirective} :
    token.directive? = some d ↔ token.start = d.start ∧ token.lexeme = .directive d.line := by
  obtain ⟨start, lexeme⟩ := token
  obtain ⟨pos, line⟩ := d
  cases lexeme <;> simp [Token.directive?]

/-- A significant token is no directive line. -/
theorem Token.directive?_of_isSignificant {token : Token}
    (h : token.lexeme.isSignificant = true) : token.directive? = none := by
  obtain ⟨start, lexeme⟩ := token
  cases lexeme with
  | directive line => cases h
  | _ => rfl

/-- What the node of a directive line shows. -/
def directiveLabel (lines : LineIndex) (d : PendingDirective) : Label :=
  let content := Directive.read d.line
  ⟨.directive content.1, d.start, lines.line d.start, String.ofList content.2⟩

/-- What the owner of a brace shows that opens behind `header` in a node of kind `context`. -/
def ownerLabel (lines : LineIndex) (context : Kind) (header : List Char) (start : Nat) : Label :=
  ⟨headerKind context header, start, lines.line start, String.ofList header⟩

/-- What the block shows that stands below the owner of the brace at `pos`. -/
def blockLabel (lines : LineIndex) (pos : Nat) : Label := ⟨.block, pos, lines.line pos, ""⟩

/-- The part of the state that decides where nodes go. -/
structure Frontier where
  tree : Tree
  current : Nat
  around : List Nat
  pending : List PendingDirective
  headerStart : Option Nat

/-- The frontier of a state. -/
def Outline.frontier (s : Outline) : Frontier :=
  ⟨s.tree, s.level.node, s.outer.map (·.node), s.pending, s.headerStart⟩

namespace Frontier

/-- The kind of the innermost open node. -/
def context (f : Frontier) : Kind := (f.tree.kind? f.current).getD .compilationUnit

/-- Adds a node below the innermost open node. -/
def place (label : Label) (f : Frontier) : Frontier :=
  { f with tree := f.tree.add label (some f.current) }

/-- Adds all waiting directives below the innermost open node. -/
def flush (lines : LineIndex) (f : Frontier) : Frontier :=
  { f with tree := f.pending.foldl (Outline.addDirective lines f.current) f.tree, pending := [] }

/-- Adds a node below the innermost open node, and makes it the innermost open node. -/
def descend (label : Label) (f : Frontier) : Frontier :=
  { f.place label with current := f.tree.size, around := f.current :: f.around }

/-- Replaces the innermost open node by a new node below it. -/
def deepen (label : Label) (f : Frontier) : Frontier :=
  { f.place label with current := f.tree.size }

/-- Opens an owner at the brace at `pos`, with its block if its kind owns one. -/
def enter (lines : LineIndex) (label : Label) (pos : Nat) (f : Frontier) : Frontier :=
  if label.kind.ownsBlock then (f.descend label).deepen (blockLabel lines pos)
  else f.descend label

/-- Closes the innermost open node, unless it is the last one. -/
def leave (f : Frontier) : Frontier :=
  match f.around with
  | [] => f
  | node :: around => { f with current := node, around }

/-- The frontier with another start of the header. -/
def withHeaderStart (start : Option Nat) (f : Frontier) : Frontier :=
  { f with headerStart := start }

/-- What one token can do to the frontier. -/
inductive Move (lines : LineIndex) (token : Token) (f : Frontier) : Frontier → Prop
  | skip (insignificant : token.lexeme.isSignificant = false)
      (noDirective : token.directive? = none) : Move lines token f f
  | wait {d : PendingDirective} (isDirective : token.directive? = some d) :
      Move lines token f { f with pending := f.pending ++ [d] }
  | pass {start : Option Nat} (significant : token.lexeme.isSignificant = true)
      (noOpening : token.opensBrace = false) (noClosing : token.closesBrace = false)
      (header : start = none ∨ start = some (f.headerStart.getD token.start)) :
      Move lines token f ((f.flush lines).withHeaderStart start)
  | close (closing : token.closesBrace = true) :
      Move lines token f ((f.flush lines).leave.withHeaderStart none)
  | openOwner (header : List Char) (opening : token.opensBrace = true) :
      Move lines token f
        (((f.enter lines
          (ownerLabel lines f.context header (f.headerStart.getD token.start))
          token.start).flush lines).withHeaderStart none)

theorem size_descend (label : Label) (f : Frontier) :
    (f.descend label).tree.size = f.tree.size + 1 := Tree.size_add ..

theorem enter_of_ownsBlock {lines : LineIndex} {label : Label} {pos : Nat} {f : Frontier}
    (h : label.kind.ownsBlock = true) :
    f.enter lines label pos = (f.descend label).deepen (blockLabel lines pos) := by
  rw [enter, if_pos h]

theorem enter_of_not_ownsBlock {lines : LineIndex} {label : Label} {pos : Nat} {f : Frontier}
    (h : label.kind.ownsBlock = false) : f.enter lines label pos = f.descend label := by
  simp [enter, h]

theorem pending_enter (lines : LineIndex) (label : Label) (pos : Nat) (f : Frontier) :
    (f.enter lines label pos).pending = f.pending := by
  unfold enter
  split <;> rfl

theorem tree_leave (f : Frontier) : f.leave.tree = f.tree := by
  unfold leave
  split <;> rfl

theorem pending_leave (f : Frontier) : f.leave.pending = f.pending := by
  unfold leave
  split <;> rfl

/-! ## Every step is a move -/

theorem frontier_flush (lines : LineIndex) (s : Outline) :
    (s.flush lines).frontier = s.frontier.flush lines := rfl

theorem frontier_countParen (c : Char) (s : Outline) : (s.countParen c).frontier = s.frontier := by
  unfold Outline.countParen
  split
  · rfl
  · split <;> rfl

theorem frontier_addText (pos : Nat) (text : List Char) (s : Outline) :
    (s.addText pos text).frontier =
      s.frontier.withHeaderStart (some (s.headerStart.getD pos)) := by
  cases h : s.headerStart <;> simp [Outline.addText, Outline.frontier, withHeaderStart, h]

theorem frontier_addCode (pos : Nat) (c : Char) (s : Outline) :
    (s.addCode pos c).frontier = s.frontier.withHeaderStart none ∨
      (s.addCode pos c).frontier = s.frontier.withHeaderStart (some (s.headerStart.getD pos)) := by
  unfold Outline.addCode
  split
  · exact .inl rfl
  · right
    have hstart : (s.countParen c).headerStart = s.headerStart :=
      congrArg Frontier.headerStart (frontier_countParen c s)
    rw [frontier_addText, frontier_countParen, hstart]

theorem frontier_closeBrace (s : Outline) :
    s.closeBrace.frontier = s.frontier.leave.withHeaderStart none := by
  unfold Outline.closeBrace
  cases h : s.outer <;> simp [Outline.frontier, Outline.endHeader, leave, withHeaderStart, h]

theorem frontier_openBrace (lines : LineIndex) (pos : Nat) (s : Outline) :
    (s.openBrace lines pos).frontier =
      ((s.frontier.enter lines
        (ownerLabel lines s.frontier.context (normalHeader s.header.reverse)
          (s.headerStart.getD pos)) pos).flush lines).withHeaderStart none := by
  have hkind : (s.tree.kind? s.level.node).getD .compilationUnit = s.frontier.context := rfl
  have hsize : (s.tree.add (ownerLabel lines s.frontier.context (normalHeader s.header.reverse)
      (s.headerStart.getD pos)) (some s.level.node)).size = s.tree.size + 1 := Tree.size_add ..
  unfold Outline.openBrace enter
  simp only [hkind]
  by_cases h : (headerKind s.frontier.context (normalHeader s.header.reverse)).ownsBlock = true
  · rw [if_pos h, if_pos (by exact h), ← hsize]
    rfl
  · rw [if_neg h, if_neg (by exact h)]
    rfl

/-- Every step is a move of the frontier. -/
theorem move_of_step (lines : LineIndex) (s : Outline) (token : Token) :
    Move lines token s.frontier (s.step lines token).frontier := by
  obtain ⟨pos, lexeme⟩ := token
  cases lexeme with
  | newline => exact .skip rfl rfl
  | blank => exact .skip rfl rfl
  | directive line => exact .wait rfl
  | lineComment => exact .skip rfl rfl
  | blockComment => exact .skip rfl rfl
  | stringLiteral =>
    rw [show s.step lines ⟨pos, .stringLiteral⟩ = (s.flush lines).addText pos ['"', '"'] from rfl,
      frontier_addText, frontier_flush]
    exact .pass rfl rfl rfl (.inr rfl)
  | charLiteral =>
    rw [show s.step lines ⟨pos, .charLiteral⟩ = (s.flush lines).addText pos ['\'', '\''] from rfl,
      frontier_addText, frontier_flush]
    exact .pass rfl rfl rfl (.inr rfl)
  | code c =>
    by_cases hopen : c = '\x7b'
    · subst hopen
      rw [show s.step lines ⟨pos, .code '\x7b'⟩ = s.openBrace lines pos from rfl,
        frontier_openBrace]
      exact .openOwner _ rfl
    by_cases hclose : c = '\x7d'
    · subst hclose
      rw [show s.step lines ⟨pos, .code '\x7d'⟩ = (s.flush lines).closeBrace from rfl,
        frontier_closeBrace, frontier_flush]
      exact .close rfl
    -- any other character is added to the header or ends it
    have hstep : s.step lines ⟨pos, .code c⟩ = (s.flush lines).addCode pos c := by
      simp only [Outline.step, if_neg hopen, if_neg hclose]
    have hnoOpening : Token.opensBrace ⟨pos, .code c⟩ = false := by simp [Token.opensBrace, hopen]
    have hnoClosing : Token.closesBrace ⟨pos, .code c⟩ = false := by
      simp [Token.closesBrace, hclose]
    rw [hstep]
    rcases frontier_addCode pos c (s.flush lines) with h | h
    · rw [h, frontier_flush]
      exact .pass rfl hnoOpening hnoClosing (.inl rfl)
    · rw [h, frontier_flush]
      exact .pass rfl hnoOpening hnoClosing (.inr rfl)

/-! ## What moves keep -/

/-- What holds before the first token and is kept by every move holds after the last token. The
tokens before and behind the place of the pass may be spoken of. -/
theorem run_induction {lines : LineIndex} {P : List Token → List Token → Frontier → Prop}
    (tokens : List Token) (start : P [] tokens Outline.start.frontier)
    (move : ∀ before token after f g, before ++ token :: after = tokens →
      P before (token :: after) f → Move lines token f g → P (before ++ [token]) after g) :
    P tokens [] (Outline.run lines tokens).frontier := by
  -- the tokens are taken from the front, so the place between them moves
  have key : ∀ after before (s : Outline), before ++ after = tokens → P before after s.frontier →
      P tokens [] (after.foldl (Outline.step lines) s).frontier := by
    intro after
    induction after with
    | nil =>
      intro before s hsplit h
      rw [List.append_nil] at hsplit
      exact hsplit ▸ h
    | cons token after ih =>
      intro before s hsplit h
      apply ih (before ++ [token]) (s.step lines token) (by simpa using hsplit)
      exact move before token after _ _ hsplit h (move_of_step lines s token)
  exact key tokens [] Outline.start rfl start

/-- What is kept when the first waiting directive is placed is kept by a flush. -/
theorem flush_induction {lines : LineIndex} {P : Frontier → Prop}
    (place : ∀ (f : Frontier) d rest, f.pending = d :: rest → P f →
      P { f.place (directiveLabel lines d) with pending := rest })
    {f : Frontier} (h : P f) : P (f.flush lines) := by
  obtain ⟨tree, current, around, pending, headerStart⟩ := f
  induction pending generalizing tree with
  | nil => exact h
  | cons d rest ih => exact ih _ (place _ d rest rfl h)

/-- A property of the tree and its open nodes that is true at the start, and is kept when a
directive is placed, when an owner is opened, with or without a block, and when a node is closed. -/
structure TreeInvariant (lines : LineIndex) (I : Tree → Nat → List Nat → Prop) : Prop where
  start : I (Tree.empty.add ⟨.compilationUnit, 0, 1, ""⟩ none) 0 []
  place : ∀ t node around d, I t node around →
    I (t.add (directiveLabel lines d) (some node)) node around
  openPlain : ∀ t node around label header pos, I t node around →
    label = ownerLabel lines ((t.kind? node).getD .compilationUnit) header pos →
    label.kind.ownsBlock = false → I (t.add label (some node)) t.size (node :: around)
  openBlock : ∀ t node around label header pos brace, I t node around →
    label = ownerLabel lines ((t.kind? node).getD .compilationUnit) header pos →
    label.kind.ownsBlock = true →
    I ((t.add label (some node)).add (blockLabel lines brace) (some t.size)) (t.size + 1)
      (node :: around)
  close : ∀ t node next around, I t node (next :: around) → I t next around

namespace TreeInvariant

variable {lines : LineIndex} {I : Tree → Nat → List Nat → Prop}

theorem flush (hI : TreeInvariant lines I) {f : Frontier} (h : I f.tree f.current f.around) :
    I (f.flush lines).tree (f.flush lines).current (f.flush lines).around := by
  refine flush_induction (P := fun f => I f.tree f.current f.around) ?_ h
  intro f d _ _ h
  exact hI.place f.tree f.current f.around d h

theorem leave (hI : TreeInvariant lines I) {f : Frontier} (h : I f.tree f.current f.around) :
    I f.leave.tree f.leave.current f.leave.around := by
  unfold Frontier.leave
  split
  · exact h
  · next next around haround =>
    rw [haround] at h
    exact hI.close _ _ next around h

theorem enter (hI : TreeInvariant lines I) {f : Frontier} (h : I f.tree f.current f.around)
    (header : List Char) (start pos : Nat) :
    let g := f.enter lines (ownerLabel lines f.context header start) pos
    I g.tree g.current g.around := by
  unfold Frontier.enter
  split
  · next howns =>
    show I _ (Frontier.tree (f.descend _)).size _
    rw [size_descend]
    exact hI.openBlock _ _ _ _ header _ _ h rfl howns
  · next howns => exact hI.openPlain _ _ _ _ header _ h rfl (Bool.eq_false_iff.2 howns)

/-- Every move keeps the invariant. -/
theorem move (hI : TreeInvariant lines I) {token : Token} {f g : Frontier}
    (hmove : Move lines token f g) (h : I f.tree f.current f.around) :
    I g.tree g.current g.around := by
  cases hmove with
  | skip => exact h
  | wait => exact h
  | pass => exact hI.flush h
  | close =>
    have hflush := hI.flush h
    exact hI.leave hflush
  | openOwner header =>
    have henter := hI.enter h header (f.headerStart.getD token.start) token.start
    exact hI.flush henter

/-- The invariant holds at the end of every run. -/
theorem at_end (hI : TreeInvariant lines I) (tokens : List Token) :
    let f := (Outline.run lines tokens).frontier
    I f.tree f.current f.around := by
  refine run_induction (P := fun _ _ f => I f.tree f.current f.around) tokens hI.start ?_
  intro _ _ _ _ _ _ h hmove
  exact hI.move hmove h

/-- The invariant holds too once nothing waits. -/
theorem run (hI : TreeInvariant lines I) (tokens : List Token) :
    let f := (Outline.run lines tokens).frontier.flush lines
    I f.tree f.current f.around := hI.flush (hI.at_end tokens)

end TreeInvariant

end Frontier

/-- The outline is the tree of the frontier at the end, once nothing waits. -/
theorem outline_eq_tree (text : List Char) :
    outline text =
      ((Outline.run (.ofText text) (lex text)).frontier.flush (.ofText text)).tree := rfl

end RegionScope.Source
