import RegionScope.Proofs.Brackets
import RegionScope.Proofs.Source.Edits
import RegionScope.Proofs.Source.Sketch

/-!
# Runs of sketches

Two facts about runs of sketches. Runs over tokens that differ in their places only stay in step
(`Agrees.run`): the directives are the same, with labels at their new places. And what stands
between the braces of a body, with braces of its own that match, only adds its directives to that
body (`Inside.run`), whatever the kinds of the nodes that it opens.
-/

namespace RegionScope.Source

open RegionScope.Text RegionScope.Tree

/-- A token of the edited text is one of the text at its new place. -/
def Edit.Moves (e : Edit) (token token' : Token) : Prop :=
  token'.lexeme = token.lexeme ∧ e.At token.start token'.start

namespace Sketch

/-! ## Two runs in step -/

/-- The sketch of the edited text agrees with that of the text: the open nodes and the bodies are
the same, the headers mean the same, and the directives show what the edit makes of their labels. -/
structure Agrees (e : Edit) (σ σ' : Sketch) : Prop where
  scope : σ'.scope = σ.scope
  outer : σ'.outer = σ.outer
  header : SameHeader σ.header σ'.header
  known : σ'.known = σ.known.map (Marker.move e.move)
  waiting : σ'.waiting = σ.waiting.map e.move
  bodies : σ'.bodies = σ.bodies

variable {e : Edit} {σ σ' : Sketch}

theorem map_mark (scope : Scope) (move : Label → Label) (labels : List Label) :
    (labels.map move).map scope.mark = (labels.map scope.mark).map (Marker.move move) := by
  rw [List.map_map, List.map_map]
  rfl

theorem known_map (scope : Scope) (move : Label → Label) (labels : List Label) :
    scope.known (labels.map move) = (scope.known labels).map (Marker.move move) := by
  unfold Scope.known
  split
  · exact map_mark scope move labels
  · rfl

theorem held_map (scope : Scope) (move : Label → Label) (labels : List Label) :
    scope.held (labels.map move) = (scope.held labels).map move := by
  unfold Scope.held
  split <;> rfl

namespace Agrees

theorem start (e : Edit) : Agrees e Sketch.start Sketch.start :=
  ⟨rfl, rfl, SameHeader.refl [], rfl, rfl, rfl⟩

theorem addText (h : Agrees e σ σ') (text : List Char) :
    Agrees e (σ.addText text) (σ'.addText text) :=
  ⟨h.scope, h.outer, h.header.append text.reverse, h.known, h.waiting, h.bodies⟩

theorem endHeader (h : Agrees e σ σ') : Agrees e σ.endHeader σ'.endHeader :=
  ⟨h.scope, h.outer, SameHeader.refl [], h.known, h.waiting, h.bodies⟩

theorem announce (h : Agrees e σ σ') {label label' : Label} (hlabel : e.move label = label') :
    Agrees e (σ.announce label) (σ'.announce label') := by
  have hlabels : [label'] = [label].map e.move := by rw [← hlabel]; rfl
  constructor
  · exact h.scope
  · exact h.outer
  · exact h.header
  · rw [Sketch.announce, h.known, h.scope, hlabels, known_map, Sketch.announce, List.map_append]
  · rw [Sketch.announce, h.waiting, h.scope, hlabels, held_map, Sketch.announce, List.map_append]
  · exact h.bodies

theorem settle (h : Agrees e σ σ') : Agrees e σ.settle σ'.settle := by
  constructor
  · exact h.scope
  · exact h.outer
  · exact h.header
  · rw [Sketch.settle, h.known, h.waiting, h.scope, map_mark, Sketch.settle, List.map_append]
  · rfl
  · exact h.bodies

theorem deepen (h : Agrees e σ σ') (kind : Kind) : Agrees e (σ.deepen kind) (σ'.deepen kind) := by
  have hinner : σ'.inner kind = σ.inner kind := by rw [inner, inner, h.scope, h.bodies]
  constructor
  · exact hinner
  · exact h.outer
  · exact h.header
  · rw [Sketch.deepen, h.known, h.waiting, hinner, known_map, Sketch.deepen, List.map_append]
  · rw [Sketch.deepen, h.waiting, hinner, held_map, Sketch.deepen]
  · rw [Sketch.deepen, h.bodies, h.scope, Sketch.deepen]

theorem descend (h : Agrees e σ σ') (kind : Kind) :
    Agrees e (σ.descend kind) (σ'.descend kind) := by
  have hdeepen := h.deepen kind
  constructor
  · exact hdeepen.scope
  · rw [Sketch.descend, h.scope, h.outer, Sketch.descend]
  · exact h.header
  · exact hdeepen.known
  · exact hdeepen.waiting
  · exact hdeepen.bodies

theorem openBrace (h : Agrees e σ σ') : Agrees e σ.openBrace σ'.openBrace := by
  unfold Sketch.openBrace
  rw [h.scope, ← h.header.normalHeader]
  apply endHeader
  apply settle
  unfold enter
  split
  · exact (h.descend _).deepen .block
  · exact h.descend _

theorem closeBrace (h : Agrees e σ σ') : Agrees e σ.closeBrace σ'.closeBrace := by
  unfold Sketch.closeBrace
  rw [h.outer]
  split
  · exact h.endHeader
  · exact ⟨rfl, rfl, SameHeader.refl [], h.known, h.waiting, h.bodies⟩

theorem countParen (h : Agrees e σ σ') (c : Char) :
    Agrees e (σ.countParen c) (σ'.countParen c) := by
  unfold Sketch.countParen
  rw [h.scope]
  split
  · exact ⟨rfl, h.outer, h.header, h.known, h.waiting, h.bodies⟩
  · split
    · exact ⟨rfl, h.outer, h.header, h.known, h.waiting, h.bodies⟩
    · exact h

theorem addCode (h : Agrees e σ σ') (c : Char) : Agrees e (σ.addCode c) (σ'.addCode c) := by
  unfold Sketch.addCode
  rw [h.scope]
  split
  · exact h.endHeader
  · exact (h.countParen c).addText [c]

/-- A token at its new place keeps the sketches in step. -/
theorem step (h : Agrees e σ σ') {token token' : Token} (hmoves : e.Moves token token') :
    Agrees e (σ.step e.lines token) (σ'.step e.lines' token') := by
  obtain ⟨pos, lexeme⟩ := token
  obtain ⟨pos', lexeme'⟩ := token'
  obtain ⟨hlexeme, hplace⟩ := hmoves
  obtain rfl : lexeme' = lexeme := hlexeme
  cases lexeme' with
  | newline => exact h.addText [' ']
  | blank => exact h.addText [' ']
  | blockComment => exact h.addText [' ']
  | lineComment => exact h
  | directive line => exact h.announce (Edit.move_directiveLabel rfl hplace)
  | stringLiteral => exact h.settle.addText _
  | charLiteral => exact h.settle.addText _
  | code c =>
    by_cases hopen : c = '\x7b'
    · subst hopen
      exact h.openBrace
    by_cases hclose : c = '\x7d'
    · subst hclose
      exact h.settle.closeBrace
    rw [step_other hopen hclose, step_other hopen hclose]
    exact h.settle.addCode c

/-- Runs over tokens and over the same tokens at their new places stay in step. -/
theorem run (h : Agrees e σ σ') {tokens tokens' : List Token}
    (hmoves : List.Forall₂ e.Moves tokens tokens') :
    Agrees e (tokens.foldl (Sketch.step e.lines) σ) (tokens'.foldl (Sketch.step e.lines') σ') := by
  induction hmoves generalizing σ σ' with
  | nil => exact h
  | cons htoken _ ih => exact ih (h.step htoken)

end Agrees

/-! ## Runs inside a body -/

/-- A node of some kind that lies in a body, with the scopes around it and the number of bodies when
it was left. -/
structure Ground where
  body : Nat
  kind : Kind
  below : List Scope
  bodies : Nat

/-- The pass is inside of a body, `depth` levels above the ground, and knows some directives. No
directive waits there. -/
structure Inside (g : Ground) (depth : Nat) (known : List Marker) (σ : Sketch) : Prop where
  waiting : σ.waiting = []
  known : σ.known = known
  bodies : σ.bodies = g.bodies
  stack : ∃ upper, σ.outer = upper ++ g.below ∧ upper.length = depth ∧
    (∀ scope ∈ σ.scope :: upper, scope.body = some g.body) ∧
    (σ.scope :: upper).getLast?.map Scope.kind = some g.kind

namespace Inside

variable {g : Ground} {depth : Nat} {known : List Marker} {lines : LineIndex}

theorem body_scope (h : Inside g depth known σ) : σ.scope.body = some g.body := by
  obtain ⟨upper, -, -, hbodies, -⟩ := h.stack
  exact hbodies σ.scope List.mem_cons_self

/-- On the ground the node is the innermost open one again. -/
theorem of_depth_zero (h : Inside g 0 known σ) :
    σ.outer = g.below ∧ σ.scope = ⟨g.kind, σ.scope.parens, some g.body⟩ := by
  obtain ⟨upper, houter, hlength, hbodies, hkind⟩ := h.stack
  obtain rfl := List.eq_nil_of_length_eq_zero hlength
  refine ⟨houter, ?_⟩
  rw [← h.body_scope, ← Option.some.inj hkind]
  rfl

/-- Where nothing waits there is nothing to place. -/
theorem settle_eq (h : Inside g depth known σ) : σ.settle = σ := by
  apply Sketch.ext
  · rfl
  · rfl
  · rfl
  · rw [settle, h.waiting, List.map_nil, List.append_nil]
  · exact h.waiting.symm
  · rfl

/-- Parentheses and headers play no part inside of a body. -/
theorem with_header (h : Inside g depth known σ) (parens : Nat) (header : List Char) :
    Inside g depth known { σ with scope := { σ.scope with parens }, header } := by
  obtain ⟨upper, houter, hlength, hbodies, hkind⟩ := h.stack
  refine ⟨h.waiting, h.known, h.bodies, upper, houter, hlength, ?_, ?_⟩
  · intro scope hscope
    rcases List.mem_cons.1 hscope with rfl | hscope
    · exact h.body_scope
    · exact hbodies scope (List.mem_cons_of_mem _ hscope)
  · cases upper with
    | nil => exact hkind
    | cons scope upper => exact hkind

theorem addText (h : Inside g depth known σ) (text : List Char) :
    Inside g depth known (σ.addText text) := h.with_header σ.scope.parens _

theorem endHeader (h : Inside g depth known σ) : Inside g depth known σ.endHeader :=
  h.with_header σ.scope.parens []

theorem countParen (h : Inside g depth known σ) (c : Char) :
    Inside g depth known (σ.countParen c) := by
  unfold Sketch.countParen
  split
  · exact h.with_header _ σ.header
  · split
    · exact h.with_header _ σ.header
    · exact h

theorem addCode (h : Inside g depth known σ) (c : Char) : Inside g depth known (σ.addCode c) := by
  unfold Sketch.addCode
  split
  · exact h.endHeader
  · exact (h.countParen c).addText [c]

/-- A directive is in the body at once. -/
theorem announce (h : Inside g depth known σ) (label : Label) :
    Inside g depth (known ++ [⟨label, some g.body⟩]) (σ.announce label) := by
  constructor
  · rw [Sketch.announce, h.waiting, Scope.held, h.body_scope]
    rfl
  · rw [Sketch.announce, h.known, Scope.known, h.body_scope, Option.isSome_some, if_pos rfl,
      List.map_singleton, Scope.mark, h.body_scope]
  · exact h.bodies
  · exact h.stack

/-- What is opened in a body lies in this body. -/
theorem inner_body (h : Inside g depth known σ) (kind : Kind) :
    (σ.inner kind).body = some g.body := by
  rw [inner, h.body_scope, Option.some_or]

theorem deepen (h : Inside g (depth + 1) known σ) (kind : Kind) :
    Inside g (depth + 1) known (σ.deepen kind) := by
  obtain ⟨upper, houter, hlength, hbodies, hkind⟩ := h.stack
  constructor
  · rw [Sketch.deepen, h.waiting, Scope.held_nil]
  · rw [Sketch.deepen, h.waiting, Scope.known_nil, List.append_nil, h.known]
  · rw [Sketch.deepen, h.body_scope, if_neg (by simp), Nat.add_zero, h.bodies]
  · refine ⟨upper, houter, hlength, ?_, ?_⟩
    · intro scope hscope
      rcases List.mem_cons.1 hscope with rfl | hscope
      · exact h.inner_body kind
      · exact hbodies scope (List.mem_cons_of_mem _ hscope)
    · cases upper with
      | nil => cases hlength
      | cons scope upper => exact hkind

theorem descend (h : Inside g depth known σ) (kind : Kind) :
    Inside g (depth + 1) known (σ.descend kind) := by
  obtain ⟨upper, houter, hlength, hbodies, hkind⟩ := h.stack
  constructor
  · show (σ.inner kind).held σ.waiting = []
    rw [h.waiting, Scope.held_nil]
  · show σ.known ++ (σ.inner kind).known σ.waiting = known
    rw [h.waiting, Scope.known_nil, List.append_nil, h.known]
  · show σ.bodies + (if σ.scope.body = none ∧ kind = .block then 1 else 0) = g.bodies
    -- a block in a body is no body of its own
    rw [h.body_scope, if_neg (by simp), Nat.add_zero, h.bodies]
  · refine ⟨σ.scope :: upper, congrArg (σ.scope :: ·) houter, congrArg (· + 1) hlength, ?_, hkind⟩
    intro scope hscope
    rcases List.mem_cons.1 hscope with rfl | hscope
    · exact h.inner_body kind
    · exact hbodies scope hscope

theorem openBrace (h : Inside g depth known σ) : Inside g (depth + 1) known σ.openBrace := by
  have henter : ∀ kind, Inside g (depth + 1) known (σ.enter kind) := by
    intro kind
    unfold enter
    split
    · exact (h.descend kind).deepen .block
    · exact h.descend kind
  unfold Sketch.openBrace
  rw [(henter _).settle_eq]
  exact (henter _).endHeader

theorem closeBrace (h : Inside g (depth + 1) known σ) : Inside g depth known σ.closeBrace := by
  obtain ⟨upper, houter, hlength, hbodies, hkind⟩ := h.stack
  cases upper with
  | nil => cases hlength
  | cons scope upper =>
    have hclose : σ.closeBrace = { σ with scope, outer := upper ++ g.below }.endHeader := by
      unfold Sketch.closeBrace
      rw [houter]
      rfl
    rw [hclose]
    refine ⟨h.waiting, h.known, h.bodies, upper, rfl, Nat.succ.inj hlength, ?_, hkind⟩
    intro scope hscope
    exact hbodies scope (List.mem_cons_of_mem _ hscope)

/-- The directives of some tokens, all in one body. -/
def marks (lines : LineIndex) (body : Nat) (tokens : List Token) : List Marker :=
  (tokens.filterMap Token.directive?).map fun d => ⟨directiveLabel lines d, some body⟩

theorem marks_append (lines : LineIndex) (body : Nat) (tokens more : List Token) :
    marks lines body (tokens ++ more) = marks lines body tokens ++ marks lines body more := by
  rw [marks, List.filterMap_append, List.map_append, marks, marks]

theorem step_of_not_directive (h : Inside g depth known σ) {token : Token} {next : Nat}
    (hnext : (next : Int) = depth +
      if token.opensBrace then 1 else if token.closesBrace then -1 else 0)
    (hnone : token.directive? = none) : Inside g next known (σ.step lines token) := by
  obtain ⟨pos, lexeme⟩ := token
  -- all tokens but braces leave the depth as it is
  have hstay : Token.opensBrace ⟨pos, lexeme⟩ = false → Token.closesBrace ⟨pos, lexeme⟩ = false →
      next = depth := by
    intro hopens hcloses
    rw [hopens, hcloses] at hnext
    exact Int.ofNat.inj (hnext.trans (Int.add_zero _))
  cases lexeme with
  | directive line => cases hnone
  | newline => exact hstay rfl rfl ▸ h.addText [' ']
  | blank => exact hstay rfl rfl ▸ h.addText [' ']
  | blockComment => exact hstay rfl rfl ▸ h.addText [' ']
  | lineComment => exact hstay rfl rfl ▸ h
  | stringLiteral =>
    obtain rfl := hstay rfl rfl
    show Inside g next known (σ.settle.addText _)
    rw [h.settle_eq]
    exact h.addText _
  | charLiteral =>
    obtain rfl := hstay rfl rfl
    show Inside g next known (σ.settle.addText _)
    rw [h.settle_eq]
    exact h.addText _
  | code c =>
    by_cases hopen : c = '\x7b'
    · subst hopen
      obtain rfl : next = depth + 1 := Int.ofNat.inj hnext
      exact h.openBrace
    by_cases hclose : c = '\x7d'
    · subst hclose
      obtain rfl : depth = next + 1 := by
        have : (next : Int) = depth - 1 := hnext
        omega
      rw [step_close, h.settle_eq]
      exact h.closeBrace
    obtain rfl := hstay (by simp [Token.opensBrace, hopen]) (by simp [Token.closesBrace, hclose])
    rw [step_other hopen hclose, h.settle_eq]
    exact h.addCode c

/-- A token adds its directive to the body, and leads to the depth that its brace leads to. -/
theorem step (lines : LineIndex) (h : Inside g depth known σ) {token : Token} {next : Nat}
    (hnext : (next : Int) = depth +
      if token.opensBrace then 1 else if token.closesBrace then -1 else 0) :
    Inside g next (known ++ marks lines g.body [token]) (σ.step lines token) := by
  cases hd : token.directive? with
  | none =>
    rw [marks, List.filterMap_cons_none hd, List.filterMap_nil, List.map_nil, List.append_nil]
    exact h.step_of_not_directive hnext hd
  | some d =>
    obtain ⟨start, lexeme⟩ := token
    obtain ⟨rfl, rfl⟩ := Token.directive?_eq_some.1 hd
    obtain rfl : next = depth := Int.ofNat.inj (hnext.trans (Int.add_zero _))
    exact h.announce _

/-- Tokens whose braces match only add their directives to the body. -/
theorem run (lines : LineIndex) (h : Inside g depth known σ) {tokens : List Token}
    (hbalanced : Brackets.BalancedFrom Token.opensBrace Token.closesBrace depth tokens) :
    Inside g 0 (known ++ marks lines g.body tokens) (tokens.foldl (Sketch.step lines) σ) := by
  -- from the front, where each token leads to a depth from which the braces of the rest match
  induction tokens generalizing σ depth known with
  | nil =>
    obtain rfl := Brackets.balancedFrom_nil_iff.1 hbalanced
    rw [marks, List.filterMap_nil, List.map_nil, List.append_nil]
    exact h
  | cons token rest ih =>
    obtain ⟨next, hnext⟩ := hbalanced.exists_next
    have hrun := ih (h.step lines hnext) ((Brackets.balancedFrom_cons_iff hnext).1 hbalanced)
    rwa [List.append_assoc, ← marks_append] at hrun

/-- In the sketch of the edited text the pass is inside of the same body. -/
theorem of_agrees {e : Edit} (h : Inside g depth known σ) (hagrees : Agrees e σ σ') :
    Inside g depth (known.map (Marker.move e.move)) σ' := by
  refine ⟨?_, ?_, hagrees.bodies.trans h.bodies, ?_⟩
  · rw [hagrees.waiting, h.waiting, List.map_nil]
  · rw [hagrees.known, h.known]
  · rw [hagrees.outer, hagrees.scope]
    exact h.stack

/-- Directives at new places show what the edit makes of their labels. -/
theorem marks_of_moves {e : Edit} {tokens tokens' : List Token}
    (h : List.Forall₂ e.Moves tokens tokens') (body : Nat) :
    marks e.lines' body tokens' = (marks e.lines body tokens).map (Marker.move e.move) := by
  induction h with
  | nil => rfl
  | @cons token token' tokens tokens' htoken _ ih =>
    obtain ⟨pos, lexeme⟩ := token
    obtain ⟨pos', lexeme'⟩ := token'
    obtain ⟨hlexeme, hplace⟩ := htoken
    obtain rfl : lexeme' = lexeme := hlexeme
    cases lexeme' with
    | directive line =>
      have hlabel : e.move (directiveLabel e.lines ⟨pos, line⟩) =
          directiveLabel e.lines' ⟨pos', line⟩ := Edit.move_directiveLabel rfl hplace
      show ⟨directiveLabel e.lines' ⟨pos', line⟩, some body⟩ :: marks e.lines' body tokens' = _
      rw [ih, ← hlabel]
      rfl
    | _ => exact ih

end Inside

/-- The pass is inside of the body that the innermost open node lies in. -/
theorem inside_sketch {s : Outline} {b : Nat} (lines : LineIndex)
    (h : s.tree.bodyNumber? s.level.node = some b) :
    Inside ⟨b, (s.sketch lines).scope.kind, (s.sketch lines).outer, (s.sketch lines).bodies⟩ 0
      (s.sketch lines).known (s.sketch lines) := by
  have hbody : (s.level.scope s.tree).body = some b := h
  refine ⟨?_, rfl, rfl, [], rfl, rfl, ?_, rfl⟩
  · show (s.level.scope s.tree).held _ = []
    rw [Scope.held, hbody]
    rfl
  · intro scope hscope
    rw [List.mem_singleton.1 hscope]
    exact hbody

end Sketch

end RegionScope.Source
