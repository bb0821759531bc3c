import Mathlib.Data.List.Induction
import RegionScope.Proofs.Source.HeaderNesting
import RegionScope.Proofs.Source.Openings
import RegionScope.Proofs.Source.RightEdge
import RegionScope.Proofs.Tree.BodyNumbers

/-!
# Sketches of a pass

Of the tree that grows in a pass the bodies of directives depend on little: on the kinds of the open
nodes, on the parentheses in them, and on the numbers of the bodies that they lie in. A sketch keeps
just these, the header, and the directives so far with the numbers of their bodies. In a body a
directive need not wait for its node, as every node that may come to hold it lies in the same body.

Every step of the pass is a step of its sketch (`sketch_step`), so the directives of an outline and
their bodies come out of a run of sketches (`markers_outlineWith`).
-/

namespace RegionScope.Source

open RegionScope.Text RegionScope.Tree

/-- What an open node is to directives: its kind, the parentheses that are open in it, and the
number of the body that it lies in. -/
structure Scope where
  kind : Kind
  parens : Nat
  body : Option Nat
deriving DecidableEq

namespace Scope

/-- A directive in the scope. -/
def mark (scope : Scope) (label : Label) : Marker := ⟨label, scope.body⟩

/-- The directives of which the scope tells the body. -/
def known (scope : Scope) (labels : List Label) : List Marker :=
  if scope.body.isSome then labels.map scope.mark else []

/-- The directives that the scope makes wait. -/
def held (scope : Scope) (labels : List Label) : List Label :=
  if scope.body.isSome then [] else labels

variable {scope inner : Scope} {labels more : List Label}

theorem known_nil (scope : Scope) : scope.known [] = [] := by
  unfold known
  split <;> rfl

theorem held_nil (scope : Scope) : scope.held [] = [] := by
  unfold held
  split <;> rfl

theorem known_append : scope.known (labels ++ more) = scope.known labels ++ scope.known more := by
  unfold known
  split
  · exact List.map_append
  · rfl

theorem held_append : scope.held (labels ++ more) = scope.held labels ++ scope.held more := by
  unfold held
  split <;> rfl

/-- All directives end up in the scope, whether they had to wait or not. -/
theorem known_append_held (scope : Scope) (labels : List Label) :
    scope.known labels ++ (scope.held labels).map scope.mark = labels.map scope.mark := by
  unfold known held
  split
  · exact List.append_nil _
  · rfl

/-- In a scope inside of a body all directives are in that body, whether they had to wait for the
scope or not. -/
theorem known_append_known_held (h : ∀ b, scope.body = some b → inner.body = some b) :
    scope.known labels ++ inner.known (scope.held labels) = inner.known labels := by
  unfold known held
  cases hbody : scope.body with
  | none => rfl
  | some b =>
    have hmark : scope.mark = inner.mark := by
      funext label
      rw [mark, mark, hbody, h b hbody]
    rw [hmark, h b hbody]
    exact List.append_nil _

theorem held_held (h : ∀ b, scope.body = some b → inner.body = some b) :
    inner.held (scope.held labels) = inner.held labels := by
  unfold held
  cases hbody : scope.body with
  | none => rfl
  | some b =>
    rw [h b hbody]
    rfl

end Scope

/-- What directives depend on in the state of a pass: the scopes of the innermost open node and of
those around it, the header, the directives with known bodies, those that wait, and the number of
bodies so far. -/
@[ext]
structure Sketch where
  scope : Scope
  outer : List Scope
  header : List Char
  known : List Marker
  waiting : List Label
  bodies : Nat

namespace Sketch

/-- Before the first token. -/
def start : Sketch := ⟨⟨.compilationUnit, 0, none⟩, [], [], [], [], 0⟩

/-- Takes a directive. -/
def announce (label : Label) (σ : Sketch) : Sketch :=
  { σ with known := σ.known ++ σ.scope.known [label], waiting := σ.waiting ++ σ.scope.held [label] }

/-- Places the directives that wait. -/
def settle (σ : Sketch) : Sketch :=
  { σ with known := σ.known ++ σ.waiting.map σ.scope.mark, waiting := [] }

/-- Takes text into the header. -/
def addText (text : List Char) (σ : Sketch) : Sketch :=
  { σ with header := text.reverse ++ σ.header }

/-- Ends the header. -/
def endHeader (σ : Sketch) : Sketch := { σ with header := [] }

/-- Counts a parenthesis of the innermost open node. -/
def countParen (c : Char) (σ : Sketch) : Sketch :=
  if c = '(' then { σ with scope := { σ.scope with parens := σ.scope.parens + 1 } }
  else if c = ')' then { σ with scope := { σ.scope with parens := σ.scope.parens - 1 } }
  else σ

/-- Takes a code character that is no brace. -/
def addCode (c : Char) (σ : Sketch) : Sketch :=
  if c = ';' ∧ σ.scope.parens = 0 then σ.endHeader else (σ.countParen c).addText [c]

/-- The scope of a node of some kind that is opened now. A block in no body is a new body. -/
def inner (kind : Kind) (σ : Sketch) : Scope :=
  ⟨kind, 0, σ.scope.body.or (if kind = .block then some σ.bodies else none)⟩

/-- Opens a node of some kind in place of the innermost open node. In a new body the directives that
wait are placed. -/
def deepen (kind : Kind) (σ : Sketch) : Sketch :=
  { σ with
    scope := σ.inner kind
    known := σ.known ++ (σ.inner kind).known σ.waiting
    waiting := (σ.inner kind).held σ.waiting
    bodies := σ.bodies + if σ.scope.body = none ∧ kind = .block then 1 else 0 }

/-- Opens a node of some kind below the innermost open node. -/
def descend (kind : Kind) (σ : Sketch) : Sketch :=
  { σ.deepen kind with outer := σ.scope :: σ.outer }

/-- Opens an owner, and its block if its kind owns one. -/
def enter (kind : Kind) (σ : Sketch) : Sketch :=
  if kind.ownsBlock then (σ.descend kind).deepen .block else σ.descend kind

/-- Opens a node at a brace. -/
def openBrace (σ : Sketch) : Sketch :=
  (σ.enter (headerKind σ.scope.kind (normalHeader σ.header.reverse))).settle.endHeader

/-- Closes the innermost open node, unless it is the root. -/
def closeBrace (σ : Sketch) : Sketch :=
  match σ.outer with
  | [] => σ.endHeader
  | scope :: outer => { σ with scope, outer }.endHeader

/-- Takes one token. -/
def step (lines : LineIndex) (σ : Sketch) (token : Token) : Sketch :=
  match token.lexeme with
  | .newline | .blank | .blockComment => σ.addText [' ']
  | .lineComment => σ
  | .directive line => σ.announce (directiveLabel lines ⟨token.start, line⟩)
  | .stringLiteral => σ.settle.addText ['"', '"']
  | .charLiteral => σ.settle.addText ['\'', '\'']
  | .code c =>
    if c = '\x7b' then σ.openBrace
    else if c = '\x7d' then σ.settle.closeBrace
    else σ.settle.addCode c

/-- The sketch after a list of tokens. -/
def run (lines : LineIndex) (tokens : List Token) : Sketch := tokens.foldl (step lines) start

variable {lines : LineIndex} {σ : Sketch} {pos : Nat}

theorem step_close : σ.step lines ⟨pos, .code '\x7d'⟩ = σ.settle.closeBrace := rfl

theorem step_other {c : Char} (hopen : c ≠ '\x7b') (hclose : c ≠ '\x7d') :
    σ.step lines ⟨pos, .code c⟩ = σ.settle.addCode c := by
  simp only [step, if_neg hopen, if_neg hclose]

end Sketch

/-- The scope of an open node. -/
def Level.scope (t : Tree) (level : Level) : Scope :=
  ⟨(t.kind? level.node).getD .compilationUnit, level.parens, t.bodyNumber? level.node⟩

namespace Outline

/-- The sketch of a state of the pass. -/
def sketch (lines : LineIndex) (s : Outline) : Sketch where
  scope := s.level.scope s.tree
  outer := s.outer.map (Level.scope s.tree)
  header := s.header
  known := s.tree.markers ++ (s.level.scope s.tree).known (s.pending.map (directiveLabel lines))
  waiting := (s.level.scope s.tree).held (s.pending.map (directiveLabel lines))
  bodies := s.tree.outerBlocks.length

/-- The open nodes are nodes of the tree. -/
def Grounded (s : Outline) : Prop := ∀ level ∈ s.level :: s.outer, level.node < s.tree.size

variable {lines : LineIndex} {s : Outline} {t : Tree} {level : Level} {label : Label} {node : Nat}

theorem grounded_run (lines : LineIndex) (tokens : List Token) : (run lines tokens).Grounded := by
  intro level hlevel
  have hedge := (RightEdge.treeInvariant lines).at_end tokens
  apply hedge.lt_size
  rcases List.mem_cons.1 hlevel with rfl | hlevel
  · exact List.mem_cons_self
  · exact List.mem_cons_of_mem _ (List.mem_map.2 ⟨level, hlevel, rfl⟩)

/-! ## Added nodes -/

/-- The scope of an open node stays when a node is added. -/
theorem scope_add (hnode : node < t.size) (hlevel : level.node < t.size) :
    level.scope (t.add label (some node)) = level.scope t := by
  rw [Level.scope, kind?_add_of_lt hlevel, bodyNumber?_add_of_lt hnode hlevel, Level.scope]

theorem map_scope_add {levels : List Level} (hnode : node < t.size)
    (hlevels : ∀ level ∈ levels, level.node < t.size) :
    levels.map (Level.scope (t.add label (some node))) = levels.map (Level.scope t) :=
  List.map_congr_left fun level hlevel => scope_add hnode (hlevels level hlevel)

/-- The scope of a node that is added is the one that is opened in the sketch. -/
theorem scope_add_self (h : s.level.node < s.tree.size) :
    (⟨s.tree.size, 0⟩ : Level).scope (s.tree.add label (some s.level.node)) =
      (s.sketch lines).inner label.kind := by
  rw [Level.scope, kind?_add_self, bodyNumber?_add_self h, Option.getD_some]
  rfl

theorem markers_add_of_not_isDirective (hnode : node < t.size)
    (h : label.kind.isDirective = false) :
    (t.add label (some node)).markers = t.markers := by
  rw [markers_add hnode, h]
  exact List.append_nil _

/-- Waiting directives are placed in the body of the node, and change no scope. -/
theorem tree_flush (lines : LineIndex) (ds : List PendingDirective) (hnode : node < t.size) :
    let u := ds.foldl (addDirective lines node) t
    u.markers = t.markers ++ ds.map (fun d => ⟨directiveLabel lines d, t.bodyNumber? node⟩) ∧
      u.outerBlocks.length = t.outerBlocks.length ∧
      ∀ level : Level, level.node < t.size → level.scope u = level.scope t := by
  -- the tree grows with each directive, but the node keeps its body and every scope stays
  induction ds generalizing t with
  | nil =>
    refine ⟨(List.append_nil _).symm, rfl, fun _ _ => rfl⟩
  | cons d ds ih =>
    have hkind : (directiveLabel lines d).kind ≠ .block := nofun
    have hlt : ∀ {i}, i < t.size → i < (t.add (directiveLabel lines d) (some node)).size := by
      intro i hi
      rw [size_add]
      exact Nat.lt_succ_of_lt hi
    obtain ⟨hmarkers, hbodies, hscopes⟩ := ih (hlt hnode)
    refine ⟨?_, ?_, ?_⟩
    · rw [List.foldl_cons]
      refine hmarkers.trans ?_
      rw [bodyNumber?_add_of_lt hnode hnode, markers_add hnode, if_pos (by exact rfl),
        List.append_assoc]
      rfl
    · refine hbodies.trans ?_
      rw [length_outerBlocks_add hnode, if_neg fun h => hkind h.2, Nat.add_zero]
    · intro level hlevel
      exact (hscopes level (hlt hlevel)).trans (scope_add hnode hlevel)

/-! ## Steps of sketches -/

/-- Placing the directives that wait places those of the sketch. -/
theorem sketch_flush (h : s.Grounded) : (s.flush lines).sketch lines = (s.sketch lines).settle := by
  obtain ⟨hmarkers, hbodies, hscopes⟩ := tree_flush lines s.pending (h s.level List.mem_cons_self)
  have hscope : (s.flush lines).level.scope (s.flush lines).tree = s.level.scope s.tree :=
    hscopes s.level (h s.level List.mem_cons_self)
  have hplaced : s.pending.map (fun d =>
      (⟨directiveLabel lines d, s.tree.bodyNumber? s.level.node⟩ : Marker)) =
      (s.pending.map (directiveLabel lines)).map (s.level.scope s.tree).mark := by
    rw [List.map_map]
    rfl
  apply Sketch.ext
  · exact hscope
  · apply List.map_congr_left
    intro level hlevel
    exact hscopes level (h level (List.mem_cons_of_mem _ hlevel))
  · rfl
  · show (s.flush lines).tree.markers ++ Scope.known _ [] = s.tree.markers ++ _ ++ _
    rw [Scope.known_nil, List.append_nil, List.append_assoc]
    refine hmarkers.trans (congrArg _ ?_)
    rw [hplaced, ← Scope.known_append_held]
    rfl
  · exact Scope.held_nil _
  · exact hbodies

/-- A node that is no directive is opened in the sketch too. -/
theorem sketch_deepen (h : s.Grounded) (hlabel : label.kind.isDirective = false) :
    (s.deepen label).sketch lines = (s.sketch lines).deepen label.kind := by
  have hnode : s.level.node < s.tree.size := h s.level List.mem_cons_self
  have hscope : (s.deepen label).level.scope (s.deepen label).tree =
      (s.sketch lines).inner label.kind := scope_add_self hnode
  -- what is opened in a body is in this body
  have hbody : ∀ b, (s.level.scope s.tree).body = some b →
      ((s.sketch lines).inner label.kind).body = some b := by
    intro b hb
    show Option.or (s.level.scope s.tree).body _ = some b
    rw [hb, Option.some_or]
  apply Sketch.ext
  · exact hscope
  · exact map_scope_add hnode fun level hlevel => h level (List.mem_cons_of_mem _ hlevel)
  · rfl
  · show (s.deepen label).tree.markers ++ Scope.known (Level.scope _ _) _ = s.tree.markers ++ _ ++ _
    rw [hscope, List.append_assoc]
    exact congr (congrArg _ (markers_add_of_not_isDirective hnode hlabel))
      (Scope.known_append_known_held hbody).symm
  · show Scope.held (Level.scope _ _) _ = Scope.held _ _
    rw [hscope]
    exact (Scope.held_held hbody).symm
  · exact length_outerBlocks_add hnode

theorem sketch_descend (h : s.Grounded) (hlabel : label.kind.isDirective = false) :
    (s.descend label).sketch lines = (s.sketch lines).descend label.kind := by
  have hnode : s.level.node < s.tree.size := h s.level List.mem_cons_self
  have hdeepen : (s.deepen label).sketch lines = (s.sketch lines).deepen label.kind :=
    sketch_deepen h hlabel
  apply Sketch.ext
  · exact (congrArg Sketch.scope hdeepen :)
  · exact map_scope_add hnode h
  · rfl
  · exact (congrArg Sketch.known hdeepen :)
  · exact (congrArg Sketch.waiting hdeepen :)
  · exact (congrArg Sketch.bodies hdeepen :)

theorem grounded_descend (h : s.Grounded) : (s.descend label).Grounded := by
  have hsize : (s.descend label).tree.size = s.tree.size + 1 := size_add ..
  intro level hlevel
  rw [hsize]
  rcases List.mem_cons.1 hlevel with rfl | hlevel
  · exact Nat.lt_succ_self _
  · exact Nat.lt_succ_of_lt (h level hlevel)

theorem grounded_deepen (h : s.Grounded) : (s.deepen label).Grounded := by
  intro level hlevel
  apply grounded_descend h
  rcases List.mem_cons.1 hlevel with rfl | hlevel
  · exact List.mem_cons_self
  · exact List.mem_cons_of_mem _ (List.mem_cons_of_mem _ hlevel)

/-- An opening brace opens in the sketch what it opens in the tree. -/
theorem sketch_openBrace (h : s.Grounded) (pos : Nat) :
    (s.openBrace lines pos).sketch lines = (s.sketch lines).openBrace := by
  have howner : (s.owner lines pos).kind.isDirective = false :=
    Kind.isDirective_of_mayHold (mayHold_headerKind s.context _)
  have hkind : (s.owner lines pos).kind =
      headerKind (s.sketch lines).scope.kind (normalHeader (s.sketch lines).header.reverse) := rfl
  -- a directive that waits is placed last, in whatever has been opened by then
  have henter : (s.enter lines pos).Grounded ∧
      (s.enter lines pos).sketch lines = (s.sketch lines).enter (s.owner lines pos).kind := by
    unfold enter Sketch.enter
    split
    · refine ⟨grounded_deepen (grounded_descend h), ?_⟩
      rw [sketch_deepen (grounded_descend h) rfl, sketch_descend h howner]
      rfl
    · exact ⟨grounded_descend h, sketch_descend h howner⟩
  rw [openBrace_eq, Sketch.openBrace, ← hkind, ← henter.2, ← sketch_flush henter.1]
  rfl

theorem sketch_closeBrace (h : s.pending = []) :
    s.closeBrace.sketch lines = (s.sketch lines).closeBrace := by
  -- with no directive waiting it does not matter to which scope the pass goes back
  obtain ⟨tree, level, outer, header, headerStart, pending⟩ := s
  obtain rfl : pending = [] := h
  cases outer with
  | nil => rfl
  | cons next outer =>
    apply Sketch.ext
    · rfl
    · rfl
    · rfl
    · show tree.markers ++ (next.scope tree).known [] = tree.markers ++ (level.scope tree).known []
      rw [Scope.known_nil, Scope.known_nil]
    · exact (Scope.held_nil _).trans (Scope.held_nil _).symm
    · rfl

theorem sketch_countParen (s : Outline) (c : Char) :
    (s.countParen c).sketch lines = (s.sketch lines).countParen c := by
  unfold countParen Sketch.countParen
  split
  · rfl
  · split <;> rfl

theorem sketch_addCode (s : Outline) (pos : Nat) (c : Char) :
    (s.addCode pos c).sketch lines = (s.sketch lines).addCode c := by
  unfold addCode Sketch.addCode
  by_cases hend : c = ';' ∧ s.level.parens = 0
  · rw [if_pos hend, if_pos (by exact hend)]
    rfl
  · rw [if_neg hend, if_neg (by exact hend), ← sketch_countParen]
    rfl

theorem sketch_wait (s : Outline) (d : PendingDirective) :
    ({ s with pending := s.pending ++ [d] } : Outline).sketch lines =
      (s.sketch lines).announce (directiveLabel lines d) := by
  apply Sketch.ext
  · rfl
  · rfl
  · rfl
  · show _ ++ Scope.known _ _ = _ ++ _ ++ _
    rw [List.map_append, Scope.known_append, List.append_assoc]
    rfl
  · show Scope.held _ _ = Scope.held _ _ ++ _
    rw [List.map_append, Scope.held_append]
    rfl
  · rfl

/-- Every step of the pass is a step of its sketch. -/
theorem sketch_step (h : s.Grounded) (token : Token) :
    (s.step lines token).sketch lines = (s.sketch lines).step lines token := by
  obtain ⟨pos, lexeme⟩ := token
  have hflush : (s.flush lines).sketch lines = (s.sketch lines).settle := sketch_flush h
  cases lexeme with
  | newline => rfl
  | blank => rfl
  | blockComment => rfl
  | lineComment => rfl
  | directive line => exact sketch_wait s ⟨pos, line⟩
  | stringLiteral => exact congrArg (Sketch.addText _) hflush
  | charLiteral => exact congrArg (Sketch.addText _) hflush
  | code c =>
    by_cases hopen : c = '\x7b'
    · subst hopen
      exact sketch_openBrace h pos
    by_cases hclose : c = '\x7d'
    · subst hclose
      exact (sketch_closeBrace rfl).trans (congrArg Sketch.closeBrace hflush)
    rw [step_other hopen hclose, sketch_addCode, hflush, Sketch.step_other hopen hclose]

theorem sketch_start (lines : LineIndex) : start.sketch lines = Sketch.start := by
  have hsize : start.tree.size = 1 := size_add ..
  have hkind : start.tree.kind? 0 = some .compilationUnit := kind?_add_self
  have hdirective : start.tree.isDirective 0 = false := isDirective_add_self
  have hbody : start.tree.body? 0 = none := by
    apply body?_eq_none_iff.2
    intro a ha
    obtain rfl : a = 0 := Nat.le_zero.1 (le_of_mem_lineage ha)
    rw [hkind]
    nofun
  have hscope : start.level.scope start.tree = Sketch.start.scope := by
    show Scope.mk _ _ (start.tree.bodyNumber? 0) = _
    rw [bodyNumber?_eq_none_iff.2 hbody]
    exact congrArg (fun kind => Scope.mk (Option.getD kind _) 0 none) hkind
  apply Sketch.ext
  · exact hscope
  · rfl
  · rfl
  · show start.tree.markers ++ Scope.known _ [] = []
    rw [Scope.known_nil, markers, hsize]
    simp [hdirective]
  · exact Scope.held_nil _
  · show start.tree.outerBlocks.length = 0
    rw [outerBlocks, hsize]
    simp [hbody]

/-- The sketch after a list of tokens is a run of sketches. -/
theorem sketch_run (lines : LineIndex) (tokens : List Token) :
    (run lines tokens).sketch lines = Sketch.run lines tokens := by
  induction tokens using List.reverseRecOn with
  | nil => exact sketch_start lines
  | append_singleton tokens token ih =>
    have hrun : run lines (tokens ++ [token]) = (run lines tokens).step lines token :=
      List.foldl_append
    have hsketch : Sketch.run lines (tokens ++ [token]) =
        (Sketch.run lines tokens).step lines token := List.foldl_append
    rw [hrun, hsketch, sketch_step (grounded_run lines tokens), ih]

end Outline

/-- The directives of an outline with their bodies come out of a run of sketches. -/
theorem markers_outlineWith (lines : LineIndex) (text : List Char) :
    (outlineWith lines text).markers = (Sketch.run lines (lex text)).settle.known := by
  rw [← Outline.sketch_run, ← Outline.sketch_flush (Outline.grounded_run lines (lex text))]
  show _ = _ ++ Scope.known _ []
  rw [Scope.known_nil, List.append_nil]
  rfl

end RegionScope.Source
