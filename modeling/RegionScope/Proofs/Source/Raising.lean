import RegionScope.Proofs.Source.SketchRuns

/-!
# Passes that go on in the root

A pass that has come back to the root, with no header, goes on as if it started. That directives may
still wait makes no difference in the end, since they are in no body wherever they are placed
(`settle_foldl`). What a pass adds then it adds behind the directives that are known, and it numbers
bodies behind those that there are: every step commutes with raising the numbers of bodies
(`raise_step`).
-/

namespace RegionScope

/-- The marker with the number of its body raised by `n`. -/
def Marker.raise (n : Nat) (m : Marker) : Marker := { m with body := m.body.map (n + ·) }

namespace Source

open RegionScope.Text

namespace Scope

/-- The scope with the number of its body raised by `n`. -/
def raise (n : Nat) (scope : Scope) : Scope := { scope with body := scope.body.map (n + ·) }

variable (n : Nat) (scope : Scope) (labels : List Label)

theorem map_mark_raise : labels.map (scope.raise n).mark =
    (labels.map scope.mark).map (Marker.raise n) := by
  rw [List.map_map]
  rfl

theorem isSome_body_raise : (scope.raise n).body.isSome = scope.body.isSome := by
  rw [raise, Option.isSome_map]

theorem known_raise : (scope.raise n).known labels = (scope.known labels).map (Marker.raise n) := by
  unfold known
  rw [isSome_body_raise, map_mark_raise]
  split <;> rfl

theorem held_raise : (scope.raise n).held labels = scope.held labels := by
  unfold held
  rw [isSome_body_raise]

end Scope

namespace Sketch

/-! ## Raised numbers of bodies -/

/-- The sketch behind directives that are known and `n` bodies. -/
def raise (before : List Marker) (n : Nat) (σ : Sketch) : Sketch where
  scope := σ.scope.raise n
  outer := σ.outer.map (Scope.raise n)
  header := σ.header
  known := before ++ σ.known.map (Marker.raise n)
  waiting := σ.waiting
  bodies := n + σ.bodies

variable (before : List Marker) (n : Nat) (σ : Sketch)

theorem raise_announce (label : Label) :
    (σ.raise before n).announce label = (σ.announce label).raise before n := by
  have hknown : before ++ σ.known.map (Marker.raise n) ++ (σ.scope.raise n).known [label] =
      before ++ (σ.known ++ σ.scope.known [label]).map (Marker.raise n) := by
    rw [Scope.known_raise, List.map_append, List.append_assoc]
  unfold announce raise
  rw [hknown, Scope.held_raise]

theorem raise_settle : (σ.raise before n).settle = σ.settle.raise before n := by
  have hknown : before ++ σ.known.map (Marker.raise n) ++ σ.waiting.map (σ.scope.raise n).mark =
      before ++ (σ.known ++ σ.waiting.map σ.scope.mark).map (Marker.raise n) := by
    rw [Scope.map_mark_raise, List.map_append, List.append_assoc]
  unfold settle raise
  rw [hknown]

/-- A body that is opened gets the next number. -/
theorem raise_inner (kind : Kind) :
    (σ.raise before n).inner kind = (σ.inner kind).raise n := by
  unfold inner raise Scope.raise
  cases σ.scope.body with
  | some b => rfl
  | none =>
    by_cases hkind : kind = .block
    · simp [hkind]
    · simp [hkind]

theorem raise_deepen (kind : Kind) :
    (σ.raise before n).deepen kind = (σ.deepen kind).raise before n := by
  have hknown : before ++ σ.known.map (Marker.raise n) ++
      ((σ.inner kind).raise n).known σ.waiting =
        before ++ (σ.known ++ (σ.inner kind).known σ.waiting).map (Marker.raise n) := by
    rw [Scope.known_raise, List.map_append, List.append_assoc]
  have hbody : (σ.raise before n).scope.body = none ↔ σ.scope.body = none := Option.map_eq_none_iff
  apply Sketch.ext
  · exact raise_inner before n σ kind
  · rfl
  · rfl
  · show (σ.raise before n).known ++ ((σ.raise before n).inner kind).known σ.waiting = _
    rw [raise_inner]
    exact hknown
  · show ((σ.raise before n).inner kind).held σ.waiting = _
    rw [raise_inner, Scope.held_raise]
    rfl
  · show n + σ.bodies + (if (σ.raise before n).scope.body = none ∧ kind = .block then 1 else 0) =
      n + (σ.bodies + if σ.scope.body = none ∧ kind = .block then 1 else 0)
    simp only [hbody, Nat.add_assoc]

theorem raise_descend (kind : Kind) :
    (σ.raise before n).descend kind = (σ.descend kind).raise before n := by
  unfold descend
  rw [raise_deepen]
  rfl

theorem raise_openBrace : (σ.raise before n).openBrace = σ.openBrace.raise before n := by
  have henter : ∀ kind, (σ.raise before n).enter kind = (σ.enter kind).raise before n := by
    intro kind
    unfold enter
    split
    · rw [raise_descend, raise_deepen]
    · exact raise_descend before n σ kind
  unfold openBrace
  rw [henter, raise_settle]
  rfl

theorem raise_closeBrace : (σ.raise before n).closeBrace = σ.closeBrace.raise before n := by
  obtain ⟨scope, outer, header, known, waiting, bodies⟩ := σ
  cases outer with
  | nil => rfl
  | cons next outer => rfl

theorem raise_addCode (c : Char) :
    (σ.raise before n).addCode c = (σ.addCode c).raise before n := by
  have hcount : (σ.raise before n).countParen c = (σ.countParen c).raise before n := by
    unfold countParen
    split
    · rfl
    · split <;> rfl
  unfold addCode
  rw [hcount]
  split
  · next hend => rw [if_pos (by exact hend)]; rfl
  · next hend => rw [if_neg (by exact hend)]; rfl

/-- A step behind other directives and bodies is the step with raised numbers. -/
theorem raise_step (lines : LineIndex) (token : Token) :
    (σ.raise before n).step lines token = (σ.step lines token).raise before n := by
  obtain ⟨pos, lexeme⟩ := token
  cases lexeme with
  | newline => rfl
  | blank => rfl
  | blockComment => rfl
  | lineComment => rfl
  | directive line => exact raise_announce before n σ _
  | stringLiteral => exact congrArg (addText _) (raise_settle before n σ)
  | charLiteral => exact congrArg (addText _) (raise_settle before n σ)
  | code c =>
    by_cases hopen : c = '\x7b'
    · subst hopen
      exact raise_openBrace before n σ
    by_cases hclose : c = '\x7d'
    · subst hclose
      rw [step_close, raise_settle, raise_closeBrace, step_close]
    rw [step_other hopen hclose, raise_settle, raise_addCode, step_other hopen hclose]

theorem raise_foldl (lines : LineIndex) (tokens : List Token) :
    tokens.foldl (step lines) (σ.raise before n) =
      (tokens.foldl (step lines) σ).raise before n := by
  induction tokens generalizing σ with
  | nil => rfl
  | cons token tokens ih => rw [List.foldl_cons, raise_step, ih, List.foldl_cons]

/-! ## Directives that wait in the root -/

/-- The pass is in the root, and no header has started. -/
structure AtRoot (σ : Sketch) : Prop where
  scope : σ.scope = ⟨.compilationUnit, 0, none⟩
  outer : σ.outer = []
  blank : ∀ c ∈ σ.header, c = ' '

variable {σ : Sketch}

theorem settle_settle (σ : Sketch) : σ.settle.settle = σ.settle := by
  unfold settle
  rw [List.map_nil, List.append_nil]

namespace AtRoot

theorem settle (h : AtRoot σ) : AtRoot σ.settle := ⟨h.scope, h.outer, h.blank⟩

theorem announce (h : AtRoot σ) (label : Label) : AtRoot (σ.announce label) :=
  ⟨h.scope, h.outer, h.blank⟩

theorem addBlank (h : AtRoot σ) : AtRoot (σ.addText [' ']) := by
  refine ⟨h.scope, h.outer, ?_⟩
  intro c hc
  rcases List.mem_cons.1 hc with rfl | hc
  · rfl
  · exact h.blank c hc

/-- In the root a directive waits. -/
theorem announce_eq (h : AtRoot σ) (label : Label) :
    σ.announce label = { σ with waiting := σ.waiting ++ [label] } := by
  unfold Sketch.announce Scope.known Scope.held
  rw [h.scope]
  simp

/-- It is in no body, whenever it is placed. -/
theorem settle_announce (h : AtRoot σ) (label : Label) :
    (σ.settle.announce label).settle = (σ.announce label).settle := by
  rw [h.settle.announce_eq, h.announce_eq]
  unfold Sketch.settle
  simp

/-- A brace without a header opens a node that is no block and owns none. -/
theorem openBrace_eq (h : AtRoot σ) : ∃ kind,
    kind ≠ .block ∧ σ.openBrace = (σ.descend kind).settle.endHeader ∧
      σ.settle.openBrace = (σ.settle.descend kind).settle.endHeader := by
  have hheader : normalHeader σ.header.reverse = [] :=
    (SameHeader.of_blanks h.blank).normalHeader.trans dropAttributes.eq_1
  have hkind : headerKind σ.scope.kind (normalHeader σ.header.reverse) = .propertyDeclaration := by
    rw [hheader, h.scope]
    decide +kernel
  have henter : ∀ σ : Sketch, σ.enter .propertyDeclaration = σ.descend .propertyDeclaration :=
    fun _ => rfl
  refine ⟨.propertyDeclaration, by decide, ?_, ?_⟩
  · rw [Sketch.openBrace, hkind, henter]
  · show (σ.settle.enter
      (headerKind σ.scope.kind (normalHeader σ.header.reverse))).settle.endHeader = _
    rw [hkind, henter]

/-- Directives that waited in the root are in no body in the node that a brace opens. -/
theorem openBrace_settle (h : AtRoot σ) : σ.settle.openBrace = σ.openBrace := by
  obtain ⟨kind, hkind, hopen, hsettle⟩ := h.openBrace_eq
  have hinner : σ.inner kind = ⟨kind, 0, none⟩ := by
    rw [inner, h.scope, if_neg hkind]
    rfl
  rw [hopen, hsettle]
  congr 1
  apply Sketch.ext
  · rfl
  · rfl
  · rfl
  · show σ.known ++ σ.waiting.map σ.scope.mark ++ (σ.inner kind).known [] ++
        ((σ.inner kind).held []).map (σ.inner kind).mark =
      σ.known ++ (σ.inner kind).known σ.waiting ++
        ((σ.inner kind).held σ.waiting).map (σ.inner kind).mark
    have hmark : σ.scope.mark = (σ.inner kind).mark := by
      funext label
      rw [Scope.mark, Scope.mark, hinner, h.scope]
    rw [Scope.known_nil, Scope.held_nil, List.append_nil, List.map_nil, List.append_nil,
      List.append_assoc, Scope.known_append_held, hmark]
  · rfl
  · rfl

/-- A token that is not taken into a header of its own leaves the pass in the root. -/
theorem step_settle (h : AtRoot σ) (lines : LineIndex) (token : Token) :
    σ.settle.step lines token = σ.step lines token ∨
      AtRoot (σ.settle.step lines token) ∧ AtRoot (σ.step lines token) ∧
        (σ.settle.step lines token).settle = (σ.step lines token).settle := by
  obtain ⟨pos, lexeme⟩ := token
  cases lexeme with
  | newline => exact .inr ⟨h.settle.addBlank, h.addBlank, congrArg (addText _) (settle_settle σ)⟩
  | blank => exact .inr ⟨h.settle.addBlank, h.addBlank, congrArg (addText _) (settle_settle σ)⟩
  | blockComment =>
    exact .inr ⟨h.settle.addBlank, h.addBlank, congrArg (addText _) (settle_settle σ)⟩
  | lineComment => exact .inr ⟨h.settle, h, settle_settle σ⟩
  | directive line =>
    exact .inr ⟨h.settle.announce _, h.announce _, h.settle_announce _⟩
  | stringLiteral => exact .inl (congrArg (addText _) (settle_settle σ))
  | charLiteral => exact .inl (congrArg (addText _) (settle_settle σ))
  | code c =>
    by_cases hopen : c = '\x7b'
    · subst hopen
      exact .inl h.openBrace_settle
    by_cases hclose : c = '\x7d'
    · subst hclose
      exact .inl (congrArg closeBrace (settle_settle σ))
    left
    rw [step_other hopen hclose, step_other hopen hclose, settle_settle]

end AtRoot

/-- Directives that wait in the root may be placed at once: in the end they are in no body. -/
theorem settle_foldl (h : AtRoot σ) (lines : LineIndex) (tokens : List Token) :
    (tokens.foldl (step lines) σ.settle).settle = (tokens.foldl (step lines) σ).settle := by
  induction tokens generalizing σ with
  | nil => exact settle_settle σ
  | cons token tokens ih =>
    rw [List.foldl_cons, List.foldl_cons]
    -- up to the first significant token the two states differ in what waits
    rcases h.step_settle lines token with heq | ⟨hroot, hroot', heq⟩
    · rw [heq]
    · rw [← ih hroot, heq, ih hroot']

end Sketch

end Source

end RegionScope
