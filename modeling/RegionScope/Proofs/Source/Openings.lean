import RegionScope.Proofs.Source.Frontier

/-!
# What a brace opens, node by node

An opening brace opens its owner and, if the kind owns one, a block in the owner's place; then the
directives that wait go to what is open (`Outline.openBrace_eq`). The pass over any token is so made
up of few changes: to open a node, to open one in place of another, to place the directives that
wait, to close a node, and to add to the header or to end it.
-/

namespace RegionScope.Source.Outline

open RegionScope.Text

/-- Opens a node below the innermost open node. -/
def descend (label : Label) (s : Outline) : Outline :=
  { s with tree := s.tree.add label (some s.level.node), level := ⟨s.tree.size, 0⟩,
           outer := s.level :: s.outer }

/-- Opens a node below the innermost open node and in its place. -/
def deepen (label : Label) (s : Outline) : Outline :=
  { s with tree := s.tree.add label (some s.level.node), level := ⟨s.tree.size, 0⟩ }

/-- The kind of the innermost open node. -/
def context (s : Outline) : Kind := (s.tree.kind? s.level.node).getD .compilationUnit

/-- What the owner shows of a brace at `pos`. -/
def owner (lines : LineIndex) (pos : Nat) (s : Outline) : Label :=
  ownerLabel lines s.context (normalHeader s.header.reverse) (s.headerStart.getD pos)

/-- Opens the owner of a brace at `pos`, and its block if its kind owns one. -/
def enter (lines : LineIndex) (pos : Nat) (s : Outline) : Outline :=
  if (s.owner lines pos).kind.ownsBlock then
    (s.descend (s.owner lines pos)).deepen (blockLabel lines pos)
  else s.descend (s.owner lines pos)

theorem openBrace_eq (lines : LineIndex) (pos : Nat) (s : Outline) :
    s.openBrace lines pos = ((s.enter lines pos).flush lines).endHeader := by
  have hcontext : (s.tree.kind? s.level.node).getD .compilationUnit = s.context := rfl
  have hsize : (s.tree.add (s.owner lines pos) (some s.level.node)).size = s.tree.size + 1 :=
    Tree.size_add ..
  unfold openBrace enter
  simp only [hcontext]
  by_cases h : (headerKind s.context (normalHeader s.header.reverse)).ownsBlock = true
  · rw [if_pos h, if_pos (by exact h), ← hsize]
    rfl
  · rw [if_neg h, if_neg (by exact h)]
    rfl

variable {lines : LineIndex} {s : Outline} {pos : Nat}

theorem step_open : s.step lines ⟨pos, .code '\x7b'⟩ = s.openBrace lines pos := rfl

theorem step_close : s.step lines ⟨pos, .code '\x7d'⟩ = (s.flush lines).closeBrace := rfl

theorem step_other {c : Char} (hopen : c ≠ '\x7b') (hclose : c ≠ '\x7d') :
    s.step lines ⟨pos, .code c⟩ = (s.flush lines).addCode pos c := by
  simp only [step, if_neg hopen, if_neg hclose]

end RegionScope.Source.Outline
