import RegionScope.Tree.Basic

/-!
# Walks over a tree

Upwards: the ancestors of a node and the root that they end at. Downwards: the descendants
of a node in document order, each node before the nodes below it. `descendants` keeps a
list of the nodes still to visit; `below` is the same order by recursion on the tree. Both
walks end because parents have smaller numbers than their children.
-/

namespace RegionScope.Tree

/-- The ancestors of node `i`, its parent first. -/
def ancestors (t : Tree) (i : Nat) : List Nat :=
  match _h : t.parent? i with
  | none => []
  | some p => p :: t.ancestors p
termination_by i
decreasing_by exact parent?_lt _h

/-- Node `i` and its ancestors. -/
def lineage (t : Tree) (i : Nat) : List Nat := i :: t.ancestors i

/-- The root above node `i`. -/
def root (t : Tree) (i : Nat) : Nat :=
  match _h : t.parent? i with
  | none => i
  | some p => t.root p
termination_by i
decreasing_by exact parent?_lt _h

/-- Visits the nodes of a list and all that is below them, at most `fuel` nodes. -/
def visit (t : Tree) : Nat → List Nat → List Nat
  | 0, _ => []
  | _, [] => []
  | fuel + 1, i :: rest => i :: t.visit fuel (t.children i ++ rest)

/-- The descendants of node `i` in document order, without the node. A tree has no more
nodes than its size, so the walk is never cut short. -/
def descendants (t : Tree) (i : Nat) : List Nat := t.visit t.size (t.children i)

/-- What is below node `i`, child by child: the child, then what is below it. -/
def below (t : Tree) (i : Nat) : List Nat :=
  (t.children i).attach.flatMap fun c => c.1 :: t.below c.1
termination_by t.size - i
decreasing_by
  have h := mem_children.1 c.2
  have := parent?_lt h
  have := lt_size_of_parent? h
  omega

theorem ancestors_of_none {t : Tree} {i : Nat} (h : t.parent? i = none) : t.ancestors i = [] := by
  rw [ancestors]
  split
  · rfl
  · next p hp => rw [h] at hp; cases hp

theorem ancestors_of_some {t : Tree} {i p : Nat} (h : t.parent? i = some p) :
    t.ancestors i = p :: t.ancestors p := by
  rw [ancestors]
  split
  · next hp => rw [h] at hp; cases hp
  · next q hq => rw [h] at hq; cases hq; rfl

theorem root_of_none {t : Tree} {i : Nat} (h : t.parent? i = none) : t.root i = i := by
  rw [root]
  split
  · rfl
  · next p hp => rw [h] at hp; cases hp

theorem root_of_some {t : Tree} {i p : Nat} (h : t.parent? i = some p) : t.root i = t.root p := by
  rw [root]
  split
  · next hp => rw [h] at hp; cases hp
  · next q hq => rw [h] at hq; cases hq; rfl

/-- What is below a node, by its children. -/
theorem below_eq (t : Tree) (i : Nat) :
    t.below i = (t.children i).flatMap fun c => c :: t.below c := by
  rw [below, List.flatMap_subtype (g := fun c => c :: t.below c) (fun _ _ => rfl),
    List.unattach_attach]

/-- The directive that node `i` is. -/
def directive? (t : Tree) (i : Nat) : Option DirectiveKind := (t.kind? i).bind (·.directive?)

/-- Whether node `i` is a directive. -/
def isDirective (t : Tree) (i : Nat) : Bool := (t.directive? i).isSome

/-- The directives below node `i` in document order. -/
def directivesBelow (t : Tree) (i : Nat) : List Nat := (t.descendants i).filter t.isDirective

end RegionScope.Tree
