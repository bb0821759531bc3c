import RegionScope.Tree.Kind

/-!
# Trees of source nodes

Nodes are numbered in order of creation. A new node becomes the last child of its parent,
and parent links never change, so a parent always has the smaller number. The type `Tree`
holds both directions of the links, and with them the two facts that keep them in step:
every parent link goes to a smaller number, and the children of a node are, in order of
creation, exactly the nodes whose parent it is.

Several nodes may have no parent; each is the root of a tree of its own.
-/

namespace RegionScope

/-- What a node shows: kind, offset, line and name. -/
structure Label where
  kind : Kind
  start : Int
  line : Int
  name : String
deriving DecidableEq

/-- A node with its links. -/
structure Node where
  label : Label
  parent : Option Nat
  children : Array Nat

namespace Node

/-- The parent of node `i` in a list of nodes. -/
def parentIn (nodes : Array Node) (i : Nat) : Option Nat :=
  nodes[i]?.bind (·.parent)

/-- The children of node `i` in a list of nodes. -/
def childrenIn (nodes : Array Node) (i : Nat) : List Nat :=
  (nodes[i]?.map (·.children.toList)).getD []

/-- Adds `child` at the end of the children of `parent`. -/
def adopt (nodes : Array Node) (parent : Option Nat) (child : Nat) : Array Node :=
  match parent with
  | some p => nodes.modify p fun node => { node with children := node.children.push child }
  | none => nodes

/-- Adopting adds no node. -/
theorem size_adopt (nodes : Array Node) (parent : Option Nat) (child : Nat) :
    (adopt nodes parent child).size = nodes.size := by
  cases parent <;> simp [adopt]

/-- Adopting changes no parent. -/
theorem parentIn_adopt (nodes : Array Node) (parent : Option Nat) (child i : Nat) :
    parentIn (adopt nodes parent child) i = parentIn nodes i := by
  cases parent with
  | none => rfl
  | some p =>
    simp only [adopt, parentIn, Array.getElem?_modify]
    split
    · next h => subst h; cases nodes[p]? <;> rfl
    · rfl

/-- Adopting changes no label. -/
theorem label_adopt (nodes : Array Node) (parent : Option Nat) (child i : Nat) :
    (adopt nodes parent child)[i]?.map (·.label) = nodes[i]?.map (·.label) := by
  cases parent with
  | none => rfl
  | some p =>
    simp only [adopt, Array.getElem?_modify]
    split
    · next h => subst h; cases nodes[p]? <;> rfl
    · rfl

/-- Adopting appends one child to one node. -/
theorem childrenIn_adopt (nodes : Array Node) (parent : Option Nat) (child i : Nat)
    (h : i < nodes.size) :
    childrenIn (adopt nodes parent child) i =
      childrenIn nodes i ++ if parent = some i then [child] else [] := by
  cases parent with
  | none => simp [adopt]
  | some p =>
    simp only [adopt, childrenIn, Array.getElem?_modify, Option.some.injEq]
    by_cases hp : p = i
    · simp [hp, Array.getElem?_eq_getElem h]
    · simp [hp]

theorem parentIn_push (nodes : Array Node) (node : Node) (i : Nat) :
    parentIn (nodes.push node) i =
      if i = nodes.size then node.parent else parentIn nodes i := by
  simp only [parentIn, Array.getElem?_push]
  by_cases hi : i = nodes.size <;> simp [hi]

theorem childrenIn_push (nodes : Array Node) (node : Node) (i : Nat) :
    childrenIn (nodes.push node) i =
      if i = nodes.size then node.children.toList else childrenIn nodes i := by
  simp only [childrenIn, Array.getElem?_push]
  by_cases hi : i = nodes.size <;> simp [hi]

theorem parentIn_of_size_le {nodes : Array Node} {i : Nat} (h : nodes.size ≤ i) :
    parentIn nodes i = none := by
  simp [parentIn, Array.getElem?_eq_none h]

theorem childrenIn_of_size_le {nodes : Array Node} {i : Nat} (h : nodes.size ≤ i) :
    childrenIn nodes i = [] := by
  simp [childrenIn, Array.getElem?_eq_none h]

end Node

/-- Nodes numbered in order of creation, with links that agree in both directions. -/
structure Tree where
  nodes : Array Node
  parent_lt : ∀ i p, Node.parentIn nodes i = some p → p < i
  children_eq : ∀ i, Node.childrenIn nodes i =
    (List.range nodes.size).filter fun c => decide (Node.parentIn nodes c = some i)

namespace Tree

/-- The tree without nodes. -/
def empty : Tree where
  nodes := #[]
  parent_lt := by simp [Node.parentIn]
  children_eq := by simp [Node.childrenIn]

/-- The number of nodes. -/
def size (t : Tree) : Nat := t.nodes.size

/-- What node `i` shows. -/
def label? (t : Tree) (i : Nat) : Option Label := t.nodes[i]?.map (·.label)

/-- The kind of node `i`. -/
def kind? (t : Tree) (i : Nat) : Option Kind := (t.label? i).map (·.kind)

/-- The parent of node `i`. -/
def parent? (t : Tree) (i : Nat) : Option Nat := Node.parentIn t.nodes i

/-- The children of node `i`, first to last. -/
def children (t : Tree) (i : Nat) : List Nat := Node.childrenIn t.nodes i

/-- The two directions of the links agree. -/
theorem mem_children {t : Tree} {i c : Nat} :
    c ∈ t.children i ↔ t.parent? c = some i := by
  rw [children, t.children_eq, List.mem_filter, List.mem_range, decide_eq_true_iff]
  constructor
  · exact fun h => h.2
  · intro h
    refine ⟨?_, h⟩
    rcases Nat.lt_or_ge c t.nodes.size with hc | hc
    · exact hc
    · rw [parent?, Node.parentIn_of_size_le hc] at h
      cases h

/-- A parent is older than its children. -/
theorem parent?_lt {t : Tree} {i p : Nat} (h : t.parent? i = some p) : p < i :=
  t.parent_lt i p h

theorem lt_size_of_parent? {t : Tree} {i p : Nat} (h : t.parent? i = some p) : i < t.size := by
  rcases Nat.lt_or_ge i t.nodes.size with hi | hi
  · exact hi
  · rw [parent?, Node.parentIn_of_size_le hi] at h
    cases h

/-- The tree with one more node, whose number is the size so far, as the last child of `parent`.
A parent that is not in the tree counts as none. -/
def add (t : Tree) (label : Label) (parent : Option Nat) : Tree :=
  let parent := parent.filter (· < t.nodes.size)
  { nodes := (Node.adopt t.nodes parent t.nodes.size).push ⟨label, parent, #[]⟩
    parent_lt := by
      intro i p h
      rw [Node.parentIn_push, Node.size_adopt, Node.parentIn_adopt] at h
      split at h
      · next hi =>
        subst hi
        have := Option.mem_filter_iff.1 (show p ∈ parent from h)
        simpa using this.2
      · exact t.parent_lt i p h
    children_eq := by
      intro i
      rw [Array.size_push, Node.size_adopt, List.range_succ, List.filter_append,
        Node.childrenIn_push, Node.size_adopt]
      have hparent : ∀ c, c ∈ List.range t.nodes.size →
          decide (Node.parentIn ((Node.adopt t.nodes parent t.nodes.size).push
            ⟨label, parent, #[]⟩) c = some i) =
          decide (Node.parentIn t.nodes c = some i) := by
        intro c hc
        rw [Node.parentIn_push, Node.size_adopt, Node.parentIn_adopt,
          if_neg (Nat.ne_of_lt (List.mem_range.1 hc))]
      rw [List.filter_congr hparent, ← t.children_eq]
      have hlast : Node.parentIn ((Node.adopt t.nodes parent t.nodes.size).push
          ⟨label, parent, #[]⟩) t.nodes.size = parent := by
        rw [Node.parentIn_push, Node.size_adopt, if_pos rfl]
      rw [List.filter_cons, List.filter_nil, hlast]
      rcases Nat.lt_trichotomy i t.nodes.size with hi | hi | hi
      · rw [if_neg (Nat.ne_of_lt hi), Node.childrenIn_adopt _ _ _ _ hi]
        simp
      · have hne : parent ≠ some i := by
          intro h
          have := (Option.mem_filter_iff.1 (show i ∈ parent from h)).2
          simp [hi] at this
        simp [hi, hi ▸ hne, Node.childrenIn_of_size_le]
      · have hne : parent ≠ some i := by
          intro h
          have := (Option.mem_filter_iff.1 (show i ∈ parent from h)).2
          simp at this
          omega
        rw [if_neg (Nat.ne_of_gt hi),
          Node.childrenIn_of_size_le (by rw [Node.size_adopt]; omega),
          Node.childrenIn_of_size_le (Nat.le_of_lt hi)]
        simp [hne] }

/-- A new node takes the next number. -/
theorem size_add (t : Tree) (label : Label) (parent : Option Nat) :
    (t.add label parent).size = t.size + 1 := by
  simp [add, size, Node.size_adopt]

/-- A new node shows its label; every other node is as before. -/
theorem label?_add (t : Tree) (label : Label) (parent : Option Nat) (i : Nat) :
    (t.add label parent).label? i = if i = t.size then some label else t.label? i := by
  by_cases hi : i = t.size
  · have heq : i = t.nodes.size := hi
    rw [if_pos hi]
    simp only [label?, add, Array.getElem?_push, Node.size_adopt, if_pos heq]
    rfl
  · rw [if_neg hi]
    have hne : i ≠ t.nodes.size := hi
    simp only [label?, add, Array.getElem?_push, Node.size_adopt, if_neg hne]
    exact Node.label_adopt t.nodes _ _ i

/-- A new node has the given parent; every other node keeps its own. -/
theorem parent?_add (t : Tree) (label : Label) (parent : Option Nat) (i : Nat) :
    (t.add label parent).parent? i =
      if i = t.size then parent.filter (· < t.size) else t.parent? i := by
  rw [parent?, add, Node.parentIn_push, Node.size_adopt, Node.parentIn_adopt]
  rfl

/-- A new node is the last child of its parent. -/
theorem children_add (t : Tree) (label : Label) (parent : Option Nat) (i : Nat) :
    (t.add label parent).children i =
      t.children i ++ if parent = some i ∧ i < t.size then [t.size] else [] := by
  have hnew : (t.add label parent).parent? t.size = parent.filter (· < t.size) := by
    rw [parent?_add, if_pos rfl]
  have hold : ∀ c, c ∈ List.range t.size →
      decide ((t.add label parent).parent? c = some i) = decide (t.parent? c = some i) := by
    intro c hc
    rw [parent?_add, if_neg (Nat.ne_of_lt (List.mem_range.1 hc))]
  have hsize : (t.add label parent).nodes.size = t.size + 1 := size_add t label parent
  rw [children, (t.add label parent).children_eq, hsize, List.range_succ, List.filter_append]
  rw [show (fun c => decide (Node.parentIn (t.add label parent).nodes c = some i)) =
    fun c => decide ((t.add label parent).parent? c = some i) from rfl]
  rw [List.filter_congr hold, List.filter_cons, List.filter_nil, hnew]
  rw [show (List.range t.size).filter (fun c => decide (t.parent? c = some i)) = t.children i
    from (t.children_eq i).symm]
  simp [Option.filter_eq_some_iff]

end Tree

end RegionScope
