import RegionScope.Proofs.Tree.Thinning

/-!
# What siblings show

A node is added as the last child of its parent, so what it asks of its siblings concerns those that
are there (`siblingsMeet_add_iff`), and every node that it is not added below keeps its children.
-/

namespace RegionScope.Tree

variable {t : Tree} {label : Label} {parent : Option Nat} {p i : Nat} {pos : Int}
  {R : Label → Label → Prop} {P : Label → Prop}

/-- Whether any two children of a node stand in a relation of what they show, the first child on
the left. -/
def SiblingsMeet (t : Tree) (R : Label → Label → Prop) : Prop :=
  ∀ node, (t.children node).Pairwise fun i j =>
    ∃ a b, t.label? i = some a ∧ t.label? j = some b ∧ R a b

/-- Whether some child of a node shows what meets a condition. -/
def HasChild (t : Tree) (node : Nat) (P : Label → Prop) : Prop :=
  ∃ i ∈ t.children node, ∃ a, t.label? i = some a ∧ P a

/-- Whether every node but the first one starts in front of an offset. -/
def StartsWithin (t : Tree) (pos : Int) : Prop :=
  ∀ i a, 0 < i → t.label? i = some a → a.start < pos

theorem lt_size_of_mem_children (h : i ∈ t.children p) : i < t.size :=
  lt_size_of_parent? (mem_children.1 h)

/-- Children start in front of every offset that all nodes but the first one start in front of. -/
theorem StartsWithin.not_hasChild (h : t.StartsWithin pos) (node : Nat) :
    ¬ t.HasChild node fun a => pos ≤ a.start := by
  rintro ⟨i, hi, a, ha, hle⟩
  have hpos : 0 < i := Nat.lt_of_le_of_lt (Nat.zero_le node) (parent?_lt (mem_children.1 hi))
  exact absurd (h i a hpos ha) (Int.not_lt.2 hle)

/-! ## Adding a node -/

theorem lt_size_add (h : i ≤ t.size) : i < (t.add label parent).size := by
  rw [size_add]
  exact Nat.lt_succ_of_le h

theorem startsWithin_add_iff (hpos : 0 < t.size) :
    (t.add label parent).StartsWithin pos ↔ t.StartsWithin pos ∧ label.start < pos := by
  constructor
  · intro h
    refine ⟨fun i a hi ha => h i a hi ?_, h t.size label hpos label?_add_self⟩
    rw [label?_add_of_lt (lt_size_of_label? ha), ha]
  · rintro ⟨hold, hnew⟩ i a hi ha
    rw [label?_add] at ha
    split at ha
    · cases ha
      exact hnew
    · exact hold i a hi ha

/-- The children of a node that a node is added below show what they showed, and the new one its
label. -/
theorem hasChild_add_iff (hp : p < t.size) :
    (t.add label (some p)).HasChild p P ↔ t.HasChild p P ∨ P label := by
  unfold HasChild
  rw [children_add, if_pos ⟨rfl, hp⟩]
  constructor
  · rintro ⟨i, hi, a, ha, hP⟩
    rcases List.mem_append.1 hi with hi | hi
    · rw [label?_add_of_lt (lt_size_of_mem_children hi)] at ha
      exact .inl ⟨i, hi, a, ha, hP⟩
    · rw [List.mem_singleton.1 hi, label?_add_self, Option.some_inj] at ha
      exact .inr (ha ▸ hP)
  · rintro (⟨i, hi, a, ha, hP⟩ | hP)
    · refine ⟨i, List.mem_append_left _ hi, a, ?_, hP⟩
      rw [label?_add_of_lt (lt_size_of_label? ha), ha]
    · exact ⟨t.size, by simp, label, label?_add_self, hP⟩

/-- A new node has no children. -/
theorem not_hasChild_add (t : Tree) (label : Label) (parent : Option Nat) (P : Label → Prop) :
    ¬ (t.add label parent).HasChild t.size P := by
  rintro ⟨i, hi, -⟩
  have hlt := parent?_lt (mem_children.1 hi)
  have hle := lt_size_of_mem_children hi
  rw [size_add] at hle
  omega

/-- A new node asks of its siblings what the relation does, and nothing of other nodes. -/
theorem siblingsMeet_add_iff (hp : p < t.size) :
    (t.add label (some p)).SiblingsMeet R ↔
      t.SiblingsMeet R ∧ ¬ t.HasChild p fun a => ¬ R a label := by
  have hkept : ∀ {i a}, t.label? i = some a → (t.add label (some p)).label? i = some a :=
    fun ha => (label?_add_of_lt (lt_size_of_label? ha)).trans ha
  have hold : ∀ node, (t.children node).Pairwise (fun i j => ∃ a b,
        (t.add label (some p)).label? i = some a ∧ (t.add label (some p)).label? j = some b ∧
          R a b) ↔
      (t.children node).Pairwise fun i j =>
        ∃ a b, t.label? i = some a ∧ t.label? j = some b ∧ R a b := by
    intro node
    refine List.Pairwise.iff_of_mem fun hi hj => ?_
    rw [label?_add_of_lt (lt_size_of_mem_children hi),
      label?_add_of_lt (lt_size_of_mem_children hj)]
  constructor
  · intro h
    refine ⟨fun node => (hold node).1 ?_, ?_⟩
    · have hnode := h node
      rw [children_add] at hnode
      exact (List.pairwise_append.1 hnode).1
    · rintro ⟨i, hi, a, ha, hnot⟩
      have hnode := h p
      rw [children_add, if_pos ⟨rfl, hp⟩] at hnode
      obtain ⟨b, c, hb, hc, hR⟩ := (List.pairwise_append.1 hnode).2.2 i hi t.size (by simp)
      rw [hkept ha, Option.some_inj] at hb
      rw [label?_add_self, Option.some_inj] at hc
      exact hnot (hb ▸ hc ▸ hR)
  · rintro ⟨h, hnew⟩ node
    rw [children_add]
    refine List.pairwise_append.2 ⟨(hold node).2 (h node), ?_, ?_⟩
    · split
      · exact List.pairwise_singleton _ _
      · exact .nil
    · intro i hi j hj
      split at hj
      · next hnode =>
        obtain rfl : p = node := Option.some.inj hnode.1
        obtain rfl : j = t.size := List.mem_singleton.1 hj
        obtain ⟨a, ha⟩ := exists_label?_of_lt (lt_size_of_mem_children hi)
        refine ⟨a, label, hkept ha, label?_add_self, ?_⟩
        exact Classical.byContradiction fun hnot => hnew ⟨i, hi, a, ha, hnot⟩
      · cases hj

/-- A single node has no children. -/
theorem siblingsMeet_single (label : Label) (R : Label → Label → Prop) :
    (Tree.empty.add label none).SiblingsMeet R := by
  intro node
  have hnone : (Tree.empty.add label none).children node = [] := by
    rw [children_add]
    rfl
  rw [hnone]
  exact .nil

end RegionScope.Tree
