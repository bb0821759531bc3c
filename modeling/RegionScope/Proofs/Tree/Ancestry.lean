import RegionScope.Tree.Traversal

/-!
# Ancestors

The lineage of a node is the chain of numbers from the node to its root, and these numbers
decrease. The lineage of a member is the rest of the chain from that member on
(`lineage_suffix`), so two members of one lineage are comparable (`mem_lineage_of_le`).

Adding a node changes the lineage of no older node (`lineage_add_of_lt`); the new node has
its own number in front of the lineage of its parent (`lineage_add_self`).
-/

namespace RegionScope.Tree

variable {t : Tree} {i a b : Nat}

theorem mem_lineage_iff : a ∈ t.lineage i ↔ a = i ∨ a ∈ t.ancestors i := List.mem_cons

theorem mem_lineage_self (t : Tree) (i : Nat) : i ∈ t.lineage i := List.mem_cons_self

theorem ancestors_eq_lineage {p : Nat} (h : t.parent? i = some p) :
    t.ancestors i = t.lineage p := ancestors_of_some h

theorem lineage_of_none (h : t.parent? i = none) : t.lineage i = [i] := by
  rw [lineage, ancestors_of_none h]

theorem lineage_of_some {p : Nat} (h : t.parent? i = some p) :
    t.lineage i = i :: t.lineage p := by
  rw [lineage, ancestors_eq_lineage h]

/-- The ancestors of a node are the lineage of its parent. -/
theorem mem_ancestors_iff : a ∈ t.ancestors i ↔ ∃ p, t.parent? i = some p ∧ a ∈ t.lineage p := by
  cases h : t.parent? i with
  | none => simp [ancestors_of_none h]
  | some p => simp [ancestors_eq_lineage h]

/-- Ancestors are older. -/
theorem lt_of_mem_ancestors (h : a ∈ t.ancestors i) : a < i := by
  -- a parent is older, so the induction is on the number of the node
  induction i using Nat.strongRecOn with
  | ind i ih =>
    obtain ⟨p, hp, ha⟩ := mem_ancestors_iff.1 h
    have hlt := parent?_lt hp
    rcases mem_lineage_iff.1 ha with rfl | ha
    · exact hlt
    · exact Nat.lt_trans (ih p hlt ha) hlt

theorem le_of_mem_lineage (h : a ∈ t.lineage i) : a ≤ i := by
  rcases mem_lineage_iff.1 h with rfl | h
  · exact Nat.le_refl a
  · exact Nat.le_of_lt (lt_of_mem_ancestors h)

/-- The lineage of a member is the rest of the lineage from that member on. -/
theorem lineage_suffix (h : a ∈ t.lineage i) : t.lineage a <:+ t.lineage i := by
  induction i using Nat.strongRecOn with
  | ind i ih =>
    rcases mem_lineage_iff.1 h with rfl | h
    · exact List.suffix_refl _
    · obtain ⟨p, hp, ha⟩ := mem_ancestors_iff.1 h
      rw [lineage_of_some hp]
      exact (ih p (parent?_lt hp) ha).trans (List.suffix_cons i _)

theorem mem_lineage_trans (ha : a ∈ t.lineage b) (hb : b ∈ t.lineage i) : a ∈ t.lineage i :=
  (lineage_suffix hb).subset ha

theorem mem_ancestors_of_lineage (ha : a ∈ t.lineage b) (hb : b ∈ t.ancestors i) :
    a ∈ t.ancestors i := by
  obtain ⟨p, hp, hb⟩ := mem_ancestors_iff.1 hb
  exact mem_ancestors_iff.2 ⟨p, hp, mem_lineage_trans ha hb⟩

/-- Of two members of one lineage the older one lies above the younger one. -/
theorem mem_lineage_of_le (ha : a ∈ t.lineage i) (hb : b ∈ t.lineage i) (hle : a ≤ b) :
    a ∈ t.lineage b := by
  -- both lineages end one list, so the one ends the other
  rcases List.suffix_or_suffix_of_suffix (lineage_suffix ha) (lineage_suffix hb) with h | h
  · exact h.subset (mem_lineage_self t a)
  · have := le_of_mem_lineage (h.subset (mem_lineage_self t b))
    obtain rfl : a = b := Nat.le_antisymm hle this
    exact mem_lineage_self t a

/-- A node lies below `a` when some node of its lineage is a child of `a`. -/
theorem mem_ancestors_iff_exists_child :
    a ∈ t.ancestors i ↔ ∃ c ∈ t.lineage i, t.parent? c = some a := by
  induction i using Nat.strongRecOn with
  | ind i ih =>
    constructor
    · intro h
      obtain ⟨p, hp, ha⟩ := mem_ancestors_iff.1 h
      rcases mem_lineage_iff.1 ha with rfl | ha
      · -- the parent is `a`, so the node itself is the child
        exact ⟨i, mem_lineage_self t i, hp⟩
      · obtain ⟨c, hc, hca⟩ := (ih p (parent?_lt hp)).1 ha
        exact ⟨c, lineage_of_some hp ▸ List.mem_cons_of_mem i hc, hca⟩
    · rintro ⟨c, hc, hca⟩
      have ha : a ∈ t.ancestors c := mem_ancestors_iff.2 ⟨a, hca, mem_lineage_self t a⟩
      rcases mem_lineage_iff.1 hc with rfl | hc
      · exact ha
      · exact mem_ancestors_of_lineage (mem_lineage_iff.2 (.inr ha)) hc

/-! ## Roots -/

theorem parent?_root (t : Tree) (i : Nat) : t.parent? (t.root i) = none := by
  induction i using root.induct t with
  | case1 i h => rwa [root_of_none h]
  | case2 i p h ih => rwa [root_of_some h]

theorem root_mem_lineage (t : Tree) (i : Nat) : t.root i ∈ t.lineage i := by
  induction i using root.induct t with
  | case1 i h =>
    rw [root_of_none h]
    exact mem_lineage_self t i
  | case2 i p h ih =>
    rw [root_of_some h, lineage_of_some h]
    exact List.mem_cons_of_mem i ih

theorem root_mem_ancestors_iff : t.root i ∈ t.ancestors i ↔ t.root i ≠ i := by
  constructor
  · exact fun h => Nat.ne_of_lt (lt_of_mem_ancestors h)
  · intro hne
    rcases mem_lineage_iff.1 (t.root_mem_lineage i) with heq | hmem
    · exact absurd heq hne
    · exact hmem

theorem root_root (t : Tree) (i : Nat) : t.root (t.root i) = t.root i :=
  root_of_none (t.parent?_root i)

/-- A node has the root of each of its ancestors. -/
theorem root_eq_of_mem_ancestors (h : a ∈ t.ancestors i) : t.root i = t.root a := by
  induction i using Nat.strongRecOn with
  | ind i ih =>
    obtain ⟨p, hp, ha⟩ := mem_ancestors_iff.1 h
    rw [root_of_some hp]
    rcases mem_lineage_iff.1 ha with rfl | ha
    · rfl
    · exact ih p (parent?_lt hp) ha

/-! ## Nodes in the tree -/

theorem lt_size_of_label? {label : Label} (h : t.label? i = some label) : i < t.size := by
  obtain ⟨node, hnode, -⟩ := Option.map_eq_some_iff.1 h
  exact (Array.getElem?_eq_some_iff.1 hnode).1

theorem lt_size_of_kind? {kind : Kind} (h : t.kind? i = some kind) : i < t.size := by
  obtain ⟨label, hlabel, -⟩ := Option.map_eq_some_iff.1 h
  exact lt_size_of_label? hlabel

theorem lt_size_of_isDirective (h : t.isDirective i = true) : i < t.size := by
  obtain ⟨directive, hdirective⟩ := Option.isSome_iff_exists.1 h
  obtain ⟨kind, hkind, -⟩ := Option.bind_eq_some_iff.1 hdirective
  exact lt_size_of_kind? hkind

/-! ## Adding a node -/

section Add

variable {label : Label} {parent : Option Nat} {p : Nat}

theorem parent?_add_of_lt (hi : i < t.size) : (t.add label parent).parent? i = t.parent? i := by
  rw [parent?_add, if_neg (Nat.ne_of_lt hi)]

theorem parent?_add_self (hp : p < t.size) :
    (t.add label (some p)).parent? t.size = some p := by
  rw [parent?_add, if_pos rfl]
  simp [Option.filter, hp]

theorem label?_add_of_lt (hi : i < t.size) : (t.add label parent).label? i = t.label? i := by
  rw [label?_add, if_neg (Nat.ne_of_lt hi)]

theorem label?_add_self : (t.add label parent).label? t.size = some label := by
  rw [label?_add, if_pos rfl]

theorem kind?_add_of_lt (hi : i < t.size) : (t.add label parent).kind? i = t.kind? i := by
  rw [kind?, label?_add_of_lt hi, kind?]

theorem kind?_add_self : (t.add label parent).kind? t.size = some label.kind := by
  rw [kind?, label?_add_self, Option.map_some]

theorem isDirective_add_of_lt (hi : i < t.size) :
    (t.add label parent).isDirective i = t.isDirective i := by
  rw [isDirective, directive?, kind?_add_of_lt hi, isDirective, directive?]

theorem isDirective_add_self :
    (t.add label parent).isDirective t.size = label.kind.isDirective := by
  rw [isDirective, directive?, kind?_add_self]
  rfl

/-- Adding a node changes the ancestors of no other. -/
theorem ancestors_add_of_lt (hi : i < t.size) :
    (t.add label parent).ancestors i = t.ancestors i := by
  have hsame : (t.add label parent).parent? i = t.parent? i := parent?_add_of_lt hi
  induction i using ancestors.induct t with
  | case1 i h => rw [ancestors_of_none h, ancestors_of_none (hsame.trans h)]
  | case2 i p h ih =>
    -- the chain above an old node is old
    have hp := Nat.lt_trans (parent?_lt h) hi
    rw [ancestors_of_some h, ancestors_of_some (hsame.trans h), ih hp (parent?_add_of_lt hp)]

theorem lineage_add_of_lt (hi : i < t.size) : (t.add label parent).lineage i = t.lineage i := by
  rw [lineage, lineage, ancestors_add_of_lt hi]

/-- A new node stands below the lineage of its parent. -/
theorem ancestors_add_self (hp : p < t.size) :
    (t.add label (some p)).ancestors t.size = t.lineage p := by
  rw [ancestors_eq_lineage (parent?_add_self hp), lineage_add_of_lt hp]

theorem lineage_add_self (hp : p < t.size) :
    (t.add label (some p)).lineage t.size = t.size :: t.lineage p := by
  rw [lineage, ancestors_add_self hp]

end Add

end RegionScope.Tree
