import RegionScope.Proofs.Tree.Ancestry

/-!
# Trees without some of their nodes

Nodes are numbered in order of creation, so a tree that is put together without some of the nodes
numbers the others by how many kept ones stand before them (`rank`). Such a tree is a thinning of
the other (`Thins`): the kept nodes are there in the same order, with the same parents, and show
what they showed but for what a function does to labels.
-/

namespace RegionScope.Tree

variable {kept : Nat → Bool} {keep : Label → Bool} {move : Label → Label} {t t' : Tree}
  {label : Label} {parent : Option Nat} {i j : Nat}

/-! ## Nodes and their numbers -/

theorem label?_of_size_le (h : t.size ≤ i) : t.label? i = none := by
  have hnone : t.nodes[i]? = none := Array.getElem?_eq_none h
  rw [label?, hnone]
  rfl

theorem exists_label?_of_lt (h : i < t.size) : ∃ label, t.label? i = some label :=
  ⟨_, congrArg (Option.map _) (Array.getElem?_eq_getElem h)⟩

theorem parent?_of_size_le (h : t.size ≤ i) : t.parent? i = none := Node.parentIn_of_size_le h

theorem children_eq_filter (t : Tree) (i : Nat) :
    t.children i = (List.range t.size).filter fun c => decide (t.parent? c = some i) :=
  t.children_eq i

/-- Trees are equal whose nodes show the same and have the same parents. -/
theorem ext_links (hsize : t'.size = t.size) (hlabel : ∀ i, t'.label? i = t.label? i)
    (hparent : ∀ i, t'.parent? i = t.parent? i) : t' = t := by
  have hchildren : ∀ i, t'.children i = t.children i := by
    intro i
    simp only [children_eq_filter, hsize, hparent]
  have hnodes : t'.nodes = t.nodes := by
    apply Array.ext hsize
    intro i hi' hi
    have hl := hlabel i
    have hp := hparent i
    have hc := hchildren i
    simp only [label?, parent?, children, Node.parentIn, Node.childrenIn,
      Array.getElem?_eq_getElem hi', Array.getElem?_eq_getElem hi, Option.map_some,
      Option.bind_some, Option.getD_some, Option.some.injEq] at hl hp hc
    cases hnode : t.nodes[i]
    cases hnode' : t'.nodes[i]
    simp_all [Array.toList_inj]
  cases t
  cases t'
  simp_all

/-- Ancestors follow the parents. -/
theorem ancestors_congr (h : ∀ i, t'.parent? i = t.parent? i) (i : Nat) :
    t'.ancestors i = t.ancestors i := by
  induction i using ancestors.induct t with
  | case1 i hp => rw [ancestors_of_none hp, ancestors_of_none ((h i).trans hp)]
  | case2 i p hp ih => rw [ancestors_of_some hp, ancestors_of_some ((h i).trans hp), ih]

/-! ## Ranks -/

/-- How many nodes are kept before node `i`. -/
def rank (kept : Nat → Bool) (i : Nat) : Nat := (List.range i).countP kept

theorem rank_succ (kept : Nat → Bool) (i : Nat) :
    rank kept (i + 1) = rank kept i + if kept i then 1 else 0 := by
  rw [rank, List.range_succ, List.countP_append, List.countP_singleton, ← rank]

theorem rank_le_rank (kept : Nat → Bool) (h : i ≤ j) : rank kept i ≤ rank kept j := by
  induction j with
  | zero =>
    obtain rfl := Nat.le_zero.1 h
    exact Nat.le_refl _
  | succ j ih =>
    rcases Nat.eq_or_lt_of_le h with rfl | hlt
    · exact Nat.le_refl _
    · rw [rank_succ]
      exact Nat.le_trans (ih (Nat.le_of_lt_succ hlt)) (Nat.le_add_right _ _)

/-- Kept nodes keep their order. -/
theorem rank_lt_rank (hi : kept i = true) (h : i < j) : rank kept i < rank kept j := by
  calc rank kept i < rank kept (i + 1) := by
        rw [rank_succ, if_pos hi]
        exact Nat.lt_succ_self _
    _ ≤ rank kept j := rank_le_rank kept h

theorem rank_congr {kept' : Nat → Bool} (h : ∀ j < i, kept' j = kept j) :
    rank kept' i = rank kept i := by
  apply List.countP_congr
  intro j hj
  rw [h j (List.mem_range.1 hj)]

/-- If all nodes are kept they keep their numbers. -/
theorem rank_of_forall_kept (h : ∀ j < i, kept j = true) : rank kept i = i := by
  have hall : (List.range i).countP kept = (List.range i).length :=
    List.countP_eq_length.2 fun j hj => h j (List.mem_range.1 hj)
  rw [rank, hall, List.length_range]

/-- The kept nodes are numbered without a gap. -/
theorem map_rank_filter_range (kept : Nat → Bool) (n : Nat) :
    ((List.range n).filter kept).map (rank kept) = List.range (rank kept n) := by
  induction n with
  | zero => rfl
  | succ n ih =>
    rw [List.range_succ, List.filter_append, List.map_append, ih, rank_succ]
    cases hn : kept n with
    | false => simp [hn]
    | true => simp [hn, List.range_succ]

/-! ## Thinned trees -/

/-- One tree is the other without the nodes that are not kept: each kept node is there with a number
by which no gap is left, below the node that its parent became, and shows what `move` makes of its
label. Only nodes are gone whose children are gone too. -/
structure Thins (kept : Nat → Bool) (move : Label → Label) (t t' : Tree) : Prop where
  size_eq : t'.size = rank kept t.size
  label?_eq : ∀ i < t.size, kept i = true → t'.label? (rank kept i) = (t.label? i).map move
  parent?_eq : ∀ i < t.size, kept i = true →
    t'.parent? (rank kept i) = (t.parent? i).map (rank kept)
  kept_parent : ∀ i p, kept i = true → t.parent? i = some p → kept p = true

namespace Thins

theorem empty (kept : Nat → Bool) (move : Label → Label) : Thins kept move empty empty where
  size_eq := rfl
  label?_eq := by simp [label?, Tree.empty]
  parent?_eq := by simp [parent?, Node.parentIn, Tree.empty]
  kept_parent := by simp [parent?, Node.parentIn, Tree.empty]

theorem congr (h : Thins kept move t t') {kept' : Nat → Bool}
    (hkept : ∀ i < t.size, kept' i = kept i) : Thins kept' move t t' := by
  have hrank : ∀ i ≤ t.size, rank kept' i = rank kept i := fun i hi =>
    rank_congr fun j hj => hkept j (Nat.lt_of_lt_of_le hj hi)
  constructor
  · rw [hrank _ (Nat.le_refl _), h.size_eq]
  · intro i hi hk
    rw [hkept i hi] at hk
    rw [hrank i (Nat.le_of_lt hi), h.label?_eq i hi hk]
  · intro i hi hk
    rw [hkept i hi] at hk
    rw [hrank i (Nat.le_of_lt hi), h.parent?_eq i hi hk]
    apply Option.map_congr
    intro p hp
    have := parent?_lt hp
    rw [hrank p (by omega)]
  · intro i p hk hp
    have hi := lt_size_of_parent? hp
    have hlt := parent?_lt hp
    rw [hkept i hi] at hk
    rw [hkept p (by omega)]
    exact h.kept_parent i p hk hp

theorem rank_lt_size (h : Thins kept move t t') (hi : i < t.size) (hkept : kept i = true) :
    rank kept i < t'.size := by
  rw [h.size_eq]
  exact rank_lt_rank hkept hi

/-- A node that is not kept is added to the one tree alone. -/
theorem skip (h : Thins kept move t t') (hkept : kept t.size = false) (label : Label)
    (parent : Option Nat) : Thins kept move (t.add label parent) t' := by
  have hlt : ∀ i < (t.add label parent).size, kept i = true → i < t.size := by
    intro i hi hk
    rw [size_add] at hi
    rcases Nat.eq_or_lt_of_le (Nat.le_of_lt_succ hi) with rfl | hlt
    · rw [hkept] at hk
      cases hk
    · exact hlt
  constructor
  · rw [size_add, rank_succ, hkept, h.size_eq]
    rfl
  · intro i hi hk
    rw [label?_add_of_lt (hlt i hi hk), h.label?_eq i (hlt i hi hk) hk]
  · intro i hi hk
    rw [parent?_add_of_lt (hlt i hi hk), h.parent?_eq i (hlt i hi hk) hk]
  · intro i p hk hp
    rw [parent?_add_of_lt (hlt i (lt_size_of_parent? hp) hk)] at hp
    exact h.kept_parent i p hk hp

/-- A kept node is added to both trees, below the same node. -/
theorem add (h : Thins kept move t t') (hkept : kept t.size = true) (label : Label)
    (hparent : ∀ p ∈ parent, p < t.size ∧ kept p = true) :
    Thins kept move (t.add label parent) (t'.add (move label) (parent.map (rank kept))) := by
  have hcases : ∀ i < (t.add label parent).size, i = t.size ∨ i < t.size := by
    intro i hi
    rw [size_add] at hi
    exact Nat.eq_or_lt_of_le (Nat.le_of_lt_succ hi)
  have hself : ∀ t : Tree, ∀ label parent, (∀ p ∈ parent, p < t.size) →
      (t.add label parent).parent? t.size = parent := by
    intro t label parent hlt
    cases parent with
    | none => rw [parent?_add, if_pos rfl, Option.filter_none]
    | some p => exact parent?_add_self (hlt p rfl)
  have hparent' : (t.add label parent).parent? t.size = parent :=
    hself t label parent fun p hp => (hparent p hp).1
  constructor
  · rw [size_add, size_add, rank_succ, hkept, h.size_eq]
    rfl
  · intro i hi hk
    rcases hcases i hi with rfl | hlt
    · rw [← h.size_eq, label?_add_self, label?_add_self, Option.map_some]
    · rw [label?_add_of_lt hlt, label?_add_of_lt (h.rank_lt_size hlt hk), h.label?_eq i hlt hk]
  · intro i hi hk
    rcases hcases i hi with rfl | hlt
    · -- the new node has the next number in both trees
      rw [← h.size_eq, hparent', hself]
      intro q hq
      obtain ⟨p, hp, rfl⟩ := Option.map_eq_some_iff.1 hq
      exact h.rank_lt_size (hparent p hp).1 (hparent p hp).2
    · rw [parent?_add_of_lt hlt, parent?_add_of_lt (h.rank_lt_size hlt hk), h.parent?_eq i hlt hk]
  · intro i p hk hp
    rcases hcases i (lt_size_of_parent? hp) with rfl | hlt
    · rw [hparent'] at hp
      exact (hparent p hp).2
    · rw [parent?_add_of_lt hlt] at hp
      exact h.kept_parent i p hk hp

/-- The nodes of the thinned tree are the kept nodes under their new numbers, in order. -/
theorem range_size_eq (h : Thins kept move t t') :
    List.range t'.size = ((List.range t.size).filter kept).map (rank kept) := by
  rw [map_rank_filter_range, h.size_eq]

/-- A tree without none of its nodes has the links of the tree. -/
theorem parent?_of_forall_kept (h : Thins kept move t t') (hkept : ∀ i < t.size, kept i = true) :
    t'.size = t.size ∧ ∀ i, t'.parent? i = t.parent? i := by
  have hrank : ∀ i ≤ t.size, rank kept i = i := fun i hi =>
    rank_of_forall_kept fun j hj => hkept j (Nat.lt_of_lt_of_le hj hi)
  have hsize : t'.size = t.size := h.size_eq.trans (hrank _ (Nat.le_refl _))
  refine ⟨hsize, ?_⟩
  intro i
  rcases Nat.lt_or_ge i t.size with hi | hi
  · have hrankParent := h.parent?_eq i hi (hkept i hi)
    rw [hrank i (Nat.le_of_lt hi)] at hrankParent
    rw [hrankParent]
    cases hp : t.parent? i with
    | none => rfl
    | some p =>
      have := parent?_lt hp
      rw [Option.map_some, hrank p (by omega)]
  · rw [parent?_of_size_le hi, parent?_of_size_le (by omega)]

/-- A tree without none of its nodes has the labels of the tree, as `move` makes them. -/
theorem label?_of_forall_kept (h : Thins kept move t t') (hkept : ∀ i < t.size, kept i = true)
    (i : Nat) : t'.label? i = (t.label? i).map move := by
  rcases Nat.lt_or_ge i t.size with hi | hi
  · have := h.label?_eq i hi (hkept i hi)
    rwa [rank_of_forall_kept fun j hj => hkept j (Nat.lt_trans hj hi)] at this
  · have := (h.parent?_of_forall_kept hkept).1
    rw [label?_of_size_le hi, label?_of_size_le (by omega), Option.map_none]

/-- A tree without none of its nodes is the tree, with labels as `move` makes them. -/
theorem of_forall_kept (h : Thins kept move t t') (hkept : ∀ i < t.size, kept i = true) :
    t'.size = t.size ∧ ∀ i, t'.ancestors i = t.ancestors i ∧ t'.children i = t.children i ∧
      t'.label? i = (t.label? i).map move := by
  obtain ⟨hsize, hparent⟩ := h.parent?_of_forall_kept hkept
  -- parents determine ancestors and children
  refine ⟨hsize, fun i => ⟨?_, ?_, h.label?_of_forall_kept hkept i⟩⟩
  · exact ancestors_congr hparent i
  · rw [children_eq_filter, children_eq_filter, hsize]
    simp only [hparent]

/-- A tree without none of its nodes, with labels as they are, is the tree. -/
theorem eq_of_forall_kept (h : Thins kept id t t') (hkept : ∀ i < t.size, kept i = true) :
    t' = t := by
  obtain ⟨hsize, hparent⟩ := h.parent?_of_forall_kept hkept
  refine ext_links hsize ?_ hparent
  intro i
  rw [h.label?_of_forall_kept hkept, Option.map_id, id]

end Thins

/-! ## Nodes that are kept for their labels -/

/-- Whether node `i` shows a label that is kept. -/
def keeps (t : Tree) (keep : Label → Bool) (i : Nat) : Bool := (t.label? i).any keep

theorem keeps_add_of_lt (hi : i < t.size) :
    (t.add label parent).keeps keep i = t.keeps keep i := by
  rw [keeps, label?_add_of_lt hi, keeps]

theorem keeps_add_self : (t.add label parent).keeps keep t.size = keep label := by
  rw [keeps, label?_add_self]
  rfl

theorem rank_keeps_add_of_le (hi : i ≤ t.size) :
    rank ((t.add label parent).keeps keep) i = rank (t.keeps keep) i :=
  rank_congr fun _ hj => keeps_add_of_lt (Nat.lt_of_lt_of_le hj hi)

theorem lt_size_of_keeps (h : t.keeps keep i = true) : i < t.size := by
  apply Nat.lt_of_not_le
  intro hle
  rw [keeps, label?_of_size_le hle] at h
  cases h

namespace Thins

/-- A node whose label is not kept is added to the one tree alone. -/
theorem skip_keeps (h : Thins (t.keeps keep) move t t') (hkeep : keep label = false)
    (parent : Option Nat) :
    Thins ((t.add label parent).keeps keep) move (t.add label parent) t' := by
  have hkept : Thins ((t.add label parent).keeps keep) move t t' :=
    h.congr fun _ hi => keeps_add_of_lt hi
  apply hkept.skip
  rw [keeps_add_self, hkeep]

/-- A node whose label is kept is added to both trees, below the same node. -/
theorem add_keeps (h : Thins (t.keeps keep) move t t') (hkeep : keep label = true)
    (hi : t.keeps keep i = true) :
    Thins ((t.add label (some i)).keeps keep) move (t.add label (some i))
      (t'.add (move label) (some (rank (t.keeps keep) i))) := by
  have hlt := lt_size_of_keeps hi
  have hkept : Thins ((t.add label (some i)).keeps keep) move t t' :=
    h.congr fun _ hi => keeps_add_of_lt hi
  have hself : (t.add label (some i)).keeps keep t.size = true := by rw [keeps_add_self, hkeep]
  have hparent : ∀ p ∈ some i, p < t.size ∧ (t.add label (some i)).keeps keep p = true := by
    intro p hp
    obtain rfl := Option.some.inj hp
    rw [keeps_add_of_lt hlt]
    exact ⟨hlt, hi⟩
  have hadd := hkept.add hself label hparent
  rwa [Option.map_some, rank_keeps_add_of_le (Nat.le_of_lt hlt)] at hadd

end Thins

end RegionScope.Tree
