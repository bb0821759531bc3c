import RegionScope.Proofs.Source.Frontier
import RegionScope.Proofs.Tree.Descent

/-!
# The open nodes are the right edge

At every point of a pass the innermost open node is the last node of the tree or one of its
ancestors, and each open node lies below those around it (`RightEdge`). So the outline grows at
its right edge (`outline_growsRight`), and document order is the order in which the pass
creates the nodes (`descendants_outline`).
-/

namespace RegionScope.Source

open RegionScope.Text RegionScope.Tree

/-- The innermost open node is on the lineage of the last node, and each open node lies below
those around it. -/
structure RightEdge (t : Tree) (node : Nat) (around : List Nat) : Prop where
  size_pos : 0 < t.size
  grows : t.GrowsRight
  mem_last : node ∈ t.lineage (t.size - 1)
  nested : (node :: around).Pairwise fun a b => b ∈ t.ancestors a

namespace RightEdge

variable {t : Tree} {node next a : Nat} {around : List Nat} {label : Label}

theorem lt_size (h : RightEdge t node around) (ha : a ∈ node :: around) : a < t.size := by
  have hnode : node < t.size :=
    Nat.lt_of_le_of_lt (le_of_mem_lineage h.mem_last) (Nat.sub_lt h.size_pos Nat.one_pos)
  rcases List.mem_cons.1 ha with rfl | ha
  · exact hnode
  · have := lt_of_mem_ancestors ((List.pairwise_cons.1 h.nested).1 a ha)
    exact Nat.lt_trans this hnode

theorem start (label : Label) : RightEdge (Tree.empty.add label none) 0 [] where
  size_pos := by simp [size_add]
  grows := by
    intro i hi
    have hsize : (Tree.empty.add label none).size = 1 := size_add ..
    omega
  mem_last := by
    have hsize : (Tree.empty.add label none).size = 1 := size_add ..
    rw [hsize]
    exact mem_lineage_self _ 0
  nested := List.pairwise_singleton ..

theorem nested_add (h : RightEdge t node around) {parent : Option Nat} :
    (node :: around).Pairwise fun a b => b ∈ (t.add label parent).ancestors a := by
  refine h.nested.imp_of_mem fun ha _ hab => ?_
  rwa [ancestors_add_of_lt (h.lt_size ha)]

theorem lineage_last_add (h : RightEdge t node around) :
    (t.add label (some node)).lineage ((t.add label (some node)).size - 1) =
      t.size :: t.lineage node := by
  rw [size_add, Nat.add_sub_cancel]
  exact lineage_add_self (h.lt_size List.mem_cons_self)

/-- A node below the innermost open node that stays open. -/
theorem place (h : RightEdge t node around) (label : Label) :
    RightEdge (t.add label (some node)) node around where
  size_pos := by simp [size_add]
  grows := h.grows.add h.size_pos h.mem_last label
  mem_last := by
    rw [h.lineage_last_add]
    exact List.mem_cons_of_mem _ (mem_lineage_self t node)
  nested := h.nested_add

/-- A new innermost open node. -/
theorem descend (h : RightEdge t node around) (label : Label) :
    RightEdge (t.add label (some node)) t.size (node :: around) where
  size_pos := (h.place label).size_pos
  grows := (h.place label).grows
  mem_last := by
    rw [h.lineage_last_add]
    exact List.mem_cons_self
  nested := by
    refine List.pairwise_cons.2 ⟨?_, h.nested_add⟩
    intro b hb
    -- what is above the new node is its parent and what was above that
    rw [ancestors_add_self (h.lt_size List.mem_cons_self)]
    rcases List.mem_cons.1 hb with rfl | hb
    · exact mem_lineage_self t b
    · exact mem_lineage_iff.2 (.inr ((List.pairwise_cons.1 h.nested).1 b hb))

/-- A new node below the innermost open node that takes its place. -/
theorem deepen (h : RightEdge t node around) (label : Label) :
    RightEdge (t.add label (some node)) t.size around where
  size_pos := (h.place label).size_pos
  grows := (h.place label).grows
  mem_last := (h.descend label).mem_last
  nested := (h.descend label).nested.sublist (by simp)

/-- The next node around becomes the innermost open node. -/
theorem close (h : RightEdge t node (next :: around)) : RightEdge t next around where
  size_pos := h.size_pos
  grows := h.grows
  mem_last := by
    have hnext : next ∈ t.ancestors node :=
      (List.pairwise_cons.1 h.nested).1 next List.mem_cons_self
    exact mem_lineage_trans (mem_lineage_iff.2 (.inr hnext)) h.mem_last
  nested := (List.pairwise_cons.1 h.nested).2

theorem treeInvariant (lines : LineIndex) : Frontier.TreeInvariant lines RightEdge where
  start := RightEdge.start _
  place := fun _ _ _ _ h => h.place _
  openPlain := fun _ _ _ label _ _ h _ _ => h.descend label
  openBlock := by
    intro t node around label _ _ brace h _ _
    have := (h.descend label).deepen (blockLabel lines brace)
    rwa [size_add] at this
  close := fun _ _ _ _ h => h.close

/-- Every run keeps its open nodes at the right edge. -/
theorem run (lines : LineIndex) (tokens : List Token) :
    let f := (Outline.run lines tokens).frontier.flush lines
    RightEdge f.tree f.current f.around :=
  (treeInvariant lines).run tokens

end RightEdge

/-- The outline of every text grows at its right edge. -/
theorem outline_growsRight (text : List Char) : (outline text).GrowsRight :=
  (RightEdge.run (.ofText text) (lex text)).grows

theorem size_outline_pos (text : List Char) : 0 < (outline text).size :=
  (RightEdge.run (.ofText text) (lex text)).size_pos

/-- The root of an outline stands for the whole text. -/
theorem label?_outline_zero (text : List Char) :
    (outline text).label? 0 = some ⟨.compilationUnit, 0, 1, ""⟩ := by
  have hinvariant : Frontier.TreeInvariant (.ofText text) fun t _ _ =>
      0 < t.size ∧ t.label? 0 = some ⟨.compilationUnit, 0, 1, ""⟩ := by
    constructor
    · exact ⟨by simp [size_add], label?_add_self⟩
    · intro t node around d ⟨hpos, hroot⟩
      exact ⟨by simp [size_add], (label?_add_of_lt hpos).trans hroot⟩
    · intro t node around label _ _ ⟨hpos, hroot⟩ _ _
      exact ⟨by simp [size_add], (label?_add_of_lt hpos).trans hroot⟩
    · intro t node around label _ _ brace ⟨hpos, hroot⟩ _ _
      have hpos' : 0 < (t.add label (some node)).size := by simp [size_add]
      refine ⟨by simp [size_add], (label?_add_of_lt hpos').trans ?_⟩
      exact (label?_add_of_lt hpos).trans hroot
    · intro _ _ _ _ h
      exact h
  exact (hinvariant.run (lex text)).2

theorem isDirective_outline_zero (text : List Char) : (outline text).isDirective 0 = false := by
  rw [isDirective, directive?, kind?, label?_outline_zero]
  rfl

/-- In an outline document order is the order of creation. -/
theorem descendants_outline (text : List Char) :
    (outline text).descendants 0 = List.range' 1 ((outline text).size - 1) :=
  (outline_growsRight text).descendants_eq_range'

/-- The nodes of an outline are the root and what is below it. -/
theorem range_size_outline (text : List Char) :
    List.range (outline text).size = 0 :: (outline text).descendants 0 := by
  have hpos := size_outline_pos text
  rw [descendants_outline, List.range_eq_range']
  obtain ⟨n, hn⟩ : ∃ n, (outline text).size = n + 1 := ⟨(outline text).size - 1, by omega⟩
  rw [hn, List.range'_succ, Nat.add_sub_cancel]

/-- All directives of an outline are below node 0. -/
theorem mem_directivesBelow_iff {text : List Char} {i : Nat} :
    i ∈ (outline text).directivesBelow 0 ↔ (outline text).isDirective i = true := by
  rw [directivesBelow, List.mem_filter, and_iff_right_iff_imp]
  intro hi
  have hmem := List.mem_range.2 (lt_size_of_isDirective hi)
  rw [range_size_outline] at hmem
  rcases List.mem_cons.1 hmem with rfl | hmem
  · rw [isDirective_outline_zero] at hi
    cases hi
  · exact hmem

end RegionScope.Source
