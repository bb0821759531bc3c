import RegionScope.Proofs.Tree.Ancestry
import Mathlib.Data.List.Nodup
import Mathlib.Data.List.Sort

/-!
# Descendants

What is below a node is what has the node among its ancestors (`mem_below_iff`), each node
once (`nodup_below`), and the walk with a list of nodes still to visit gives the same list as
the recursion on the tree (`descendants_eq_below`).

A tree grows at its right edge when every new node becomes a child of the node before it or
of one of the ancestors of that node. Document order is then the order of creation
(`descendants_eq_range'`).
-/

namespace RegionScope.Tree

variable {t : Tree} {i a n : Nat}

theorem mem_below_iff : n ∈ t.below i ↔ i ∈ t.ancestors n := by
  induction i using below.induct t with
  | case1 i ih =>
    -- the recursion goes down, the chain of parents up: they meet at the child
    rw [below_eq, List.mem_flatMap, mem_ancestors_iff_exists_child]
    constructor
    · rintro ⟨c, hc, hn⟩
      rcases List.mem_cons.1 hn with rfl | hn
      · exact ⟨n, mem_lineage_self t n, mem_children.1 hc⟩
      · have hcn : c ∈ t.ancestors n := (ih ⟨c, hc⟩).1 hn
        exact ⟨c, mem_lineage_iff.2 (.inr hcn), mem_children.1 hc⟩
    · rintro ⟨c, hcn, hc⟩
      refine ⟨c, mem_children.2 hc, ?_⟩
      rcases mem_lineage_iff.1 hcn with rfl | hcn
      · exact List.mem_cons_self
      · exact List.mem_cons_of_mem c ((ih ⟨c, mem_children.2 hc⟩).2 hcn)

/-- Every node below another has a parent, so it is in the tree. -/
theorem lt_size_of_mem_below (h : n ∈ t.below i) : n < t.size := by
  obtain ⟨p, hp, -⟩ := mem_ancestors_iff.1 (mem_below_iff.1 h)
  exact lt_size_of_parent? hp

/-- Children stand in the order of their numbers. -/
theorem children_pairwise_lt (t : Tree) (i : Nat) : (t.children i).Pairwise (· < ·) := by
  rw [children, t.children_eq]
  exact List.pairwise_lt_range.filter _

/-- A node that lies below two children of one node does not lie below a younger one. -/
theorem not_lt_of_mem_lineage_of_siblings {c d : Nat} (hc : t.parent? c = some i)
    (hd : t.parent? d = some i) (hcn : c ∈ t.lineage n) (hdn : d ∈ t.lineage n) : ¬ c < d := by
  intro hlt
  have hcd := mem_lineage_of_le hcn hdn (Nat.le_of_lt hlt)
  rw [lineage_of_some hd] at hcd
  rcases List.mem_cons.1 hcd with rfl | hcd
  · exact Nat.lt_irrefl c hlt
  · -- the older child would stand above the parent of both
    exact absurd (parent?_lt hc) (Nat.not_lt.2 (le_of_mem_lineage hcd))

/-- No node lies below two children of one node. -/
theorem eq_of_mem_lineage_of_siblings {c d : Nat} (hc : t.parent? c = some i)
    (hd : t.parent? d = some i) (hcn : c ∈ t.lineage n) (hdn : d ∈ t.lineage n) : c = d :=
  Nat.le_antisymm (Nat.not_lt.1 (not_lt_of_mem_lineage_of_siblings hd hc hdn hcn))
    (Nat.not_lt.1 (not_lt_of_mem_lineage_of_siblings hc hd hcn hdn))

theorem mem_cons_below_iff : n ∈ a :: t.below a ↔ a ∈ t.lineage n := by
  rw [List.mem_cons, mem_below_iff, mem_lineage_iff]
  exact or_congr_left eq_comm

theorem nodup_below (t : Tree) (i : Nat) : (t.below i).Nodup := by
  induction i using below.induct t with
  | case1 i ih =>
    rw [below_eq, List.nodup_flatMap]
    constructor
    · intro c hc
      refine List.nodup_cons.2 ⟨?_, ih ⟨c, hc⟩⟩
      intro h
      exact Nat.lt_irrefl c (lt_of_mem_ancestors (mem_below_iff.1 h))
    · -- nothing is below two children, so what is below them is apart
      apply (t.children_pairwise_lt i).imp_of_mem
      intro c d hc hd hcd n hn hm
      have := eq_of_mem_lineage_of_siblings (mem_children.1 hc) (mem_children.1 hd)
        (mem_cons_below_iff.1 hn) (mem_cons_below_iff.1 hm)
      exact Nat.ne_of_lt hcd this

theorem length_below_le (t : Tree) (i : Nat) : (t.below i).length ≤ t.size := by
  have hsub : t.below i ⊆ List.range t.size :=
    fun n hn => List.mem_range.2 (lt_size_of_mem_below hn)
  simpa using (t.nodup_below i).length_le_of_subset hsub

/-- With fuel for all that is to be visited, the walk gives each waiting node and then what is
below it. -/
theorem visit_eq_flatMap {fuel : Nat} {waiting : List Nat}
    (h : (waiting.flatMap fun i => i :: t.below i).length ≤ fuel) :
    t.visit fuel waiting = waiting.flatMap fun i => i :: t.below i := by
  induction fuel generalizing waiting with
  | zero => rw [visit, List.length_eq_zero_iff.1 (Nat.le_zero.1 h)]
  | succ fuel ih =>
    cases waiting with
    | nil => rw [visit, List.flatMap_nil]; simp
    | cons i rest =>
      -- the children that are pushed stand for all that is below their parent
      have hsplit : ((t.children i ++ rest).flatMap fun i => i :: t.below i) =
          t.below i ++ rest.flatMap fun i => i :: t.below i := by
        rw [List.flatMap_append, ← below_eq]
      rw [List.flatMap_cons, List.cons_append, ← hsplit] at h ⊢
      rw [visit, ih (Nat.le_of_succ_le_succ h)]

/-- The walk ends, and it follows the recursion on the tree. -/
theorem descendants_eq_below (t : Tree) (i : Nat) : t.descendants i = t.below i := by
  have h := t.length_below_le i
  rw [below_eq] at h
  rw [descendants, visit_eq_flatMap h, ← below_eq]

/-! ## Growth at the right edge -/

/-- Every node but the first has its parent in the lineage of the node before it. -/
def GrowsRight (t : Tree) : Prop :=
  ∀ i, i + 1 < t.size → ∃ p ∈ t.lineage i, t.parent? (i + 1) = some p

namespace GrowsRight

/-- Every node but the first has a parent. -/
theorem exists_parent (h : t.GrowsRight) (hpos : 0 < i) (hi : i < t.size) :
    ∃ p, t.parent? i = some p := by
  obtain ⟨j, rfl⟩ := Nat.exists_eq_succ_of_ne_zero (Nat.ne_of_gt hpos)
  obtain ⟨p, -, hp⟩ := h j hi
  exact ⟨p, hp⟩

/-- What is below a node is numbered without gaps. -/
theorem mem_lineage_of_between (h : t.GrowsRight) (ha : a ∈ t.lineage n) (hai : a ≤ i)
    (hin : i ≤ n) (hn : n < t.size) : a ∈ t.lineage i := by
  induction n with
  | zero =>
    obtain rfl : i = 0 := Nat.le_zero.1 hin
    exact ha
  | succ n ih =>
    rcases Nat.lt_or_eq_of_le hin with hlt | rfl
    · have hne : a ≠ n + 1 := Nat.ne_of_lt (Nat.lt_of_le_of_lt hai hlt)
      -- the parent is in the lineage of the node before, where the induction goes on
      obtain ⟨p, hp, hparent⟩ := h n hn
      have hap : a ∈ t.lineage p := by
        rw [lineage_of_some hparent] at ha
        exact (List.mem_cons.1 ha).resolve_left hne
      exact ih (mem_lineage_trans hap hp) (Nat.le_of_lt_succ hlt) (Nat.lt_of_succ_lt hn)
    · exact ha

theorem below_pairwise_lt (h : t.GrowsRight) (i : Nat) : (t.below i).Pairwise (· < ·) := by
  induction i using below.induct t with
  | case1 i ih =>
    rw [below_eq, List.pairwise_flatMap]
    constructor
    · intro c hc
      exact List.pairwise_cons.2
        ⟨fun n hn => lt_of_mem_ancestors (mem_below_iff.1 hn), ih ⟨c, hc⟩⟩
    · apply (t.children_pairwise_lt i).imp_of_mem
      intro c d hc hd hcd n hn m hm
      have hcn := mem_cons_below_iff.1 hn
      have hdm := le_of_mem_lineage (mem_cons_below_iff.1 hm)
      have hsize : n < t.size := by
        rcases List.mem_cons.1 hn with rfl | hn
        · exact lt_size_of_parent? (mem_children.1 hc)
        · exact lt_size_of_mem_below hn
      -- otherwise the younger sibling would be numbered among what is below the older one
      refine Nat.lt_of_lt_of_le (Nat.lt_of_not_le ?_) hdm
      intro hdn
      have hcd' := h.mem_lineage_of_between hcn (Nat.le_of_lt hcd) hdn hsize
      have := eq_of_mem_lineage_of_siblings (mem_children.1 hc) (mem_children.1 hd) hcd'
        (mem_lineage_self t d)
      exact Nat.ne_of_lt hcd this

theorem zero_mem_lineage (h : t.GrowsRight) (hn : n < t.size) : 0 ∈ t.lineage n := by
  induction n using Nat.strongRecOn with
  | ind n ih =>
    cases n with
    | zero => exact mem_lineage_self t 0
    | succ m =>
      obtain ⟨p, hp, hparent⟩ := h m hn
      have hlt := parent?_lt hparent
      have := ih p hlt (Nat.lt_trans hlt hn)
      exact lineage_of_some hparent ▸ List.mem_cons_of_mem _ this

/-- Node 0 is the root of every node. -/
theorem root_eq_zero (h : t.GrowsRight) (hn : n < t.size) : t.root n = 0 := by
  induction n using Nat.strongRecOn with
  | ind n ih =>
    rcases Nat.eq_zero_or_pos n with rfl | hpos
    · cases hparent : t.parent? 0 with
      | none => exact root_of_none hparent
      | some p => exact absurd (parent?_lt hparent) (Nat.not_lt_zero p)
    · obtain ⟨p, hparent⟩ := h.exists_parent hpos hn
      have hlt := parent?_lt hparent
      rw [root_of_some hparent, ih p hlt (Nat.lt_trans hlt hn)]

theorem below_zero (h : t.GrowsRight) : t.below 0 = List.range' 1 (t.size - 1) := by
  apply (h.below_pairwise_lt 0).eq_of_mem_iff List.pairwise_lt_range'
  intro n
  rw [mem_below_iff, List.mem_range'_1]
  constructor
  · intro hn
    have := lt_of_mem_ancestors hn
    have := lt_size_of_mem_below (mem_below_iff.2 hn)
    omega
  · rintro ⟨hpos, hlt⟩
    have := h.zero_mem_lineage (n := n) (by omega)
    exact (mem_lineage_iff.1 this).resolve_left (by omega)

/-- Document order is the order of creation. -/
theorem descendants_eq_range' (h : t.GrowsRight) :
    t.descendants 0 = List.range' 1 (t.size - 1) := by
  rw [descendants_eq_below, h.below_zero]

/-- A child of a node at the right edge keeps the tree growing there. -/
theorem add (h : t.GrowsRight) {p : Nat} (hsize : 0 < t.size) (hp : p ∈ t.lineage (t.size - 1))
    (label : Label) : (t.add label (some p)).GrowsRight := by
  intro i hi
  rw [size_add] at hi
  have hlast : t.size - 1 < t.size := Nat.sub_lt hsize Nat.one_pos
  rcases Nat.lt_or_eq_of_le (Nat.le_of_lt_succ hi) with hlt | heq
  · rw [lineage_add_of_lt (Nat.lt_of_succ_lt hlt), parent?_add_of_lt hlt]
    exact h i hlt
  · -- the one node that is new stands behind the last one
    obtain rfl : i = t.size - 1 := by omega
    have hpsize := Nat.lt_of_le_of_lt (le_of_mem_lineage hp) hlast
    rw [lineage_add_of_lt hlast, heq]
    exact ⟨p, hp, parent?_add_self hpsize⟩

end GrowsRight

end RegionScope.Tree
