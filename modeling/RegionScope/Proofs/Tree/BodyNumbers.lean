import Mathlib.Data.List.Basic
import RegionScope.Proofs.Tree.OuterBody
import RegionScope.Proofs.Tree.Thinning

/-!
# Bodies by number

The bodies of a tree are its blocks with no block above them, and are numbered in order of creation
(`outerBlocks`). A node that is added leaves the numbers of all bodies what they are, and is in the
body of its parent, or is a body of its own with the next number (`bodyNumber?_add_self`). Two nodes
lie in one body exactly if the numbers agree (`body?_eq_iff_bodyNumber?_eq`).

So what the rules can tell of a text is in the list of its directives, each with the number of its
body (`markers`).
-/

namespace RegionScope

/-- What a directive shows, with the number of the body that it lies in, if it lies in one. -/
structure Marker where
  label : Label
  body : Option Nat
deriving DecidableEq

/-- The marker whose directive shows what `move` makes of its label. -/
def Marker.move (move : Label → Label) (m : Marker) : Marker := { m with label := move m.label }

namespace Tree

variable {t : Tree} {label : Label} {parent : Option Nat} {i j p b : Nat}

/-- The blocks with no block above them, in order of creation. -/
def outerBlocks (t : Tree) : List Nat :=
  (List.range t.size).filter fun i => decide (t.body? i = some i)

/-- The number of the body that node `i` lies in. -/
def bodyNumber? (t : Tree) (i : Nat) : Option Nat := (t.body? i).map fun b => t.outerBlocks.idxOf b

/-- What node `i` shows, with the number of its body. -/
def marker (t : Tree) (i : Nat) : Marker :=
  ⟨(t.label? i).getD ⟨.compilationUnit, 0, 1, ""⟩, t.bodyNumber? i⟩

/-- The directives of a tree in order of creation, each with the number of its body. -/
def markers (t : Tree) : List Marker := ((List.range t.size).filter t.isDirective).map t.marker

/-! ## Added nodes -/

theorem body?_add_of_lt (hi : i < t.size) : (t.add label parent).body? i = t.body? i := by
  rw [body?, body?, lineage_add_of_lt hi]
  congr 1
  apply List.filter_congr
  intro a ha
  rw [kind?_add_of_lt (Nat.lt_of_le_of_lt (le_of_mem_lineage ha) hi)]

theorem body?_add_self (hp : p < t.size) : (t.add label (some p)).body? t.size =
    (t.body? p).or (if label.kind = .block then some t.size else none) := by
  have hold : (t.lineage p).filter (fun a => (t.add label (some p)).kind? a = some .block) =
      (t.lineage p).filter fun a => t.kind? a = some .block := by
    apply List.filter_congr
    intro a ha
    rw [kind?_add_of_lt (Nat.lt_of_le_of_lt (le_of_mem_lineage ha) hp)]
  -- the body is the last block of the lineage, so the new node is one only if there is no other
  rw [body?, lineage_add_self hp, List.filter_cons, kind?_add_self, hold, body?]
  by_cases hblock : label.kind = .block
  · simp only [hblock, decide_true, if_true]
    rw [← List.singleton_append, List.getLast?_append]
    rfl
  · simp [hblock]

theorem mem_outerBlocks_of_body? (hi : i < t.size) (h : t.body? i = some b) :
    b ∈ t.outerBlocks := by
  obtain ⟨hmem, hblock, habove⟩ := body?_eq_some_iff.1 h
  refine List.mem_filter.2 ⟨List.mem_range.2 ?_, decide_eq_true ?_⟩
  · exact Nat.lt_of_le_of_lt (le_of_mem_lineage hmem) hi
  · exact body?_eq_some_iff.2 ⟨mem_lineage_self t b, hblock, habove⟩

theorem outerBlocks_add (hp : p < t.size) : (t.add label (some p)).outerBlocks =
    t.outerBlocks ++ if t.body? p = none ∧ label.kind = .block then [t.size] else [] := by
  have hold : (List.range t.size).filter
      (fun i => decide ((t.add label (some p)).body? i = some i)) = t.outerBlocks := by
    apply List.filter_congr
    intro i hi
    rw [body?_add_of_lt (List.mem_range.1 hi)]
  rw [outerBlocks, size_add, List.range_succ, List.filter_append, hold, List.filter_cons,
    List.filter_nil, body?_add_self hp]
  congr 1
  cases hbody : t.body? p with
  | none => by_cases hblock : label.kind = .block <;> simp [hblock]
  | some b =>
    -- the body of an older node is older
    have hlt := Nat.lt_of_le_of_lt (le_of_mem_lineage (body?_eq_some_iff.1 hbody).1) hp
    simp [Nat.ne_of_lt hlt]

theorem bodyNumber?_add_of_lt (hp : p < t.size) (hi : i < t.size) :
    (t.add label (some p)).bodyNumber? i = t.bodyNumber? i := by
  rw [bodyNumber?, bodyNumber?, body?_add_of_lt hi, outerBlocks_add hp]
  -- bodies are added at the end, so the others keep their places
  apply Option.map_congr
  intro b hb
  exact List.idxOf_append_of_mem (mem_outerBlocks_of_body? hi hb)

theorem bodyNumber?_eq_none_iff : t.bodyNumber? i = none ↔ t.body? i = none := by
  rw [bodyNumber?, Option.map_eq_none_iff]

/-- A new node is in the body of its parent. In no body, it is the next body if it is a block. -/
theorem bodyNumber?_add_self (hp : p < t.size) : (t.add label (some p)).bodyNumber? t.size =
    (t.bodyNumber? p).or (if label.kind = .block then some t.outerBlocks.length else none) := by
  have hnew : t.size ∉ t.outerBlocks := by
    intro hmem
    have := List.mem_range.1 (List.mem_filter.1 hmem).1
    omega
  cases hbody : t.body? p with
  | none =>
    have hnone := bodyNumber?_eq_none_iff.2 hbody
    rw [bodyNumber?, body?_add_self hp, outerBlocks_add hp, hbody, hnone, Option.none_or,
      Option.none_or]
    by_cases hblock : label.kind = .block
    · rw [if_pos hblock, if_pos hblock, if_pos ⟨rfl, hblock⟩, Option.map_some,
        List.idxOf_append_of_notMem hnew]
      simp
    · rw [if_neg hblock, if_neg hblock, Option.map_none]
  | some b =>
    have hsome : t.bodyNumber? p = some (t.outerBlocks.idxOf b) := by
      rw [bodyNumber?, hbody, Option.map_some]
    rw [bodyNumber?, body?_add_self hp, outerBlocks_add hp, hbody, hsome, Option.some_or,
      Option.some_or, Option.map_some, List.idxOf_append_of_mem (mem_outerBlocks_of_body? hp hbody)]

theorem length_outerBlocks_add (hp : p < t.size) : (t.add label (some p)).outerBlocks.length =
    t.outerBlocks.length + if t.bodyNumber? p = none ∧ label.kind = .block then 1 else 0 := by
  rw [outerBlocks_add hp, List.length_append]
  simp only [bodyNumber?_eq_none_iff]
  split <;> rfl

/-- Two nodes lie in one body exactly if the numbers of their bodies agree. -/
theorem body?_eq_iff_bodyNumber?_eq (hj : j < t.size) (h : t.body? i = some b) :
    t.body? j = some b ↔ t.bodyNumber? j = t.bodyNumber? i := by
  rw [bodyNumber?, bodyNumber?, h, Option.map_some]
  constructor
  · intro hj
    rw [hj, Option.map_some]
  · intro hnumber
    obtain ⟨b', hb', hidx⟩ := Option.map_eq_some_iff.1 hnumber
    rw [hb', (List.idxOf_inj (mem_outerBlocks_of_body? hj hb')).1 hidx]

/-! ## Directives with their bodies -/

theorem marker_add_of_lt (hp : p < t.size) (hi : i < t.size) :
    (t.add label (some p)).marker i = t.marker i := by
  rw [marker, label?_add_of_lt hi, bodyNumber?_add_of_lt hp hi, marker]

/-- A new directive is in the body of its parent. -/
theorem markers_add (hp : p < t.size) : (t.add label (some p)).markers =
    t.markers ++ if label.kind.isDirective then [⟨label, t.bodyNumber? p⟩] else [] := by
  have hold : ((List.range t.size).filter (t.add label (some p)).isDirective).map
      (t.add label (some p)).marker = t.markers := by
    rw [List.filter_congr fun i hi => isDirective_add_of_lt (List.mem_range.1 hi)]
    apply List.map_congr_left
    intro i hi
    exact marker_add_of_lt hp (List.mem_range.1 (List.mem_filter.1 hi).1)
  rw [markers, size_add, List.range_succ, List.filter_append, List.map_append, hold,
    List.filter_cons, List.filter_nil, isDirective_add_self]
  congr 1
  by_cases h : label.kind.isDirective = true
  · -- a directive is no block, so it is no body of its own
    have hblock : label.kind ≠ .block := by
      intro hkind
      rw [hkind] at h
      cases h
    rw [if_pos h, if_pos h, List.map_cons, List.map_nil, marker, label?_add_self,
      bodyNumber?_add_self hp, if_neg hblock, Option.or_none, Option.getD_some]
  · rw [if_neg h, if_neg h, List.map_nil]

/-! ## Bodies of thinned trees -/

theorem idxOf_map_of_inj {f : Nat → Nat} {l : List Nat} (hinj : ∀ a ∈ l, f a = f b → a = b) :
    (l.map f).idxOf (f b) = l.idxOf b := by
  induction l with
  | nil => rfl
  | cons a l ih =>
    rw [List.map_cons]
    by_cases hab : a = b
    · rw [hab, List.idxOf_cons_self, List.idxOf_cons_self]
    · have hne : f a ≠ f b := fun heq => hab (hinj a List.mem_cons_self heq)
      rw [List.idxOf_cons_ne _ hne, List.idxOf_cons_ne _ hab,
        ih fun c hc => hinj c (List.mem_cons_of_mem _ hc)]

namespace Thins

variable {kept : Nat → Bool} {t' : Tree}

/-- What is above a kept node is kept, and above it in the thinned tree. -/
theorem lineage_eq (h : Thins kept id t t') (hi : i < t.size) (hkept : kept i = true) :
    t'.lineage (rank kept i) = (t.lineage i).map (rank kept) ∧
      ∀ a ∈ t.lineage i, kept a = true := by
  induction i using Nat.strongRecOn with
  | ind i ih =>
    have hparent := h.parent?_eq i hi hkept
    cases hp : t.parent? i with
    | none =>
      rw [hp, Option.map_none] at hparent
      rw [lineage, lineage, ancestors_of_none hp, ancestors_of_none hparent]
      simpa using hkept
    | some p =>
      rw [hp, Option.map_some] at hparent
      have hlt := parent?_lt hp
      obtain ⟨hlineage, hall⟩ := ih p hlt (Nat.lt_trans hlt hi) (h.kept_parent i p hkept hp)
      rw [lineage, lineage, ancestors_eq_lineage hp, ancestors_eq_lineage hparent, hlineage]
      refine ⟨rfl, ?_⟩
      intro a ha
      rcases List.mem_cons.1 ha with rfl | ha
      · exact hkept
      · exact hall a ha

theorem kind?_eq (h : Thins kept id t t') (hi : i < t.size) (hkept : kept i = true) :
    t'.kind? (rank kept i) = t.kind? i := by
  rw [kind?, h.label?_eq i hi hkept, Option.map_id, id, kind?]

/-- A kept node keeps its body. -/
theorem body?_eq (h : Thins kept id t t') (hi : i < t.size) (hkept : kept i = true) :
    t'.body? (rank kept i) = (t.body? i).map (rank kept) := by
  obtain ⟨hlineage, hall⟩ := h.lineage_eq hi hkept
  rw [body?, body?, hlineage, List.filter_map, List.getLast?_map]
  congr 2
  apply List.filter_congr
  intro a ha
  rw [Function.comp_apply, h.kind?_eq (Nat.lt_of_le_of_lt (le_of_mem_lineage ha) hi) (hall a ha)]

theorem eq_of_rank_eq (hi : kept i = true) (hj : kept j = true) (h : rank kept i = rank kept j) :
    i = j := by
  rcases Nat.lt_trichotomy i j with hlt | heq | hlt
  · exact absurd h (Nat.ne_of_lt (rank_lt_rank hi hlt))
  · exact heq
  · exact absurd h (Nat.ne_of_gt (rank_lt_rank hj hlt))

/-- If no block is gone the bodies are the same. -/
theorem outerBlocks_eq (h : Thins kept id t t')
    (hblocks : ∀ i, t.kind? i = some .block → kept i = true) :
    t'.outerBlocks = t.outerBlocks.map (rank kept) := by
  rw [outerBlocks, h.range_size_eq, List.filter_map, List.filter_filter, outerBlocks]
  congr 1
  apply List.filter_congr
  intro i hi
  rw [Function.comp_apply, Bool.eq_iff_iff, Bool.and_eq_true, decide_eq_true_iff,
    decide_eq_true_iff]
  -- bodies are blocks, all of which are kept, and kept nodes have numbers of their own
  have hsize := List.mem_range.1 hi
  constructor
  · rintro ⟨hbody, hkept⟩
    rw [h.body?_eq hsize hkept] at hbody
    obtain ⟨b, hb, hrank⟩ := Option.map_eq_some_iff.1 hbody
    have hb' := (body?_eq_some_iff.1 hb).2.1
    rw [hb, eq_of_rank_eq (hblocks b hb') hkept hrank]
  · intro hbody
    have hkept := hblocks i (body?_eq_some_iff.1 hbody).2.1
    rw [h.body?_eq hsize hkept, hbody]
    exact ⟨rfl, hkept⟩

theorem marker_eq (h : Thins kept id t t') (hblocks : ∀ i, t.kind? i = some .block → kept i = true)
    (hi : i < t.size) (hkept : kept i = true) : t'.marker (rank kept i) = t.marker i := by
  have hnumber : t'.bodyNumber? (rank kept i) = t.bodyNumber? i := by
    rw [bodyNumber?, bodyNumber?, h.body?_eq hi hkept, h.outerBlocks_eq hblocks, Option.map_map]
    apply Option.map_congr
    intro b hb
    apply idxOf_map_of_inj
    intro a ha hrank
    have ha' := (body?_eq_some_iff.1 (of_decide_eq_true (List.mem_filter.1 ha).2)).2.1
    exact eq_of_rank_eq (hblocks a ha') (hblocks b (body?_eq_some_iff.1 hb).2.1) hrank
  rw [marker, h.label?_eq i hi hkept, Option.map_id, hnumber]
  rfl

/-- The directives that are kept are in the bodies that they were in. -/
theorem markers_eq (h : Thins kept id t t')
    (hblocks : ∀ i, t.kind? i = some .block → kept i = true) :
    t'.markers = ((List.range t.size).filter fun i => kept i && t.isDirective i).map t.marker := by
  rw [markers, h.range_size_eq, List.filter_map, List.filter_filter, List.map_map]
  have hfilter : (List.range t.size).filter
      (fun i => (t'.isDirective ∘ rank kept) i && kept i) =
      (List.range t.size).filter fun i => kept i && t.isDirective i := by
    apply List.filter_congr
    intro i hi
    cases hkept : kept i with
    | false => simp
    | true =>
      rw [Function.comp_apply, isDirective, directive?, h.kind?_eq (List.mem_range.1 hi) hkept,
        Bool.and_true, Bool.true_and]
      rfl
  rw [hfilter]
  apply List.map_congr_left
  intro i hi
  obtain ⟨hrange, hkept⟩ := List.mem_filter.1 hi
  exact h.marker_eq hblocks (List.mem_range.1 hrange) (Bool.and_eq_true_iff.1 hkept).1

end Thins

end Tree

end RegionScope
