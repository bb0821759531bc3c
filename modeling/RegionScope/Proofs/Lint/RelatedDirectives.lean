import RegionScope.Proofs.Directive.GroupMembers
import RegionScope.Proofs.Lint.RegionReports

/-!
# Related directives

The directives related to a node are looked up among those below its root. A directive that is not
itself the root finds the one group that holds it; a root, and what is no directive, is related to
itself only (`related_cases`). All members of a group have one root, so they find the same group
again: to be related is an equivalence, and its classes are the lists that are looked up
(`related_equivalence`).

On an outline every directive is below node 0. So what is looked up for it is its group among the
directives of the context, and the rule about regions may be told from the groups that the rule
about pairs looks at (`Regions.run_eq_filterMap_groups`).
-/

namespace RegionScope

open RegionScope.Tree RegionScope.Source

namespace Tree

variable {t : Tree} {i e : Nat}

/-- Below its root a node is listed exactly if it is a directive and not the root. -/
theorem mem_directivesBelow_root_iff :
    i ∈ t.directivesBelow (t.root i) ↔ t.isDirective i = true ∧ t.root i ≠ i := by
  rw [directivesBelow, List.mem_filter, descendants_eq_below, mem_below_iff,
    root_mem_ancestors_iff, and_comm]

theorem root_eq_of_mem_directivesBelow {r : Nat} (h : i ∈ t.directivesBelow r) :
    t.root i = t.root r := by
  rw [directivesBelow, List.mem_filter, descendants_eq_below, mem_below_iff] at h
  exact root_eq_of_mem_ancestors h.1

/-- A directive is related to the group that holds it among those below its root; a root and what
is no directive, to itself only. -/
theorem related_cases (t : Tree) (i : Nat) :
    ((t.isDirective i = true ∧ t.root i ≠ i) ∧
        t.related i ∈ t.groups (t.directivesBelow (t.root i)) ∧ i ∈ t.related i) ∨
      (¬ (t.isDirective i = true ∧ t.root i ≠ i) ∧ t.related i = [i]) := by
  rw [← mem_directivesBelow_root_iff]
  by_cases hmem : i ∈ t.directivesBelow (t.root i)
  · left
    obtain ⟨g, hg, hi⟩ := exists_mem_groups hmem
    have hrelated : t.related i = g := related_eq_of_mem_groups hg hi
    rw [hrelated]
    exact ⟨hmem, hg, hi⟩
  · right
    refine ⟨hmem, ?_⟩
    have hnone : (t.groups (t.directivesBelow (t.root i))).find? (·.contains i) = none := by
      rw [List.find?_eq_none]
      exact fun g hg hcontains => hmem (mem_of_mem_groups hg (List.contains_iff_mem.1 hcontains))
    rw [related, hnone]
    rfl

theorem mem_related_self (t : Tree) (i : Nat) : i ∈ t.related i := by
  rcases t.related_cases i with ⟨-, -, hi⟩ | ⟨-, heq⟩
  · exact hi
  · rw [heq]
    exact List.mem_singleton_self i

/-- What is related to a node finds the same directives, in the same order. -/
theorem related_eq_of_mem_related (h : e ∈ t.related i) : t.related e = t.related i := by
  rcases t.related_cases i with ⟨-, hg, -⟩ | ⟨-, heq⟩
  · -- the root of a member is the root below which the group was looked up
    have hroot : t.root e = t.root i := by
      rw [root_eq_of_mem_directivesBelow (mem_of_mem_groups hg h), root_root]
    rw [← hroot] at hg
    exact related_eq_of_mem_groups hg h
  · rw [heq, List.mem_singleton] at h
    rw [h]

theorem related_eq_or_disjoint (t : Tree) (i j : Nat) :
    t.related i = t.related j ∨ (t.related i).Disjoint (t.related j) := by
  by_cases hshare : ∃ e, e ∈ t.related i ∧ e ∈ t.related j
  · obtain ⟨e, hi, hj⟩ := hshare
    exact .inl ((related_eq_of_mem_related hi).symm.trans (related_eq_of_mem_related hj))
  · exact .inr fun e hi hj => hshare ⟨e, hi, hj⟩

/-! ## Outlines -/

variable {path : Option String} {text : List Char}

/-- What is looked up for a member of a group of the context is the group. -/
theorem related_eq_of_mem_groups_ofText {g : List Nat}
    (hg : g ∈ (outline text).groups (Context.ofText path text).directives) (hi : i ∈ g) :
    (outline text).related i = g := by
  have hdirective := mem_directivesBelow_iff.1 (mem_of_mem_groups hg hi)
  have hroot := (outline_growsRight text).root_eq_zero (lt_size_of_isDirective hdirective)
  rw [Context.directives_ofText, ← hroot] at hg
  exact related_eq_of_mem_groups hg hi

theorem filter_contains_groups_ofText (h : (outline text).isDirective i = true) :
    ((outline text).groups (Context.ofText path text).directives).filter (·.contains i) =
      [(outline text).related i] := by
  obtain ⟨g, hg, hi⟩ : ∃ g ∈ (outline text).groups (Context.ofText path text).directives, i ∈ g :=
    exists_mem_groups (mem_directivesBelow_iff.2 h)
  rw [related_eq_of_mem_groups_ofText hg hi]
  exact filter_contains_groups (nodup_directivesBelow _ 0) hg hi

end Tree

/-! ## The rule about regions -/

namespace Regions

/-- The report for a group: for the region that opens it, if all members lie in one body. -/
def groupReport? (context : Context) (group : List Nat) : Option Issue :=
  group.head?.bind fun i =>
    if context.tree.isRegion i = true ∧ context.tree.shareBody group = true
    then (context.tree.label? i).map warning else none

/-- The rule about regions reports group by group, as the rule about pairs does. -/
theorem run_eq_filterMap_groups (path : Option String) (text : List Char) :
    let context := Context.ofText path text
    run context =
      (context.tree.groups context.directives).filterMap (groupReport? context) := by
  intro context
  have hopens : ∀ i, report? context i ≠ none →
      ∃ family, (outline text).roleOf i = .opens family := by
    intro i hreport
    rw [report?_eq, Context.tree_ofText] at hreport
    by_cases hregion : (outline text).isRegion i = true
    · exact ⟨_, roleOf_region_iff.1 hregion⟩
    · exact absurd (if_neg fun hboth => hregion hboth.1) hreport
  rw [run, ← filterMap_bind_head?_directiveGroups hopens, Context.tree_ofText, groups]
  apply List.filterMap_congr
  intro g hg
  cases hhead : g.head? with
  | none => rw [groupReport?, hhead]; rfl
  | some i =>
    have hrelated : (outline text).related i = g :=
      related_eq_of_mem_groups_ofText hg (List.mem_of_head? hhead)
    rw [groupReport?, hhead, Option.bind_some, Option.bind_some, report?_eq, Context.tree_ofText,
      isContained, hrelated]

end Regions

/-- To be related is an equivalence: each node is related to itself, what is related to a node has
the same list, and any two lists are equal or have nothing in common. For a directive of a text the
list is the one group of the directives of the context that holds it, so the rule about regions
reports on the groups that the rule about pairs reports on. -/
theorem related_equivalence (t : Tree) :
    (∀ i, i ∈ t.related i ∧ ∀ e ∈ t.related i, t.related e = t.related i) ∧
      (∀ i j, t.related i = t.related j ∨ (t.related i).Disjoint (t.related j)) ∧
      ∀ path text, let context := Context.ofText path text
        (∀ d, context.tree.isDirective d = true →
          (context.tree.groups context.directives).filter (·.contains d) =
            [context.tree.related d]) ∧
        Regions.run context =
          (context.tree.groups context.directives).filterMap (Regions.groupReport? context) := by
  refine ⟨fun i => ⟨t.mem_related_self i, fun e => Tree.related_eq_of_mem_related⟩,
    t.related_eq_or_disjoint, fun path text => ⟨?_, Regions.run_eq_filterMap_groups path text⟩⟩
  intro d hd
  exact Tree.filter_contains_groups_ofText hd

end RegionScope
