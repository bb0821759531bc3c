import RegionScope.Proofs.Tree.Descent
import RegionScope.Proofs.Tree.OuterBody
import RegionScope.Proofs.Directive.Groups
import RegionScope.Proofs.Source.Bodies

/-!
# Regions and their ends

The regions of a tree match with their ends like brackets (`regionPairs`), and the group of a
region is the region with its end, if it has one (`mem_groups_of_mem_regionPairs`). So a region is
contained in a body exactly when one block is the outermost one around the region and around its
end (`isContained_iff`).
-/

namespace RegionScope

/-- The kind of directive that opens a group of a family. -/
def DirectiveKind.Family.opener : DirectiveKind.Family → DirectiveKind
  | .region => .region
  | .conditional => .ifStart

/-- The kind of directive that closes a group of a family. -/
def DirectiveKind.Family.closer : DirectiveKind.Family → DirectiveKind
  | .region => .endRegion
  | .conditional => .endIf

namespace Tree

open DirectiveKind

variable {t : Tree} {i b r : Nat} {partner : Option Nat}

/-- Whether node `i` opens a region. -/
def isRegion (t : Tree) (i : Nat) : Bool := t.directive? i == some .region

/-- Whether node `i` ends a region. -/
def isEndRegion (t : Tree) (i : Nat) : Bool := t.directive? i == some .endRegion

/-- The regions below node 0 in document order, each with its end if it has one: the region that
was opened last is ended first. -/
def regionPairs (t : Tree) : List (Nat × Option Nat) :=
  Brackets.pairs t.isRegion t.isEndRegion (t.directivesBelow 0)

/-- Node `b` is the block above node `i` that is closest to the root. -/
structure IsOuterBlock (t : Tree) (b i : Nat) : Prop where
  mem_ancestors : b ∈ t.ancestors i
  block : t.kind? b = some .block
  outermost : ∀ a ∈ t.ancestors b, t.kind? a ≠ some .block

/-- One block is the outermost one above a region and above its end, if it has one. -/
def InOneBlock (t : Tree) (region : Nat × Option Nat) : Prop :=
  ∃ b, t.IsOuterBlock b region.1 ∧ ∀ e, region.2 = some e → t.IsOuterBlock b e

instance (t : Tree) (b i : Nat) : Decidable (t.IsOuterBlock b i) :=
  decidable_of_iff (b ∈ t.ancestors i ∧ t.kind? b = some .block ∧
      ∀ a ∈ t.ancestors b, t.kind? a ≠ some .block)
    ⟨fun ⟨hmem, hblock, houter⟩ => ⟨hmem, hblock, houter⟩,
      fun ⟨hmem, hblock, houter⟩ => ⟨hmem, hblock, houter⟩⟩

instance (t : Tree) (region : Nat × Option Nat) : Decidable (t.InOneBlock region) :=
  decidable_of_iff (∃ b ∈ t.ancestors region.1, t.IsOuterBlock b region.1 ∧
      ∀ e ∈ region.2, t.IsOuterBlock b e)
    ⟨fun ⟨b, _, h⟩ => ⟨b, h⟩, fun ⟨b, h⟩ => ⟨b, h.1.mem_ancestors, h⟩⟩

theorem isRegion_iff : t.isRegion i = true ↔ t.directive? i = some .region := beq_iff_eq

theorem isEndRegion_iff : t.isEndRegion i = true ↔ t.directive? i = some .endRegion := beq_iff_eq

/-! ## Bodies of directives -/

theorem isDirective_of_directive? {kind : DirectiveKind} (h : t.directive? i = some kind) :
    t.isDirective i = true := by
  rw [isDirective, h]
  rfl

/-- A directive is no block, so its body is above it. -/
theorem body?_eq_some_iff_isOuterBlock (hi : t.isDirective i = true) :
    t.body? i = some b ↔ t.IsOuterBlock b i := by
  rw [body?_eq_some_iff]
  constructor
  · rintro ⟨hmem, hblock, houter⟩
    rcases mem_lineage_iff.1 hmem with rfl | hmem
    · rw [isDirective_of_kind? hblock] at hi
      cases hi
    · exact ⟨hmem, hblock, houter⟩
  · rintro ⟨hmem, hblock, houter⟩
    exact ⟨mem_lineage_iff.2 (.inr hmem), hblock, houter⟩

/-- Above what has a block above it there is an outermost block. -/
theorem exists_isOuterBlock (hi : t.isDirective i = true) (hb : b ∈ t.ancestors i)
    (hblock : t.kind? b = some .block) : ∃ b, t.IsOuterBlock b i := by
  cases hbody : t.body? i with
  | none => exact absurd hblock (body?_eq_none_iff.1 hbody b (mem_lineage_iff.2 (.inr hb)))
  | some b => exact ⟨b, (body?_eq_some_iff_isOuterBlock hi).1 hbody⟩

theorem shareBody_cons_iff {rest : List Nat} :
    t.shareBody (i :: rest) = true ↔
      ∃ b, t.body? i = some b ∧ ∀ j ∈ rest, t.body? j = some b := by
  cases h : t.body? i with
  | none => simp [shareBody, h]
  | some b => simp [shareBody, h]

/-- A region with its end lies in one body exactly when one block is outermost above both. -/
theorem shareBody_iff_inOneBlock (hr : t.isDirective r = true)
    (hpartner : ∀ e, partner = some e → t.isDirective e = true) :
    t.shareBody (r :: partner.toList) = true ↔ t.InOneBlock (r, partner) := by
  rw [shareBody_cons_iff]
  constructor
  · rintro ⟨b, hb, hrest⟩
    refine ⟨b, (body?_eq_some_iff_isOuterBlock hr).1 hb, fun e he => ?_⟩
    have hbody := hrest e (Option.mem_toList.2 he)
    exact (body?_eq_some_iff_isOuterBlock (hpartner e he)).1 hbody
  · rintro ⟨b, hb, hrest⟩
    refine ⟨b, (body?_eq_some_iff_isOuterBlock hr).2 hb, fun e he => ?_⟩
    have he' := Option.mem_toList.1 he
    exact (body?_eq_some_iff_isOuterBlock (hpartner e he')).2 (hrest e he')

/-! ## Roles and kinds -/

theorem roleOf_eq_opens_iff {family : Family} :
    t.roleOf i = .opens family ↔ t.directive? i = some family.opener := by
  rw [roleOf]
  cases t.directive? i with
  | none => simp
  | some kind => cases kind <;> cases family <;> simp [DirectiveKind.role, Family.opener]

theorem roleOf_eq_closes_iff {family : Family} :
    t.roleOf i = .closes family ↔ t.directive? i = some family.closer := by
  rw [roleOf]
  cases t.directive? i with
  | none => simp
  | some kind => cases kind <;> cases family <;> simp [DirectiveKind.role, Family.closer]

/-- Branches join conditionals, and nothing joins a region. -/
theorem roleOf_eq_joins_iff {family : Family} : t.roleOf i = .joins family ↔
    family = .conditional ∧
      (t.directive? i = some .elifBranch ∨ t.directive? i = some .elseBranch) := by
  rw [roleOf]
  cases t.directive? i with
  | none => simp
  | some kind => cases kind <;> cases family <;> simp [DirectiveKind.role]

/-! ## Groups of regions -/

theorem roleOf_region_iff : t.isRegion i = true ↔ t.roleOf i = .opens .region := by
  rw [isRegion_iff, roleOf_eq_opens_iff, Family.opener]

theorem roleOf_endRegion_iff : t.isEndRegion i = true ↔ t.roleOf i = .closes .region := by
  rw [isEndRegion_iff, roleOf_eq_closes_iff, Family.closer]

theorem roleOf_ne_joins : t.roleOf i ≠ .joins .region :=
  fun h => Family.noConfusion (roleOf_eq_joins_iff.1 h).1

/-- What matches a region is its end. -/
theorem isEndRegion_of_mem_regionPairs {e : Nat} (h : (r, some e) ∈ t.regionPairs) :
    t.isEndRegion e = true := by
  obtain ⟨before, after, -, -, hpartner⟩ := Brackets.mem_pairs_iff.1 h
  obtain ⟨inside, rest, -, hcloses, -⟩ := Brackets.closer?_eq_some_iff.1 hpartner.symm
  exact hcloses

theorem isRegion_of_mem_regionPairs (h : (r, partner) ∈ t.regionPairs) : t.isRegion r = true := by
  obtain ⟨before, after, -, hopens, -⟩ := Brackets.mem_pairs_iff.1 h
  exact hopens

theorem mem_directivesBelow_of_mem_regionPairs (h : (r, partner) ∈ t.regionPairs) :
    r ∈ t.directivesBelow 0 := by
  obtain ⟨before, after, hsplit, -⟩ := Brackets.mem_pairs_iff.1 h
  rw [hsplit]
  simp

/-- The group of a region is the region with its end. -/
theorem mem_groups_of_mem_regionPairs (h : (r, partner) ∈ t.regionPairs) :
    r :: partner.toList ∈ t.groups (t.directivesBelow 0) := by
  obtain ⟨before, after, hsplit, hopens, rfl⟩ := Brackets.mem_pairs_iff.1 h
  have hmembers : membersFrom t.roleOf .region 0 after =
      (Brackets.closer? t.isRegion t.isEndRegion 0 after).toList :=
    membersFrom_eq_closer? 0 (fun _ _ => roleOf_region_iff) (fun _ _ => roleOf_endRegion_iff)
      (fun _ _ => roleOf_ne_joins)
  rw [groups, hsplit, ← hmembers]
  exact mem_directiveGroups_of_opens (roleOf_region_iff.1 hopens)

theorem nodup_directivesBelow (t : Tree) (i : Nat) : (t.directivesBelow i).Nodup := by
  rw [directivesBelow, descendants_eq_below]
  exact (t.nodup_below i).filter _

theorem mem_of_mem_groups {nodes g : List Nat} (hg : g ∈ t.groups nodes) (hi : i ∈ g) :
    i ∈ nodes :=
  (flatten_directiveGroups_perm t.roleOf nodes).mem_iff.1 (List.mem_flatten.2 ⟨g, hg, hi⟩)

theorem exists_mem_groups {nodes : List Nat} (hi : i ∈ nodes) : ∃ g ∈ t.groups nodes, i ∈ g :=
  List.mem_flatten.1 ((flatten_directiveGroups_perm t.roleOf nodes).mem_iff.2 hi)

/-- Among different nodes one group holds a node, and it is listed once. -/
theorem filter_contains_groups {nodes g : List Nat} (hnodup : nodes.Nodup)
    (hg : g ∈ t.groups nodes) (hi : i ∈ g) : (t.groups nodes).filter (·.contains i) = [g] := by
  have hflatten := (flatten_directiveGroups_perm t.roleOf nodes).nodup_iff.2 hnodup
  have hdisjoint := (List.nodup_flatten.1 hflatten).2
  obtain ⟨front, back, hsplit⟩ := List.append_of_mem hg
  rw [← groups, hsplit, List.pairwise_append, List.pairwise_cons] at hdisjoint
  obtain ⟨-, ⟨hback, -⟩, hcross⟩ := hdisjoint
  have hfront : ∀ g' ∈ front, g.Disjoint g' :=
    fun g' hg' => List.disjoint_symm (hcross g' hg' g List.mem_cons_self)
  -- no group in front of `g` or behind it shares a node with `g`
  have hnone : ∀ part : List (List Nat), (∀ g' ∈ part, g.Disjoint g') →
      part.filter (·.contains i) = [] := by
    intro part hpart
    rw [List.filter_eq_nil_iff]
    exact fun g' hg' hcontains => hpart g' hg' hi (List.contains_iff_mem.1 hcontains)
  rw [hsplit, List.filter_append, List.filter_cons, if_pos (List.contains_iff_mem.2 hi),
    hnone back hback, hnone front hfront, List.nil_append]

/-- The group that is looked up for a directive is the one group that holds it. -/
theorem related_eq_of_mem_groups {g : List Nat} (hg : g ∈ t.groups (t.directivesBelow (t.root i)))
    (hi : i ∈ g) : t.related i = g := by
  rw [related, ← List.head?_filter, filter_contains_groups (t.nodup_directivesBelow _) hg hi]
  rfl

/-- A region is contained in a body when one block is outermost above it and above its end. -/
theorem isContained_iff (hroot : t.root r = 0) (h : (r, partner) ∈ t.regionPairs) :
    t.isContained r = true ↔ t.InOneBlock (r, partner) := by
  have hgroup := mem_groups_of_mem_regionPairs h
  rw [← hroot] at hgroup
  have hrelated : t.related r = r :: partner.toList :=
    related_eq_of_mem_groups hgroup List.mem_cons_self
  rw [isContained, hrelated]
  refine shareBody_iff_inOneBlock ?_ ?_
  · exact isDirective_of_directive? (isRegion_iff.1 (isRegion_of_mem_regionPairs h))
  · intro e he
    subst he
    exact isDirective_of_directive? (isEndRegion_iff.1 (isEndRegion_of_mem_regionPairs h))

end Tree

end RegionScope
