import RegionScope.Proofs.Directive.Matching
import RegionScope.Proofs.Directive.RegionPairs
import Mathlib.Data.List.FinRange

/-!
# Groups of directives

The groups of a list of nodes share its places among themselves: each place is in one group, the
places of a group increase, and so do the first places of the groups. A group is a single directive,
a region with its end, or a conditional with its branches and at most one end
(`groups_partition`).

Which directives are grouped is told from what stands between them. A region and an end of region
are in one group when the regions and ends between them are balanced; a conditional and a branch or
an end of conditional, when the conditionals and ends between them are. No other two directives are
in one group, but for branches and ends of one conditional (`groups_matching`).
-/

namespace RegionScope

open DirectiveKind (Role Family)
open Brackets (slice)

namespace Tree

variable {t : Tree} {family : Family} {i j a b : Nat} {ds g : List Nat}

/-! ## Roles and kinds -/

theorem followsIn_region_iff :
    FollowsIn t.roleOf .region i ↔ t.directive? i = some .endRegion := by
  rw [FollowsIn, roleOf_eq_joins_iff, roleOf_eq_closes_iff]
  exact or_iff_right fun h => Family.noConfusion h.1

theorem followsIn_conditional_iff : FollowsIn t.roleOf .conditional i ↔
    t.directive? i = some .elifBranch ∨ t.directive? i = some .elseBranch ∨
      t.directive? i = some .endIf := by
  rw [FollowsIn, roleOf_eq_joins_iff, roleOf_eq_closes_iff, and_iff_right rfl, or_assoc]
  rfl

/-! ## Shapes of groups -/

/-- The shapes of groups: a single directive, a region with its end, or a conditional with any
branches and at most one end. -/
inductive GroupShape (t : Tree) : List Nat → Prop where
  | single (d : Nat) : GroupShape t [d]
  | region {r e : Nat} (hregion : t.directive? r = some .region)
      (hend : t.directive? e = some .endRegion) : GroupShape t [r, e]
  | conditional {c : Nat} {branches : List Nat} {last : Option Nat}
      (hif : t.directive? c = some .ifStart)
      (hbranches : ∀ d ∈ branches,
        t.directive? d = some .elifBranch ∨ t.directive? d = some .elseBranch)
      (hend : ∀ e ∈ last, t.directive? e = some .endIf) :
      GroupShape t (c :: (branches ++ last.toList))

/-- What a region takes in is its end; what a conditional takes in are branches and then its end. -/
theorem groupShape_of_opens {c : Nat} (hopens : t.roleOf c = .opens family) (rest : List Nat) :
    t.GroupShape (c :: membersFrom t.roleOf family 0 rest) := by
  obtain ⟨branches, last, hmembers, hjoins, hcloses⟩ :=
    exists_membersFrom_eq t.roleOf family 0 rest
  rw [hmembers]
  cases family with
  | region =>
    have hnone : branches = [] := by
      rw [List.eq_nil_iff_forall_not_mem]
      intro d hd
      exact Family.noConfusion (roleOf_eq_joins_iff.1 (hjoins d hd)).1
    rw [hnone, List.nil_append]
    cases last with
    | none => exact .single c
    | some e =>
      exact .region (roleOf_eq_opens_iff.1 hopens) (roleOf_eq_closes_iff.1 (hcloses e rfl))
  | conditional =>
    refine .conditional (roleOf_eq_opens_iff.1 hopens) ?_ ?_
    · intro d hd
      exact (roleOf_eq_joins_iff.1 (hjoins d hd)).2
    · intro e he
      exact roleOf_eq_closes_iff.1 (hcloses e he)

theorem groupShape_of_mem_groups (hg : g ∈ t.groups ds) : t.GroupShape g := by
  obtain ⟨before, d, rest, rfl, hgroup⟩ := exists_of_mem_directiveGroups hg
  rcases hgroup with rfl | ⟨family, hopens, rfl⟩
  · exact .single d
  · exact groupShape_of_opens hopens rest

theorem ne_nil_of_mem_groups (hg : g ∈ t.groups ds) : g ≠ [] := by
  obtain ⟨before, d, rest, rfl, hgroup⟩ := exists_of_mem_directiveGroups hg
  rcases hgroup with rfl | ⟨family, -, rfl⟩ <;> exact List.cons_ne_nil _ _

/-- The groups of the places of a list, by what stands at each. -/
def placeGroups (t : Tree) (ds : List Nat) : List (List (Fin ds.length)) :=
  directiveGroups (t.roleOf ∘ ds.get) (List.finRange ds.length)

theorem groups_eq_map_placeGroups (t : Tree) (ds : List Nat) :
    t.groups ds = (t.placeGroups ds).map (List.map ds.get) := by
  rw [placeGroups, ← directiveGroups_map, List.map_get_finRange, groups]

/-- The groups of a list of nodes are not empty and have one of the three shapes, and together they
are the list in another order. Each place of the list is in one group, the places of the members of
a group increase, and so do the places of the first members of the groups. -/
theorem groups_partition (t : Tree) (ds : List Nat) :
    (∀ g ∈ t.groups ds, g ≠ [] ∧ t.GroupShape g) ∧ (t.groups ds).flatten.Perm ds ∧
      ∃ places : List (List (Fin ds.length)),
        t.groups ds = places.map (List.map ds.get) ∧
          places.flatten.Perm (List.finRange ds.length) ∧
          (∀ g ∈ places, g.Pairwise (· < ·)) ∧
          (places.filterMap List.head?).Pairwise (· < ·) := by
  refine ⟨fun g hg => ⟨ne_nil_of_mem_groups hg, groupShape_of_mem_groups hg⟩,
    flatten_directiveGroups_perm t.roleOf ds, t.placeGroups ds, t.groups_eq_map_placeGroups ds,
    flatten_directiveGroups_perm _ _, ?_, ?_⟩
  · intro g hg
    exact (List.pairwise_lt_finRange _).sublist (sublist_of_mem_directiveGroups hg)
  · exact (List.pairwise_lt_finRange _).sublist (filterMap_head?_directiveGroups_sublist _ _)

/-! ## Matching -/

/-- Whether two nodes are in one group of a list. -/
def Together (t : Tree) (ds : List Nat) (a b : Nat) : Prop := ∃ g ∈ t.groups ds, a ∈ g ∧ b ∈ g

theorem together_iff_of_opens (hnodup : ds.Nodup) (hij : i < j) (ha : ds[i]? = some a)
    (hb : ds[j]? = some b) (hopens : t.roleOf a = .opens family)
    (hfollows : FollowsIn t.roleOf family b) :
    t.Together ds a b ↔ BalancedIn t.roleOf family (slice ds (i + 1) j) := by
  rw [Together, groups, share_iff_takesIn hnodup hij ha hb hopens]
  exact ⟨fun h => h.balanced, fun h => ⟨hij, ⟨a, ha, hopens⟩, ⟨b, hb, hfollows⟩, h⟩⟩

/-- Two directives of which the first does not open a group that the second may go to are in one
group exactly when both go to the group of one conditional in front of them. -/
theorem together_iff_of_not_opens (hnodup : ds.Nodup) (hij : i < j) (ha : ds[i]? = some a)
    (hb : ds[j]? = some b)
    (hnot : ∀ family, t.roleOf a = .opens family → ¬ FollowsIn t.roleOf family b) :
    t.Together ds a b ↔ ∃ k c, k < i ∧ ds[k]? = some c ∧ t.directive? c = some .ifStart ∧
      t.Together ds c a ∧ t.Together ds c b := by
  constructor
  · intro h
    obtain ⟨family, htakes | ⟨k, hi, hj⟩⟩ := (share_iff hnodup hij ha hb).1 h
    · -- the first would open the group
      obtain ⟨c, hc, hopens⟩ := htakes.opens
      obtain ⟨d, hd, hfollows⟩ := htakes.follows
      obtain rfl := Option.some.inj (ha.symm.trans hc)
      obtain rfl := Option.some.inj (hb.symm.trans hd)
      exact absurd hfollows (hnot family hopens)
    · obtain ⟨rfl, -⟩ := roleOf_eq_joins_iff.1 (hi.roleOf_eq_joins hj hij ha)
      obtain ⟨c, hc, hopens⟩ := hi.opens
      exact ⟨k, c, hi.lt, hc, roleOf_eq_opens_iff.1 hopens,
        (share_iff_takesIn hnodup hi.lt hc ha hopens).2 hi,
        (share_iff_takesIn hnodup hj.lt hc hb hopens).2 hj⟩
  · rintro ⟨k, c, hk, hc, hif, hca, hcb⟩
    have hopens : t.roleOf c = .opens .conditional := roleOf_eq_opens_iff.2 hif
    have hi := (share_iff_takesIn hnodup hk hc ha hopens).1 hca
    have hj := (share_iff_takesIn hnodup (Nat.lt_trans hk hij) hc hb hopens).1 hcb
    exact (share_iff hnodup hij ha hb).2 ⟨.conditional, .inr ⟨k, hi, hj⟩⟩

/-- Among different nodes directives are matched like brackets, each family for itself: a region
with an end of region, and a conditional with a branch or an end of conditional, when what opens and
closes in the family between the two is balanced. Any other two are in one group only as branches or
end of one conditional in front of both. The groups of one family are those of its directives
alone. -/
theorem groups_matching (t : Tree) (hnodup : ds.Nodup) :
    (∀ i j a b, i < j → ds[i]? = some a → ds[j]? = some b →
      (t.directive? a = some .region ∧ t.directive? b = some .endRegion →
        (t.Together ds a b ↔ BalancedIn t.roleOf .region (slice ds (i + 1) j))) ∧
      (t.directive? a = some .ifStart ∧ (t.directive? b = some .elifBranch ∨
          t.directive? b = some .elseBranch ∨ t.directive? b = some .endIf) →
        (t.Together ds a b ↔ BalancedIn t.roleOf .conditional (slice ds (i + 1) j))) ∧
      (¬ (t.directive? a = some .region ∧ t.directive? b = some .endRegion) →
        ¬ (t.directive? a = some .ifStart ∧ (t.directive? b = some .elifBranch ∨
          t.directive? b = some .elseBranch ∨ t.directive? b = some .endIf)) →
        (t.Together ds a b ↔ ∃ k c, k < i ∧ ds[k]? = some c ∧ t.directive? c = some .ifStart ∧
          t.Together ds c a ∧ t.Together ds c b))) ∧
    ∀ family, t.groups (ds.filter (inFamily t.roleOf family)) =
      (t.groups ds).filter (·.any (inFamily t.roleOf family)) := by
  refine ⟨?_, fun family => directiveGroups_filter t.roleOf family ds⟩
  intro i j a b hij ha hb
  refine ⟨?_, ?_, ?_⟩
  · rintro ⟨hregion, hend⟩
    exact together_iff_of_opens hnodup hij ha hb (roleOf_eq_opens_iff.2 hregion)
      (followsIn_region_iff.2 hend)
  · rintro ⟨hif, hfollows⟩
    exact together_iff_of_opens hnodup hij ha hb (roleOf_eq_opens_iff.2 hif)
      (followsIn_conditional_iff.2 hfollows)
  · intro hregion hconditional
    apply together_iff_of_not_opens hnodup hij ha hb
    intro family hopens hfollows
    rw [roleOf_eq_opens_iff] at hopens
    cases family with
    | region => exact hregion ⟨hopens, followsIn_region_iff.1 hfollows⟩
    | conditional => exact hconditional ⟨hopens, followsIn_conditional_iff.1 hfollows⟩

/-- Regions and conditionals that overlap are matched as if the others were not there. -/
theorem groups_matching_overlapping :
    let kinds := [.region, .ifStart, .endRegion, .elseBranch, .region, .endIf, .endRegion]
    let t := kinds.foldl (fun t kind => t.add ⟨.directive kind, 0, 1, ""⟩ none) Tree.empty
    let ds := List.range 7
    ds.Nodup ∧ t.Together ds 0 2 ∧ ¬ t.Together ds 0 6 ∧ t.Together ds 1 3 ∧ t.Together ds 1 5 ∧
      t.Together ds 3 5 ∧ t.groups (ds.filter (inFamily t.roleOf .region)) = [[0, 2], [4, 6]] := by
  intro kinds t ds
  have hnodup : ds.Nodup := List.nodup_range
  obtain ⟨hmatch, hfamily⟩ := groups_matching t hnodup
  have hbranch : t.Together ds 1 3 :=
    ((hmatch 1 3 1 3 (by decide) rfl rfl).2.1 (by decide +kernel)).2 (by decide +kernel)
  have hend : t.Together ds 1 5 :=
    ((hmatch 1 5 1 5 (by decide) rfl rfl).2.1 (by decide +kernel)).2 (by decide +kernel)
  refine ⟨hnodup, ?_, ?_, hbranch, hend, ?_, ?_⟩
  · exact ((hmatch 0 2 0 2 (by decide) rfl rfl).1 (by decide +kernel)).2 (by decide +kernel)
  · have hregion := (hmatch 0 6 0 6 (by decide) rfl rfl).1 (by decide +kernel)
    exact fun h => absurd (hregion.1 h) (by decide +kernel)
  · have hother := (hmatch 3 5 3 5 (by decide) rfl rfl).2.2 (by decide +kernel) (by decide +kernel)
    exact hother.2 ⟨1, 1, by decide, rfl, by decide +kernel, hbranch, hend⟩
  · rw [hfamily]
    decide +kernel

end Tree

end RegionScope
