import RegionScope.Proofs.Directive.Unpaired

/-!
# Directives behind balanced directives

A list of directives that is balanced in both families leaves no group open. So the directives
behind it start groups of their own, as they do without it (`directiveGroups_append`).
-/

namespace RegionScope

open DirectiveKind (Role Family)

variable {α : Type} {roleOf : α → Role} {family : Family} {l : List α}

namespace OpenGroup

variable {groups closed : List (OpenGroup α)} {openIn : Option Family} {d : α}

theorem place_append (hclosed : ∀ g ∈ closed, g.openIn = none) :
    place family openIn d (groups ++ closed) = place family openIn d groups ++ closed := by
  have hnot : ∀ g ∈ closed, g.openIn ≠ some family := by
    intro g hg
    rw [hclosed g hg]
    nofun
  rcases place_cases family openIn d groups with
    ⟨hgroups, hplace⟩ | ⟨front, members, back, rfl, hplace, hfront⟩
  · have hnone : extend? family openIn d (groups ++ closed) = none :=
      extend?_eq_none_iff.2 (List.forall_mem_append.2 ⟨hgroups, hnot⟩)
    rw [hplace, place, hnone]
    rfl
  · rw [hplace, List.append_assoc, List.cons_append, place_of_open _ _ _ _ hfront,
      List.append_assoc, List.cons_append]

/-- Groups that are closed stay behind all others as they are. -/
theorem insert_append (roleOf : α → Role) (hclosed : ∀ g ∈ closed, g.openIn = none) (d : α) :
    insert roleOf (groups ++ closed) d = insert roleOf groups d ++ closed := by
  cases hrole : roleOf d with
  | opens family => rw [insert_of_opens hrole, insert_of_opens hrole, List.cons_append]
  | joins family => rw [insert_of_joins hrole, insert_of_joins hrole, place_append hclosed]
  | closes family => rw [insert_of_closes hrole, insert_of_closes hrole, place_append hclosed]
  | alone => rw [insert_of_alone hrole, insert_of_alone hrole, List.cons_append]

theorem foldl_append (roleOf : α → Role) (hclosed : ∀ g ∈ closed, g.openIn = none) (l : List α)
    (groups : List (OpenGroup α)) :
    l.foldl (insert roleOf) (groups ++ closed) = l.foldl (insert roleOf) groups ++ closed := by
  induction l generalizing groups with
  | nil => rfl
  | cons d l ih => rw [List.foldl_cons, insert_append roleOf hclosed, ih, List.foldl_cons]

/-- The groups that are open behind a list are as many as its directives leave open. -/
theorem openCount_foldl (roleOf : α → Role) (family : Family) (l : List α) :
    openCount family (l.foldl (insert roleOf) []) = depthBehind roleOf family l := by
  induction l using List.reverseRecOn with
  | nil => rfl
  | append_singleton l d ih =>
    rw [List.foldl_append, List.foldl_cons, List.foldl_nil, openCount_insert, ih,
      depthBehind_concat]

end OpenGroup

/-- No group is open behind a balanced list. -/
theorem BalancedIn.depthBehind_eq_zero (h : BalancedIn roleOf family l) :
    depthBehind roleOf family l = 0 := by
  rw [depthBehind_eq_zero_iff]
  rintro tail ⟨front, rfl⟩
  -- all of the list has no surplus, and what stands in front of the tail has no deficit
  have hall : surplus roleOf family (front ++ tail) = 0 := (Int.zero_add _).symm.trans h.1
  have hfront : 0 ≤ surplus roleOf family front := by
    have := h.2 front tail rfl
    rwa [Int.natCast_zero, Int.zero_add] at this
  rw [surplus_append] at hall
  omega

/-- The groups of directives behind a balanced list are their own. -/
theorem directiveGroups_append (h : ∀ family, BalancedIn roleOf family l) (l' : List α) :
    directiveGroups roleOf (l ++ l') = directiveGroups roleOf l ++ directiveGroups roleOf l' := by
  have hclosed : ∀ g ∈ l.foldl (OpenGroup.insert roleOf) [], g.openIn = none := by
    intro g hg
    rw [Option.eq_none_iff_forall_ne_some]
    intro family
    have hzero := (OpenGroup.openCount_foldl roleOf family l).trans (h family).depthBehind_eq_zero
    exact OpenGroup.openCount_eq_zero_iff.1 hzero g hg
  rw [directiveGroups, List.foldl_append, ← List.nil_append (l.foldl _ []),
    OpenGroup.foldl_append roleOf hclosed, List.reverse_append, List.map_append]
  rfl

end RegionScope
