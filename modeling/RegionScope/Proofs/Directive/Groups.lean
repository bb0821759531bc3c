import RegionScope.Directive.Group
import RegionScope.Proofs.Brackets
import Mathlib.Data.List.Nodup
import Mathlib.Data.List.Pairwise
import Mathlib.Data.List.Perm.Basic

/-!
# Groups are brackets

Taking one more directive into the groups so far changes at most one of them
(`extend?_eq_some_iff`), so the groups together hold every directive once
(`flatten_directiveGroups_perm`).

A directive that opens a group is followed in it by those directives of its family that find it
innermost open, up to the one that closes it (`mem_directiveGroups_of_opens`). In a family in which
nothing joins, this is the one directive that closes the bracket (`membersFrom_eq_closer?`).
-/

namespace RegionScope

open DirectiveKind (Role Family)

variable {α : Type}

namespace OpenGroup

variable {family : Family} {openIn : Option Family} {d : α} {groups groups' : List (OpenGroup α)}

/-- No group is extended when none is open. -/
theorem extend?_eq_none_iff :
    extend? family openIn d groups = none ↔ ∀ g ∈ groups, g.openIn ≠ some family := by
  induction groups with
  | nil => simp [extend?]
  | cons g groups ih =>
    rw [extend?, List.forall_mem_cons]
    by_cases h : g.openIn = some family
    · simp [h]
    · rw [if_neg h, Option.map_eq_none_iff, ih]
      exact (and_iff_right h).symm

/-- The first open group is extended, and no other is changed. -/
theorem extend?_eq_some_iff : extend? family openIn d groups = some groups' ↔
    ∃ front members back, groups = front ++ ⟨some family, members⟩ :: back ∧
      groups' = front ++ ⟨openIn, d :: members⟩ :: back ∧
      ∀ g ∈ front, g.openIn ≠ some family := by
  constructor
  · intro h
    induction groups generalizing groups' with
    | nil => cases h
    | cons g groups ih =>
      rw [extend?] at h
      split at h
      · next hopen =>
        obtain ⟨gOpen, members⟩ := g
        obtain rfl : gOpen = some family := hopen
        obtain rfl := Option.some.inj h
        exact ⟨[], members, groups, rfl, rfl, List.forall_mem_nil _⟩
      · next hopen =>
        obtain ⟨rest, hrest, rfl⟩ := Option.map_eq_some_iff.1 h
        obtain ⟨front, members, back, rfl, rfl, hfront⟩ := ih hrest
        exact ⟨g :: front, members, back, rfl, rfl, List.forall_mem_cons.2 ⟨hopen, hfront⟩⟩
  · rintro ⟨front, members, back, rfl, rfl, hfront⟩
    induction front with
    | nil => simp [extend?]
    | cons g front ih =>
      obtain ⟨hopen, hfront⟩ := List.forall_mem_cons.1 hfront
      rw [List.cons_append, extend?, if_neg hopen, ih hfront]
      rfl

/-- The groups after a directive that joins or closes: the first open group is extended, or the
directive starts a group of its own. -/
def place (family : Family) (openIn : Option Family) (d : α) (groups : List (OpenGroup α)) :
    List (OpenGroup α) :=
  (extend? family openIn d groups).getD (⟨none, [d]⟩ :: groups)

theorem place_cases (family : Family) (openIn : Option Family) (d : α)
    (groups : List (OpenGroup α)) :
    ((∀ g ∈ groups, g.openIn ≠ some family) ∧
        place family openIn d groups = ⟨none, [d]⟩ :: groups) ∨
      ∃ front members back, groups = front ++ ⟨some family, members⟩ :: back ∧
        place family openIn d groups = front ++ ⟨openIn, d :: members⟩ :: back ∧
        ∀ g ∈ front, g.openIn ≠ some family := by
  unfold place
  cases h : extend? family openIn d groups with
  | none => exact .inl ⟨extend?_eq_none_iff.1 h, rfl⟩
  | some groups' => exact .inr (extend?_eq_some_iff.1 h)

theorem place_of_open {front : List (OpenGroup α)} (openIn : Option Family) (d : α)
    (members : List α) (back : List (OpenGroup α)) (hfront : ∀ g ∈ front, g.openIn ≠ some family) :
    place family openIn d (front ++ ⟨some family, members⟩ :: back) =
      front ++ ⟨openIn, d :: members⟩ :: back := by
  rw [place, extend?_eq_some_iff.2 ⟨front, members, back, rfl, rfl, hfront⟩]
  rfl

/-- Every directive of some groups. -/
def allMembers (groups : List (OpenGroup α)) : List α := groups.flatMap (·.members)

theorem allMembers_place (family : Family) (openIn : Option Family) (d : α)
    (groups : List (OpenGroup α)) :
    (allMembers (place family openIn d groups)).Perm (d :: allMembers groups) := by
  rcases place_cases family openIn d groups with ⟨-, h⟩ | ⟨front, members, back, rfl, h, -⟩
  · rw [h]
    exact List.Perm.refl _
  · rw [h, allMembers, allMembers, List.flatMap_append, List.flatMap_append, List.flatMap_cons,
      List.flatMap_cons]
    exact List.perm_middle

theorem insert_of_opens {roleOf : α → Role} (h : roleOf d = .opens family) :
    insert roleOf groups d = ⟨some family, [d]⟩ :: groups := by
  simp [insert, h]

theorem insert_of_joins {roleOf : α → Role} (h : roleOf d = .joins family) :
    insert roleOf groups d = place family (some family) d groups := by
  simp [insert, h, place]

theorem insert_of_closes {roleOf : α → Role} (h : roleOf d = .closes family) :
    insert roleOf groups d = place family none d groups := by
  simp [insert, h, place]

theorem insert_of_alone {roleOf : α → Role} (h : roleOf d = .alone) :
    insert roleOf groups d = ⟨none, [d]⟩ :: groups := by
  simp [insert, h]

/-- One more directive is taken in, and none is lost. -/
theorem allMembers_insert (roleOf : α → Role) (groups : List (OpenGroup α)) (d : α) :
    (allMembers (insert roleOf groups d)).Perm (d :: allMembers groups) := by
  cases h : roleOf d with
  | opens family =>
    rw [insert_of_opens h]
    exact List.Perm.refl _
  | joins family =>
    rw [insert_of_joins h]
    exact allMembers_place family (some family) d groups
  | closes family =>
    rw [insert_of_closes h]
    exact allMembers_place family none d groups
  | alone =>
    rw [insert_of_alone h]
    exact List.Perm.refl _

theorem allMembers_foldl (roleOf : α → Role) (directives : List α) (groups : List (OpenGroup α)) :
    (allMembers (directives.foldl (insert roleOf) groups)).Perm
      (directives ++ allMembers groups) := by
  induction directives generalizing groups with
  | nil => exact List.Perm.refl _
  | cons d rest ih =>
    refine (ih (insert roleOf groups d)).trans ?_
    refine ((allMembers_insert roleOf groups d).append_left rest).trans ?_
    exact List.perm_middle

/-! ## A group while it is open -/

/-- How many groups are open in a family. -/
def openCount (family : Family) (groups : List (OpenGroup α)) : Nat :=
  groups.countP fun g => g.openIn = some family

theorem openCount_eq_zero_iff :
    openCount family groups = 0 ↔ ∀ g ∈ groups, g.openIn ≠ some family := by
  simp [openCount, List.countP_eq_zero]

theorem openCount_cons (other : Family) (g : OpenGroup α) :
    openCount other (g :: groups) =
      openCount other groups + if g.openIn = some other then 1 else 0 := by
  simp [openCount, List.countP_cons]

theorem openCount_append (other : Family) :
    openCount other (groups ++ groups') = openCount other groups + openCount other groups' :=
  List.countP_append

/-- An extended group that stays open counts as before; one that is closed counts no more. -/
theorem openCount_extended {front back : List (OpenGroup α)} {members members' : List α}
    (hopenIn : openIn = none ∨ openIn = some family) (other : Family) :
    openCount other (front ++ ⟨openIn, members'⟩ :: back) =
      if other = family ∧ openIn = none
      then openCount other (front ++ ⟨some family, members⟩ :: back) - 1
      else openCount other (front ++ ⟨some family, members⟩ :: back) := by
  simp only [openCount_append, openCount_cons]
  rcases hopenIn with rfl | rfl
  · by_cases h : other = family
    · simp [h]
    · have hne : ¬ family = other := fun he => h he.symm
      simp [h, hne]
  · simp

/-- A group that is not the first open one of a family stays as it is when a directive of that
family is placed. -/
theorem place_frame {front : List (OpenGroup α)} (group : OpenGroup α) (back : List (OpenGroup α))
    (hgroup : group.openIn = some family → 0 < openCount family front)
    (hopenIn : openIn = none ∨ openIn = some family) (d : α) :
    ∃ front' back', place family openIn d (front ++ group :: back) = front' ++ group :: back' ∧
      ∀ other, openCount other front' =
        if other = family ∧ openIn = none then openCount other front - 1
        else openCount other front := by
  rcases place_cases family openIn d front with
    ⟨hfront, -⟩ | ⟨before, members, after, rfl, -, hbefore⟩
  · -- nothing is open in front of the group, and the group is not open either
    have hzero := openCount_eq_zero_iff.2 hfront
    have hnot : group.openIn ≠ some family := by
      intro hopen
      have := hgroup hopen
      omega
    have hcount : ∀ other, openCount other front =
        if other = family ∧ openIn = none then openCount other front - 1
        else openCount other front := by
      intro other
      split
      · next h =>
        rw [h.1, hzero]
      · rfl
    -- so the place is behind the group, if anything is open there
    rcases place_cases family openIn d back with
      ⟨hback, -⟩ | ⟨before, members, after, rfl, -, hbefore⟩
    · refine ⟨⟨none, [d]⟩ :: front, back, ?_, ?_⟩
      · have hall : ∀ g ∈ front ++ group :: back, g.openIn ≠ some family :=
          List.forall_mem_append.2 ⟨hfront, List.forall_mem_cons.2 ⟨hnot, hback⟩⟩
        rw [place, extend?_eq_none_iff.2 hall]
        rfl
      · intro other
        rw [openCount_cons]
        exact hcount other
    · refine ⟨front, before ++ ⟨openIn, d :: members⟩ :: after, ?_, hcount⟩
      have hskip : ∀ g ∈ front ++ group :: before, g.openIn ≠ some family :=
        List.forall_mem_append.2 ⟨hfront, List.forall_mem_cons.2 ⟨hnot, hbefore⟩⟩
      have hplace := place_of_open openIn d members after hskip
      simpa using hplace
  · -- the first open group stands in front of the group
    refine ⟨before ++ ⟨openIn, d :: members⟩ :: after, back, ?_, openCount_extended hopenIn⟩
    have hplace := place_of_open openIn d members (after ++ group :: back) hbefore
    simpa using hplace

end OpenGroup

/-- The directives that follow in a group that is open in `family`, when `depth` other groups of
the family have been opened in it. -/
def membersFrom (roleOf : α → Role) (family : Family) : Nat → List α → List α
  | _, [] => []
  | depth, d :: rest =>
    match roleOf d with
    | .opens other => membersFrom roleOf family (if other = family then depth + 1 else depth) rest
    | .joins other =>
      if other = family ∧ depth = 0 then d :: membersFrom roleOf family 0 rest
      else membersFrom roleOf family depth rest
    | .closes other =>
      if other = family then
        match depth with
        | 0 => [d]
        | depth + 1 => membersFrom roleOf family depth rest
      else membersFrom roleOf family depth rest
    | .alone => membersFrom roleOf family depth rest

section Members

variable {roleOf : α → Role} {family other : Family} {d : α} {rest : List α} {depth : Nat}

theorem membersFrom_cons_opens (h : roleOf d = .opens other) :
    membersFrom roleOf family depth (d :: rest) =
      membersFrom roleOf family (if other = family then depth + 1 else depth) rest := by
  simp [membersFrom, h]

theorem membersFrom_cons_joins (h : roleOf d = .joins other) :
    membersFrom roleOf family depth (d :: rest) =
      if other = family ∧ depth = 0 then d :: membersFrom roleOf family 0 rest
      else membersFrom roleOf family depth rest := by
  simp [membersFrom, h]

theorem membersFrom_zero_cons_closes (h : roleOf d = .closes family) :
    membersFrom roleOf family 0 (d :: rest) = [d] := by
  simp [membersFrom, h]

theorem membersFrom_succ_cons_closes (h : roleOf d = .closes family) :
    membersFrom roleOf family (depth + 1) (d :: rest) = membersFrom roleOf family depth rest := by
  simp [membersFrom, h]

theorem membersFrom_cons_closes_of_ne (h : roleOf d = .closes other) (hne : other ≠ family) :
    membersFrom roleOf family depth (d :: rest) = membersFrom roleOf family depth rest := by
  simp [membersFrom, h, hne]

theorem membersFrom_cons_alone (h : roleOf d = .alone) :
    membersFrom roleOf family depth (d :: rest) = membersFrom roleOf family depth rest := by
  simp [membersFrom, h]

end Members

namespace OpenGroup

/-- A group that is closed stays as it is. -/
theorem insert_closed (roleOf : α → Role) (d : α) (front back : List (OpenGroup α))
    (members : List α) :
    ∃ front' back', insert roleOf (front ++ ⟨none, members⟩ :: back) d =
      front' ++ ⟨none, members⟩ :: back' := by
  have hclosed : ∀ family : Family, (⟨none, members⟩ : OpenGroup α).openIn = some family →
      0 < openCount family front := fun _ h => by cases h
  cases hrole : roleOf d with
  | opens other =>
    rw [insert_of_opens hrole]
    exact ⟨⟨some other, [d]⟩ :: front, back, rfl⟩
  | joins other =>
    rw [insert_of_joins hrole]
    obtain ⟨front', back', h, -⟩ := place_frame _ back (hclosed other) (.inr rfl) d
    exact ⟨front', back', h⟩
  | closes other =>
    rw [insert_of_closes hrole]
    obtain ⟨front', back', h, -⟩ := place_frame _ back (hclosed other) (.inl rfl) d
    exact ⟨front', back', h⟩
  | alone =>
    rw [insert_of_alone hrole]
    exact ⟨⟨none, [d]⟩ :: front, back, rfl⟩

theorem foldl_closed (roleOf : α → Role) (directives : List α) (front back : List (OpenGroup α))
    (members : List α) :
    ∃ front' back', directives.foldl (insert roleOf) (front ++ ⟨none, members⟩ :: back) =
      front' ++ ⟨none, members⟩ :: back' := by
  induction directives generalizing front back with
  | nil => exact ⟨front, back, rfl⟩
  | cons d rest ih =>
    obtain ⟨front', back', h⟩ := insert_closed roleOf d front back members
    rw [List.foldl_cons, h]
    exact ih front' back'

/-- What one directive does to a group that is open, in front of which `depth` groups of its family
are open: it passes the group by, it joins it, or it closes it. -/
theorem insert_open_cases (roleOf : α → Role) (family : Family) (d : α) {depth : Nat}
    (front back : List (OpenGroup α)) (members : List α) (hdepth : openCount family front = depth) :
    (∃ front' back' depth',
      insert roleOf (front ++ ⟨some family, members⟩ :: back) d =
          front' ++ ⟨some family, members⟩ :: back' ∧
        openCount family front' = depth' ∧
        ∀ rest, membersFrom roleOf family depth (d :: rest) =
          membersFrom roleOf family depth' rest) ∨
      (insert roleOf (front ++ ⟨some family, members⟩ :: back) d =
          front ++ ⟨some family, d :: members⟩ :: back ∧
        ∀ rest, membersFrom roleOf family depth (d :: rest) =
          d :: membersFrom roleOf family depth rest) ∨
      (insert roleOf (front ++ ⟨some family, members⟩ :: back) d =
          front ++ ⟨none, d :: members⟩ :: back ∧
        ∀ rest, membersFrom roleOf family depth (d :: rest) = [d]) := by
  cases hrole : roleOf d with
  | opens other =>
    refine .inl ⟨⟨some other, [d]⟩ :: front, back, _, ?_, ?_,
      fun rest => membersFrom_cons_opens hrole⟩
    · rw [insert_of_opens hrole]
      rfl
    · rw [openCount_cons, hdepth]
      split <;> simp_all
  | joins other =>
    rw [insert_of_joins hrole]
    by_cases h : other = family ∧ depth = 0
    · -- nothing of the family is open in front of the group
      obtain ⟨rfl, rfl⟩ := h
      refine .inr (.inl ⟨place_of_open _ d members back (openCount_eq_zero_iff.1 hdepth), ?_⟩)
      intro rest
      rw [membersFrom_cons_joins hrole, if_pos ⟨rfl, rfl⟩]
    · have hframe : some family = some other → 0 < openCount other front := by
        intro hfamily
        obtain rfl := Option.some.inj hfamily
        have : depth ≠ 0 := fun hzero => h ⟨rfl, hzero⟩
        omega
      obtain ⟨front', back', hplace, hcount⟩ :=
        place_frame ⟨some family, members⟩ back hframe (.inr rfl) d
      refine .inl ⟨front', back', depth, hplace, ?_, ?_⟩
      · rw [hcount, hdepth]
        simp
      · intro rest
        rw [membersFrom_cons_joins hrole, if_neg h]
  | closes other =>
    rw [insert_of_closes hrole]
    by_cases h : other = family
    · subst h
      cases depth with
      | zero =>
        refine .inr (.inr ⟨place_of_open _ d members back (openCount_eq_zero_iff.1 hdepth), ?_⟩)
        intro rest
        exact membersFrom_zero_cons_closes hrole
      | succ depth =>
        -- the group that is closed stands in front, so one group fewer is open there
        have hframe : some other = some other → 0 < openCount other front := by omega
        obtain ⟨front', back', hplace, hcount⟩ :=
          place_frame ⟨some other, members⟩ back hframe (.inl rfl) d
        refine .inl ⟨front', back', depth, hplace, ?_,
          fun rest => membersFrom_succ_cons_closes hrole⟩
        rw [hcount, hdepth]
        simp
    · have hframe : some family = some other → 0 < openCount other front :=
        fun hfamily => absurd (Option.some.inj hfamily).symm h
      obtain ⟨front', back', hplace, hcount⟩ :=
        place_frame ⟨some family, members⟩ back hframe (.inl rfl) d
      refine .inl ⟨front', back', depth, hplace, ?_,
        fun rest => membersFrom_cons_closes_of_ne hrole h⟩
      have hne : ¬ family = other := fun heq => h heq.symm
      rw [hcount, hdepth]
      simp [hne]
  | alone =>
    refine .inl ⟨⟨none, [d]⟩ :: front, back, depth, ?_, ?_,
      fun rest => membersFrom_cons_alone hrole⟩
    · rw [insert_of_alone hrole]
      rfl
    · rw [openCount_cons, hdepth]
      simp

/-- A group that is open takes in what finds it innermost open, until it is closed. -/
theorem foldl_open (roleOf : α → Role) (family : Family) (directives : List α) (depth : Nat)
    (front back : List (OpenGroup α)) (members : List α) (hdepth : openCount family front = depth) :
    ∃ front' back' openIn,
      directives.foldl (insert roleOf) (front ++ ⟨some family, members⟩ :: back) = front' ++
        ⟨openIn, (membersFrom roleOf family depth directives).reverse ++ members⟩ :: back' := by
  induction directives generalizing depth front back members with
  | nil => exact ⟨front, back, some family, rfl⟩
  | cons d rest ih =>
    rw [List.foldl_cons]
    rcases insert_open_cases roleOf family d front back members hdepth with
      ⟨front', back', depth', hinsert, hdepth', hrest⟩ | ⟨hinsert, hrest⟩ | ⟨hinsert, hrest⟩
    · rw [hinsert, hrest]
      exact ih depth' front' back' members hdepth'
    · rw [hinsert, hrest, List.reverse_cons, List.append_assoc]
      exact ih depth front back (d :: members) hdepth
    · -- what comes behind leaves the closed group alone
      rw [hinsert, hrest]
      obtain ⟨front', back', hfoldl⟩ := foldl_closed roleOf rest front back (d :: members)
      exact ⟨front', back', none, hfoldl⟩

end OpenGroup

/-! ## The groups of a list of directives -/

variable {roleOf : α → Role} {family : Family} {directives : List α}

/-- Every directive is in the groups once. -/
theorem flatten_directiveGroups_perm (roleOf : α → Role) (directives : List α) :
    (directiveGroups roleOf directives).flatten.Perm directives := by
  have hmembers := OpenGroup.allMembers_foldl roleOf directives []
  have hnil : OpenGroup.allMembers ([] : List (OpenGroup α)) = [] := rfl
  rw [hnil, List.append_nil] at hmembers
  refine List.Perm.trans ?_ hmembers
  rw [directiveGroups, List.map_reverse, OpenGroup.allMembers]
  refine (List.reverse_perm _).flatten.trans ?_
  rw [← List.flatMap_def]
  exact List.Perm.flatMap_left _ fun g _ => List.reverse_perm g.members

/-- Two groups with a common member are one group. -/
theorem eq_of_mem_directiveGroups (hnodup : directives.Nodup) {g g' : List α} {d : α}
    (hg : g ∈ directiveGroups roleOf directives) (hg' : g' ∈ directiveGroups roleOf directives)
    (hd : d ∈ g) (hd' : d ∈ g') : g = g' := by
  have hflatten := (flatten_directiveGroups_perm roleOf directives).nodup_iff.2 hnodup
  have hdisjoint := (List.nodup_flatten.1 hflatten).2
  have : Std.Symm (List.Disjoint : List α → List α → Prop) := ⟨fun _ _ h _ hd hd' => h hd' hd⟩
  by_contra hne
  exact hdisjoint.forall hg hg' hne hd hd'

/-- The group that a directive opens. -/
theorem mem_directiveGroups_of_opens {before after : List α} {d : α}
    (hrole : roleOf d = .opens family) :
    d :: membersFrom roleOf family 0 after ∈
      directiveGroups roleOf (before ++ d :: after) := by
  obtain ⟨front, back, openIn, h⟩ := OpenGroup.foldl_open roleOf family after
    0 [] (before.foldl (OpenGroup.insert roleOf) []) [d] rfl
  rw [directiveGroups, List.foldl_append, List.foldl_cons, OpenGroup.insert_of_opens hrole]
  rw [List.nil_append] at h
  rw [h]
  simp

/-- In a family in which nothing joins a group is a bracket. -/
theorem membersFrom_eq_closer? {opens closes : α → Bool} (depth : Nat)
    (hopens : ∀ d ∈ directives, opens d = true ↔ roleOf d = .opens family)
    (hcloses : ∀ d ∈ directives, closes d = true ↔ roleOf d = .closes family)
    (hjoins : ∀ d ∈ directives, roleOf d ≠ .joins family) :
    membersFrom roleOf family depth directives =
      (Brackets.closer? opens closes depth directives).toList := by
  induction directives generalizing depth with
  | nil => rfl
  | cons d rest ih =>
    -- what the three hypotheses say about the first directive, and what about the rest
    obtain ⟨hopens, hopensRest⟩ := List.forall_mem_cons.1 hopens
    obtain ⟨hcloses, hclosesRest⟩ := List.forall_mem_cons.1 hcloses
    obtain ⟨hjoins, hjoinsRest⟩ := List.forall_mem_cons.1 hjoins
    have ih := fun depth => ih depth hopensRest hclosesRest hjoinsRest
    have hopensFalse : roleOf d ≠ .opens family → opens d = false :=
      fun h => Bool.eq_false_iff.2 fun hd => h (hopens.1 hd)
    have hclosesFalse : roleOf d ≠ .closes family → closes d = false :=
      fun h => Bool.eq_false_iff.2 fun hd => h (hcloses.1 hd)
    cases hrole : roleOf d with
    | opens other =>
      rw [membersFrom_cons_opens hrole]
      by_cases h : other = family
      · subst h
        rw [if_pos rfl, Brackets.closer?_cons_of_opens (hopens.2 hrole)]
        exact ih (depth + 1)
      · rw [if_neg h, Brackets.closer?_cons_of_neither (hopensFalse (by simp [hrole, h]))
          (hclosesFalse (by simp [hrole]))]
        exact ih depth
    | joins other =>
      have hne : other ≠ family := fun h => hjoins (h ▸ hrole)
      rw [membersFrom_cons_joins hrole, if_neg fun h => hne h.1,
        Brackets.closer?_cons_of_neither (hopensFalse (by simp [hrole]))
          (hclosesFalse (by simp [hrole]))]
      exact ih depth
    | closes other =>
      have hnotOpens := hopensFalse (by simp [hrole])
      by_cases h : other = family
      · subst h
        cases depth with
        | zero =>
          rw [membersFrom_zero_cons_closes hrole,
            Brackets.closer?_zero_cons_of_closes hnotOpens (hcloses.2 hrole)]
          rfl
        | succ depth =>
          rw [membersFrom_succ_cons_closes hrole,
            Brackets.closer?_succ_cons_of_closes hnotOpens (hcloses.2 hrole)]
          exact ih depth
      · rw [membersFrom_cons_closes_of_ne hrole h,
          Brackets.closer?_cons_of_neither hnotOpens (hclosesFalse (by simp [hrole, h]))]
        exact ih depth
    | alone =>
      rw [membersFrom_cons_alone hrole, Brackets.closer?_cons_of_neither
        (hopensFalse (by simp [hrole])) (hclosesFalse (by simp [hrole]))]
      exact ih depth

end RegionScope
