import RegionScope.Proofs.Directive.Groups

/-!
# The order of groups

Groups stand in the order of the directives that start them. A directive starts a group when it
opens one, when it belongs to no family, and when it joins or closes with no group of its family
open. So the groups of a list are read off from its front, with no more than the number of groups
that are open in each family (`directiveGroups_eq_groupsFrom`).

What the directives are besides their roles plays no part in this (`directiveGroups_map`).
-/

namespace RegionScope

open DirectiveKind (Role Family)

variable {α β : Type}

/-- How many groups of a family are open behind a directive, when `depth` are in front of it. -/
def depthAfter (family : Family) (depth : Nat) : Role → Nat
  | .opens other => if other = family then depth + 1 else depth
  | .closes other => if other = family then depth - 1 else depth
  | .joins _ | .alone => depth

/-- The group that a directive starts, if it starts one. -/
def startedBy (roleOf : α → Role) (depth : Family → Nat) (d : α) (rest : List α) :
    Option (List α) :=
  match roleOf d with
  | .opens family => some (d :: membersFrom roleOf family 0 rest)
  | .joins family | .closes family => if depth family = 0 then some [d] else none
  | .alone => some [d]

/-- The groups that the directives of a list start, when some groups are open in front of it. -/
def groupsFrom (roleOf : α → Role) (depth : Family → Nat) : List α → List (List α)
  | [] => []
  | d :: rest =>
    (startedBy roleOf depth d rest).toList ++
      groupsFrom roleOf (fun family => depthAfter family (depth family) (roleOf d)) rest

/-- Whether a directive goes to a group of `family` that is open. -/
def FollowsIn (roleOf : α → Role) (family : Family) (d : α) : Prop :=
  roleOf d = .joins family ∨ roleOf d = .closes family

variable {roleOf : α → Role} {family other : Family} {d : α} {rest : List α}

theorem followsIn_iff_of_joins (h : roleOf d = .joins other) :
    FollowsIn roleOf family d ↔ other = family := by
  simp [FollowsIn, h]

theorem followsIn_iff_of_closes (h : roleOf d = .closes other) :
    FollowsIn roleOf family d ↔ other = family := by
  simp [FollowsIn, h]

/-- A directive that neither joins nor closes the open group only changes the depth. -/
theorem membersFrom_cons_of_passes {depth : Nat}
    (h : FollowsIn roleOf family d → 0 < depth) :
    membersFrom roleOf family depth (d :: rest) =
      membersFrom roleOf family (depthAfter family depth (roleOf d)) rest := by
  cases hrole : roleOf d with
  | opens other => rw [membersFrom_cons_opens hrole, depthAfter]
  | joins other =>
    rw [membersFrom_cons_joins hrole, if_neg, depthAfter]
    rintro ⟨rfl, rfl⟩
    exact Nat.lt_irrefl 0 (h (.inl hrole))
  | closes other =>
    by_cases hfamily : other = family
    · subst hfamily
      obtain ⟨n, rfl⟩ := Nat.exists_eq_succ_of_ne_zero (Nat.ne_of_gt (h (.inr hrole)))
      rw [membersFrom_succ_cons_closes hrole, depthAfter, if_pos rfl]
      rfl
    · rw [membersFrom_cons_closes_of_ne hrole hfamily, depthAfter, if_neg hfamily]
  | alone => rw [membersFrom_cons_alone hrole, depthAfter]

/-- What a directive does to a group that is open, in which `depth` others have been opened: it
passes the group by, it joins it, or it closes it. -/
theorem membersFrom_cons_cases (roleOf : α → Role) (family : Family) (depth : Nat) (e : α)
    (rest : List α) :
    ((FollowsIn roleOf family e → 0 < depth) ∧
      membersFrom roleOf family depth (e :: rest) =
        membersFrom roleOf family (depthAfter family depth (roleOf e)) rest) ∨
    (depth = 0 ∧ roleOf e = .joins family ∧
      membersFrom roleOf family depth (e :: rest) = e :: membersFrom roleOf family 0 rest) ∨
    (depth = 0 ∧ roleOf e = .closes family ∧
      membersFrom roleOf family depth (e :: rest) = [e]) := by
  rcases Nat.eq_zero_or_pos depth with rfl | hpos
  · by_cases hjoins : roleOf e = .joins family
    · right; left
      refine ⟨rfl, hjoins, ?_⟩
      rw [membersFrom_cons_joins hjoins, if_pos ⟨rfl, rfl⟩]
    by_cases hcloses : roleOf e = .closes family
    · right; right
      exact ⟨rfl, hcloses, membersFrom_zero_cons_closes hcloses⟩
    left
    have hnot : ¬ FollowsIn roleOf family e := not_or.2 ⟨hjoins, hcloses⟩
    exact ⟨fun h => absurd h hnot, membersFrom_cons_of_passes fun h => absurd h hnot⟩
  · exact .inl ⟨fun _ => hpos, membersFrom_cons_of_passes fun _ => hpos⟩

namespace OpenGroup

/-- The groups as they are in the end, when `depth` groups are open in front of them. -/
def finished (roleOf : α → Role) (rest : List α) :
    (Family → Nat) → List (OpenGroup α) → List (List α)
  | _, [] => []
  -- the groups stand latest first, so those that are passed on the way back were opened later
  | depth, g :: groups =>
    (g.members.reverse ++ (g.openIn.map fun family =>
        membersFrom roleOf family (depth family) rest).getD []) ::
      finished roleOf rest (fun family => depth family + if g.openIn = some family then 1 else 0)
        groups

variable {groups : List (OpenGroup α)} {depth : Family → Nat}

theorem finished_nil (roleOf : α → Role) (depth : Family → Nat) (groups : List (OpenGroup α)) :
    finished roleOf [] depth groups = groups.map (·.members.reverse) := by
  induction groups generalizing depth with
  | nil => rfl
  | cons g groups ih =>
    rw [finished, List.map_cons, ih]
    cases g.openIn <;> simp [membersFrom]

theorem finished_append (front back : List (OpenGroup α)) :
    finished roleOf rest depth (front ++ back) = finished roleOf rest depth front ++
      finished roleOf rest (fun family => depth family + openCount family front) back := by
  induction front generalizing depth with
  | nil => rfl
  | cons g front ih =>
    have hdepth : (fun family => depth family + (if g.openIn = some family then 1 else 0) +
        openCount family front) = fun family => depth family + openCount family (g :: front) := by
      funext family
      rw [openCount_cons]
      omega
    rw [List.cons_append, finished, finished, ih, hdepth, List.cons_append]

/-- A directive that joins or closes none of the groups only changes the depths. -/
theorem finished_cons
    (h : ∀ family, FollowsIn roleOf family d →
      0 < depth family ∨ ∀ g ∈ groups, g.openIn ≠ some family) :
    finished roleOf (d :: rest) depth groups =
      finished roleOf rest (fun family => depthAfter family (depth family) (roleOf d)) groups := by
  induction groups generalizing depth with
  | nil => rfl
  | cons g groups ih =>
    rw [finished, finished, ih]
    · congr 1
      · -- the first group passes the directive by, if it is open
        cases hopen : g.openIn with
        | none => rfl
        | some family =>
          have hpasses : FollowsIn roleOf family d → 0 < depth family :=
            fun hrole => (h family hrole).resolve_right fun hnone =>
              hnone g List.mem_cons_self hopen
          simp only [Option.map_some, membersFrom_cons_of_passes hpasses]
      · -- counting the group and counting the directive commute
        congr 1
        funext family
        cases hrole : roleOf d with
        | opens other =>
          simp only [depthAfter]
          split <;> omega
        | joins other => rfl
        | closes other =>
          simp only [depthAfter]
          split
          · next hfamily =>
            subst hfamily
            rcases h other (.inr hrole) with hpos | hnone
            · omega
            · rw [if_neg (hnone g List.mem_cons_self)]
              rfl
          · rfl
        | alone => rfl
    · intro family hrole
      rcases h family hrole with hpos | hnone
      · exact .inl (Nat.lt_of_lt_of_le hpos (Nat.le_add_right _ _))
      · exact .inr fun g' hg' => hnone g' (List.mem_cons_of_mem g hg')

/-- How many groups are open behind a directive. -/
theorem openCount_insert (roleOf : α → Role) (groups : List (OpenGroup α)) (d : α)
    (family : Family) : openCount family (insert roleOf groups d) =
      depthAfter family (openCount family groups) (roleOf d) := by
  cases hrole : roleOf d with
  | opens other =>
    rw [insert_of_opens hrole, openCount_cons, depthAfter]
    by_cases h : other = family <;> simp [h]
  | joins other =>
    rw [insert_of_joins hrole, depthAfter]
    -- a group of its own is not open, and the group that it joins stays open
    rcases place_cases other (some other) d groups with ⟨-, h⟩ | ⟨front, members, back, rfl, h, -⟩
    · rw [h, openCount_cons]
      rfl
    · rw [h, @openCount_extended _ other _ _ _ members _ (.inr rfl)]
      simp
  | closes other =>
    rw [insert_of_closes hrole, depthAfter]
    -- with nothing open the depth stays at zero, which is what the subtraction does there
    rcases place_cases other none d groups with ⟨hnone, h⟩ | ⟨front, members, back, rfl, h, -⟩
    · rw [h, openCount_cons]
      by_cases hfamily : other = family
      · subst hfamily
        simp [openCount_eq_zero_iff.2 hnone]
      · simp [hfamily]
    · rw [h, @openCount_extended _ other _ _ _ members _ (.inl rfl)]
      by_cases hfamily : other = family
      · simp [hfamily]
      · have hne : ¬ family = other := fun heq => hfamily heq.symm
        simp [hfamily, hne]
  | alone =>
    rw [insert_of_alone hrole, openCount_cons, depthAfter]
    rfl

/-- A directive that is placed in an open group leaves the groups what they are in the end. -/
theorem finished_place {openIn : Option Family}
    (hrole : roleOf d = .joins family ∧ openIn = some family ∨
      roleOf d = .closes family ∧ openIn = none)
    {front : List (OpenGroup α)} (members : List α) (back : List (OpenGroup α))
    (hfront : ∀ g ∈ front, g.openIn ≠ some family) :
    finished roleOf rest (fun _ => 0) (front ++ ⟨openIn, d :: members⟩ :: back) =
      finished roleOf (d :: rest) (fun _ => 0) (front ++ ⟨some family, members⟩ :: back) := by
  have hfamily : ∀ other, FollowsIn roleOf other d → family = other := by
    intro other hother
    rcases hrole with ⟨hd, -⟩ | ⟨hd, -⟩
    · exact (followsIn_iff_of_joins hd).1 hother
    · exact (followsIn_iff_of_closes hd).1 hother
  have hzero : openCount family front = 0 := openCount_eq_zero_iff.2 hfront
  rw [finished_append, finished_append]
  congr 1
  · -- in front of the group nothing is open in the family
    rw [finished_cons]
    · congr 1
      funext other
      rcases hrole with ⟨hd, -⟩ | ⟨hd, -⟩ <;> simp [hd, depthAfter]
    · intro other hother
      obtain rfl := hfamily other hother
      exact .inr hfront
  · -- the group takes the directive in, which is no more seen by the groups behind it
    rw [finished, finished, finished_cons]
    · rcases hrole with ⟨hd, rfl⟩ | ⟨hd, rfl⟩
      · congr 1
        · simp [hzero, membersFrom_cons_joins hd]
        · simp [hd, depthAfter]
      · congr 1
        · simp [hzero, membersFrom_zero_cons_closes hd]
        · congr 1
          funext other
          by_cases hother : family = other
          · subst hother
            simp [hd, depthAfter, hzero]
          · simp [hd, depthAfter, hother]
    · intro other hother
      obtain rfl := hfamily other hother
      left
      simp

/-- Taking a directive in starts its group, if it starts one. -/
theorem finished_insert (roleOf : α → Role) (groups : List (OpenGroup α)) (d : α) (rest : List α) :
    finished roleOf rest (fun _ => 0) (insert roleOf groups d) =
      (startedBy roleOf (openCount · groups) d rest).toList ++
        finished roleOf (d :: rest) (fun _ => 0) groups := by
  cases hrole : roleOf d with
  | opens family =>
    rw [insert_of_opens hrole, finished, startedBy, hrole,
      finished_cons (by simp [FollowsIn, hrole]), hrole]
    simp [depthAfter]
  | joins family =>
    rw [insert_of_joins hrole, startedBy, hrole]
    rcases place_cases family (some family) d groups with
      ⟨hnone, h⟩ | ⟨front, members, back, rfl, h, hfront⟩
    · have hpasses : ∀ other, FollowsIn roleOf other d →
          0 < 0 ∨ ∀ g ∈ groups, g.openIn ≠ some other := by
        intro other hother
        obtain rfl := (followsIn_iff_of_joins hrole).1 hother
        exact .inr hnone
      rw [h, finished, finished_cons hpasses, hrole]
      simp [openCount_eq_zero_iff.2 hnone, depthAfter]
    · rw [h, finished_place (.inl ⟨hrole, rfl⟩) members back hfront]
      simp [openCount_append, openCount_cons]
  | closes family =>
    rw [insert_of_closes hrole, startedBy, hrole]
    rcases place_cases family none d groups with
      ⟨hnone, h⟩ | ⟨front, members, back, rfl, h, hfront⟩
    · have hpasses : ∀ other, FollowsIn roleOf other d →
          0 < 0 ∨ ∀ g ∈ groups, g.openIn ≠ some other := by
        intro other hother
        obtain rfl := (followsIn_iff_of_closes hrole).1 hother
        exact .inr hnone
      rw [h, finished, finished_cons hpasses, hrole]
      simp [openCount_eq_zero_iff.2 hnone, depthAfter]
    · rw [h, finished_place (.inr ⟨hrole, rfl⟩) members back hfront]
      simp [openCount_append, openCount_cons]
  | alone =>
    rw [insert_of_alone hrole, finished, startedBy, hrole,
      finished_cons (by simp [FollowsIn, hrole]), hrole]
    simp [depthAfter]

/-- The groups so far as they are in the end, and behind them the groups that are started. -/
theorem foldl_eq_groupsFrom (roleOf : α → Role) (rest : List α) (groups : List (OpenGroup α)) :
    (rest.foldl (insert roleOf) groups).reverse.map (·.members.reverse) =
      (finished roleOf rest (fun _ => 0) groups).reverse ++
        groupsFrom roleOf (openCount · groups) rest := by
  induction rest generalizing groups with
  | nil => rw [finished_nil, groupsFrom, List.append_nil, List.foldl_nil, List.map_reverse]
  | cons d rest ih =>
    have hdepth : (openCount · (insert roleOf groups d)) =
        fun family => depthAfter family (openCount family groups) (roleOf d) := by
      funext family
      exact openCount_insert roleOf groups d family
    rw [List.foldl_cons, ih, finished_insert, hdepth, groupsFrom, List.reverse_append,
      List.append_assoc]
    -- at most one group is started, so reversing it changes nothing
    congr 2
    cases startedBy roleOf (openCount · groups) d rest <;> rfl

end OpenGroup

/-- The groups of a list are those that its directives start, in order. -/
theorem directiveGroups_eq_groupsFrom (roleOf : α → Role) (directives : List α) :
    directiveGroups roleOf directives = groupsFrom roleOf (fun _ => 0) directives :=
  OpenGroup.foldl_eq_groupsFrom roleOf directives []

/-! ## Groups follow the roles -/

theorem membersFrom_map (roleOf : β → Role) (f : α → β) (family : Family) (depth : Nat)
    (directives : List α) : membersFrom roleOf family depth (directives.map f) =
      (membersFrom (roleOf ∘ f) family depth directives).map f := by
  induction directives generalizing depth with
  | nil => rfl
  | cons d rest ih =>
    -- the roles agree, so one equation of `membersFrom` applies to both lists
    have hcomp : (roleOf ∘ f) d = roleOf (f d) := rfl
    cases hrole : roleOf (f d) with
    | opens other =>
      rw [List.map_cons, membersFrom_cons_opens hrole,
        membersFrom_cons_opens (hcomp.trans hrole), ih]
    | joins other =>
      rw [List.map_cons, membersFrom_cons_joins hrole,
        membersFrom_cons_joins (hcomp.trans hrole)]
      split
      · rw [ih, List.map_cons]
      · exact ih depth
    | closes other =>
      rw [List.map_cons]
      by_cases hfamily : other = family
      · subst hfamily
        cases depth with
        | zero =>
          rw [membersFrom_zero_cons_closes hrole,
            membersFrom_zero_cons_closes (hcomp.trans hrole)]
          rfl
        | succ depth =>
          rw [membersFrom_succ_cons_closes hrole,
            membersFrom_succ_cons_closes (hcomp.trans hrole), ih]
      · rw [membersFrom_cons_closes_of_ne hrole hfamily,
          membersFrom_cons_closes_of_ne (hcomp.trans hrole) hfamily, ih]
    | alone =>
      rw [List.map_cons, membersFrom_cons_alone hrole,
        membersFrom_cons_alone (hcomp.trans hrole), ih]

theorem startedBy_map (roleOf : β → Role) (f : α → β) (depth : Family → Nat) (d : α)
    (rest : List α) : startedBy roleOf depth (f d) (rest.map f) =
      (startedBy (roleOf ∘ f) depth d rest).map (List.map f) := by
  unfold startedBy
  rw [Function.comp_apply]
  cases roleOf (f d) with
  | opens family => simp [membersFrom_map]
  | joins family =>
    dsimp only
    split <;> rfl
  | closes family =>
    dsimp only
    split <;> rfl
  | alone => rfl

/-- Directives of the same roles are grouped alike. -/
theorem directiveGroups_map (roleOf : β → Role) (f : α → β) (directives : List α) :
    directiveGroups roleOf (directives.map f) =
      (directiveGroups (roleOf ∘ f) directives).map (List.map f) := by
  have key : ∀ depth, groupsFrom roleOf depth (directives.map f) =
      (groupsFrom (roleOf ∘ f) depth directives).map (List.map f) := by
    induction directives with
    | nil => intro depth; rfl
    | cons d rest ih =>
      intro depth
      rw [List.map_cons, groupsFrom, groupsFrom, startedBy_map, ih, List.map_append,
        Option.toList_map]
      rfl
  rw [directiveGroups_eq_groupsFrom, directiveGroups_eq_groupsFrom, key]

end RegionScope
