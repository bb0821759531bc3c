import RegionScope.Proofs.Directive.Unpaired

/-!
# Members of groups

Behind the directive that opens a group, its members are the directives of its family that join or
close it and in front of which the family is balanced (`mem_membersFrom_iff`). They stand in the
order of the list, and only the last one may close (`exists_membersFrom_eq`). Every other directive
is a group of its own (`exists_of_mem_directiveGroups`).

No more than that is needed to know a group from the list alone: its members are a part of the list
in its order (`sublist_of_mem_directiveGroups`), the first members of all groups are one too
(`filterMap_head?_directiveGroups_sublist`), and the groups of one family are those of the
directives of that family (`directiveGroups_filter`).
-/

namespace RegionScope

open DirectiveKind (Role Family)
open Brackets (BalancedFrom)

variable {α : Type} {roleOf : α → Role} {family other : Family} {d e : α} {g l rest : List α}
  {depth : Nat}

/-! ## What an open group takes in -/

/-- Directive `d` of a list finds a group innermost open that is open in front of the list, with
`depth` others open in it: it goes to a group of the family, and the directives in front of it are
balanced. -/
def TakenIn (roleOf : α → Role) (family : Family) (depth : Nat) (l : List α) (d : α) : Prop :=
  ∃ inside after, l = inside ++ d :: after ∧ FollowsIn roleOf family d ∧
    BalancedFrom (opensIn roleOf family) (closesIn roleOf family) depth inside

theorem takenIn_cons_iff : TakenIn roleOf family depth (e :: rest) d ↔
    (d = e ∧ depth = 0 ∧ FollowsIn roleOf family d) ∨
      ∃ inside after, rest = inside ++ d :: after ∧ FollowsIn roleOf family d ∧
        BalancedFrom (opensIn roleOf family) (closesIn roleOf family) depth (e :: inside) := by
  constructor
  · rintro ⟨inside, after, hsplit, hfollows, hbalanced⟩
    cases inside with
    | nil =>
      obtain ⟨rfl, -⟩ := List.cons.inj hsplit
      exact .inl ⟨rfl, Brackets.balancedFrom_nil_iff.1 hbalanced, hfollows⟩
    | cons c inside =>
      rw [List.cons_append] at hsplit
      obtain ⟨rfl, hrest⟩ := List.cons.inj hsplit
      exact .inr ⟨inside, after, hrest, hfollows, hbalanced⟩
  · rintro (⟨rfl, hdepth, hfollows⟩ | ⟨inside, after, rfl, hfollows, hbalanced⟩)
    · exact ⟨[], rest, rfl, hfollows, Brackets.balancedFrom_nil_iff.2 hdepth⟩
    · exact ⟨e :: inside, after, rfl, hfollows, hbalanced⟩

/-- Behind a directive that passes the group by the depth is another. -/
theorem takenIn_cons_of_passes (h : FollowsIn roleOf family e → 0 < depth) :
    TakenIn roleOf family depth (e :: rest) d ↔
      TakenIn roleOf family (depthAfter family depth (roleOf e)) rest d := by
  have hnext : (depthAfter family depth (roleOf e) : Int) = depth +
      if opensIn roleOf family e then 1 else if closesIn roleOf family e then -1 else 0 := by
    rw [depthAfter_eq_add fun hrole => h (.inr hrole), weight_eq]
  rw [takenIn_cons_iff]
  constructor
  · rintro (⟨rfl, rfl, hfollows⟩ | ⟨inside, after, hrest, hfollows, hbalanced⟩)
    · exact absurd (h hfollows) (Nat.lt_irrefl 0)
    · exact ⟨inside, after, hrest, hfollows, (Brackets.balancedFrom_cons_iff hnext).1 hbalanced⟩
  · rintro ⟨inside, after, hrest, hfollows, hbalanced⟩
    exact .inr ⟨inside, after, hrest, hfollows, (Brackets.balancedFrom_cons_iff hnext).2 hbalanced⟩

/-- A group takes in what finds it innermost open. -/
theorem mem_membersFrom_iff :
    d ∈ membersFrom roleOf family depth l ↔ TakenIn roleOf family depth l d := by
  induction l generalizing depth with
  | nil => simp [membersFrom, TakenIn]
  | cons e rest ih =>
    rcases membersFrom_cons_cases roleOf family depth e rest with
      ⟨hpasses, h⟩ | ⟨rfl, hjoins, h⟩ | ⟨rfl, hcloses, h⟩
    · rw [h, ih, takenIn_cons_of_passes hpasses]
    · have hnext : ((0 : Nat) : Int) = (0 : Nat) +
          if opensIn roleOf family e then 1 else if closesIn roleOf family e then -1 else 0 := by
        simp [opensIn, closesIn, hjoins]
      rw [h, List.mem_cons, ih, takenIn_cons_iff]
      apply or_congr
      · exact ⟨fun heq => ⟨heq, rfl, .inl (heq ▸ hjoins)⟩, fun h => h.1⟩
      · simp only [TakenIn, Brackets.balancedFrom_cons_iff hnext]
    · -- nothing behind the directive that closes is balanced
      rw [h, List.mem_singleton, takenIn_cons_iff]
      constructor
      · exact fun heq => .inl ⟨heq, rfl, .inr (heq ▸ hcloses)⟩
      · rintro (⟨heq, -⟩ | ⟨inside, after, -, -, hbalanced⟩)
        · exact heq
        · exact absurd hbalanced (Brackets.not_balancedFrom_zero_cons (by simp [opensIn, hcloses])
            (by simp [closesIn, hcloses]))

/-- Behind the directive that opens a group come directives that join it, and then one that closes
it, if it is closed. -/
theorem exists_membersFrom_eq (roleOf : α → Role) (family : Family) (depth : Nat) (l : List α) :
    ∃ (branches : List α) (last : Option α),
      membersFrom roleOf family depth l = branches ++ last.toList ∧
        (∀ b ∈ branches, roleOf b = .joins family) ∧ ∀ e ∈ last, roleOf e = .closes family := by
  induction l generalizing depth with
  | nil => exact ⟨[], none, rfl, by simp, by simp⟩
  | cons e rest ih =>
    rcases membersFrom_cons_cases roleOf family depth e rest with
      ⟨-, h⟩ | ⟨-, hjoins, h⟩ | ⟨-, hcloses, h⟩
    · rw [h]
      exact ih _
    · obtain ⟨branches, last, hrest, hbranches, hlast⟩ := ih 0
      refine ⟨e :: branches, last, ?_, List.forall_mem_cons.2 ⟨hjoins, hbranches⟩, hlast⟩
      rw [h, hrest, List.cons_append]
    · refine ⟨[], some e, h, by simp, ?_⟩
      rintro _ ⟨⟩
      exact hcloses

theorem membersFrom_sublist (roleOf : α → Role) (family : Family) (depth : Nat) (l : List α) :
    (membersFrom roleOf family depth l).Sublist l := by
  induction l generalizing depth with
  | nil => exact List.Sublist.slnil
  | cons e rest ih =>
    rcases membersFrom_cons_cases roleOf family depth e rest with ⟨-, h⟩ | ⟨-, -, h⟩ | ⟨-, -, h⟩
    · rw [h]
      exact (ih _).cons e
    · rw [h]
      exact (ih 0).cons_cons e
    · rw [h]
      exact (List.nil_sublist rest).cons_cons e

/-! ## Groups and what starts them -/

theorem eq_of_startedBy {depths : Family → Nat} (h : startedBy roleOf depths d rest = some g) :
    g = [d] ∨ ∃ family, roleOf d = .opens family ∧ g = d :: membersFrom roleOf family 0 rest := by
  unfold startedBy at h
  split at h
  · next family hrole => exact .inr ⟨family, hrole, (Option.some.inj h).symm⟩
  · obtain ⟨-, h⟩ := Option.ite_none_right_eq_some.1 h
    exact .inl (Option.some.inj h).symm
  · obtain ⟨-, h⟩ := Option.ite_none_right_eq_some.1 h
    exact .inl (Option.some.inj h).symm
  · exact .inl (Option.some.inj h).symm

/-- A group is a single directive, or one that opens with what its group takes in. -/
theorem exists_of_mem_directiveGroups (h : g ∈ directiveGroups roleOf l) :
    ∃ before d rest, l = before ++ d :: rest ∧
      (g = [d] ∨
        ∃ family, roleOf d = .opens family ∧ g = d :: membersFrom roleOf family 0 rest) := by
  rw [directiveGroups_eq_groupsFrom] at h
  generalize (fun _ : Family => 0) = depths at h
  induction l generalizing depths with
  | nil => cases h
  | cons e l ih =>
    rw [groupsFrom, List.mem_append, Option.mem_toList] at h
    rcases h with h | h
    · exact ⟨[], e, l, rfl, eq_of_startedBy h⟩
    · obtain ⟨before, d, rest, rfl, hg⟩ := ih _ h
      exact ⟨e :: before, d, rest, rfl, hg⟩

/-- The members of a group are in the order of the list. -/
theorem sublist_of_mem_directiveGroups (h : g ∈ directiveGroups roleOf l) : g.Sublist l := by
  obtain ⟨before, d, rest, rfl, hg⟩ := exists_of_mem_directiveGroups h
  refine List.Sublist.trans ?_ (List.sublist_append_right before (d :: rest))
  rcases hg with rfl | ⟨family, -, rfl⟩
  · exact (List.nil_sublist rest).cons_cons d
  · exact (membersFrom_sublist roleOf family 0 rest).cons_cons d

theorem head?_of_startedBy {depths : Family → Nat} (h : startedBy roleOf depths d rest = some g) :
    g.head? = some d := by
  rcases eq_of_startedBy h with rfl | ⟨family, -, rfl⟩ <;> rfl

/-- The groups are in the order of their first members in the list. -/
theorem filterMap_head?_directiveGroups_sublist (roleOf : α → Role) (l : List α) :
    ((directiveGroups roleOf l).filterMap List.head?).Sublist l := by
  rw [directiveGroups_eq_groupsFrom]
  generalize (fun _ : Family => 0) = depths
  induction l generalizing depths with
  | nil => exact List.Sublist.slnil
  | cons e l ih =>
    rw [groupsFrom, List.filterMap_append]
    cases h : startedBy roleOf depths e l with
    | none => exact (ih _).cons e
    | some g =>
      rw [Option.toList_some, List.filterMap_cons_some (head?_of_startedBy h)]
      exact (ih _).cons_cons e

/-- What is told only of directives that open groups is told group by group. -/
theorem filterMap_bind_head?_directiveGroups {β : Type} {f : α → Option β}
    (hf : ∀ d, f d ≠ none → ∃ family, roleOf d = .opens family) (l : List α) :
    (directiveGroups roleOf l).filterMap (fun g => g.head?.bind f) = l.filterMap f := by
  rw [directiveGroups_eq_groupsFrom]
  generalize (fun _ : Family => 0) = depths
  induction l generalizing depths with
  | nil => rfl
  | cons e l ih =>
    rw [groupsFrom, List.filterMap_append, ih]
    cases he : f e with
    | none =>
      rw [List.filterMap_cons_none he]
      cases h : startedBy roleOf depths e l with
      | none => rfl
      | some g => simp [head?_of_startedBy h, he]
    | some b =>
      obtain ⟨family, hopens⟩ := hf e (by rw [he]; exact Option.some_ne_none b)
      rw [List.filterMap_cons_some he, startedBy, hopens]
      simp [he]

/-! ## The groups of one family -/

/-- The family that a directive belongs to. -/
def Role.family? : Role → Option Family
  | .opens family | .joins family | .closes family => some family
  | .alone => none

/-- Whether a directive belongs to a family. -/
def inFamily (roleOf : α → Role) (family : Family) (d : α) : Bool :=
  decide (Role.family? (roleOf d) = some family)

theorem inFamily_of_followsIn (h : FollowsIn roleOf family d) :
    inFamily roleOf family d = true := by
  rcases h with h | h <;> rw [inFamily, h] <;> exact decide_eq_true rfl

theorem depthAfter_of_not_inFamily (h : inFamily roleOf family d = false) :
    depthAfter family depth (roleOf d) = depth := by
  have hne := of_decide_eq_false h
  cases hrole : roleOf d with
  | opens other =>
    rw [hrole] at hne
    exact if_neg fun heq => hne (congrArg some heq)
  | closes other =>
    rw [hrole] at hne
    exact if_neg fun heq => hne (congrArg some heq)
  | joins other => rfl
  | alone => rfl

theorem membersFrom_filter (roleOf : α → Role) (family : Family) (depth : Nat) (l : List α) :
    membersFrom roleOf family depth (l.filter (inFamily roleOf family)) =
      membersFrom roleOf family depth l := by
  induction l generalizing depth with
  | nil => rfl
  | cons e rest ih =>
    cases he : inFamily roleOf family e with
    | true =>
      rw [List.filter_cons_of_pos he]
      simp only [membersFrom, ih]
    | false =>
      have hnot : ¬ inFamily roleOf family e = true := Bool.eq_false_iff.1 he
      have hpasses : FollowsIn roleOf family e → 0 < depth :=
        fun h => absurd (inFamily_of_followsIn h) hnot
      rw [List.filter_cons_of_neg hnot, ih, membersFrom_cons_of_passes hpasses,
        depthAfter_of_not_inFamily he]

/-- A directive starts the same group when the other families are left out. -/
theorem startedBy_filter {depths depths' : Family → Nat} (hd : inFamily roleOf family d = true)
    (hdepth : depths family = depths' family) (rest : List α) :
    startedBy roleOf depths d (rest.filter (inFamily roleOf family)) =
      startedBy roleOf depths' d rest := by
  have hfamily := of_decide_eq_true hd
  cases hrole : roleOf d with
  | opens other =>
    rw [hrole] at hfamily
    obtain rfl := Option.some.inj hfamily
    simp only [startedBy, hrole, membersFrom_filter]
  | joins other =>
    rw [hrole] at hfamily
    obtain rfl := Option.some.inj hfamily
    simp only [startedBy, hrole, hdepth]
  | closes other =>
    rw [hrole] at hfamily
    obtain rfl := Option.some.inj hfamily
    simp only [startedBy, hrole, hdepth]
  | alone => simp only [startedBy, hrole]

/-- All members of a group belong to the family of the directive that starts it. -/
theorem any_inFamily_of_startedBy {depths : Family → Nat}
    (h : startedBy roleOf depths d rest = some g) (family : Family) :
    g.any (inFamily roleOf family) = inFamily roleOf family d := by
  have hmembers : ∀ e ∈ g, inFamily roleOf family e = inFamily roleOf family d := by
    intro e he
    rcases eq_of_startedBy h with rfl | ⟨other, hopens, rfl⟩
    · rw [List.mem_singleton.1 he]
    · rcases List.mem_cons.1 he with rfl | he
      · rfl
      · obtain ⟨inside, after, -, hfollows, -⟩ := mem_membersFrom_iff.1 he
        rw [inFamily, inFamily, hopens]
        rcases hfollows with h | h <;> rw [h] <;> rfl
  have hd : d ∈ g := List.mem_of_mem_head? (head?_of_startedBy h)
  rw [Bool.eq_iff_iff, List.any_eq_true]
  constructor
  · rintro ⟨e, he, hfamily⟩
    rwa [hmembers e he] at hfamily
  · exact fun hfamily => ⟨d, hd, hfamily⟩

theorem filter_startedBy (roleOf : α → Role) (depths : Family → Nat) (d : α) (rest : List α)
    (family : Family) :
    (startedBy roleOf depths d rest).toList.filter (·.any (inFamily roleOf family)) =
      if inFamily roleOf family d then (startedBy roleOf depths d rest).toList else [] := by
  cases h : startedBy roleOf depths d rest with
  | none => simp
  | some g =>
    rw [Option.toList_some, List.filter_singleton, any_inFamily_of_startedBy h, Bool.cond_eq_ite]

/-- The groups of the directives of one family are the groups of that family among those of all
directives. -/
theorem directiveGroups_filter (roleOf : α → Role) (family : Family) (l : List α) :
    directiveGroups roleOf (l.filter (inFamily roleOf family)) =
      (directiveGroups roleOf l).filter (·.any (inFamily roleOf family)) := by
  -- for any depths that agree in the family, as the others are counted on one side only
  have key : ∀ depths depths' : Family → Nat, depths family = depths' family →
      groupsFrom roleOf depths (l.filter (inFamily roleOf family)) =
        (groupsFrom roleOf depths' l).filter (·.any (inFamily roleOf family)) := by
    induction l with
    | nil => intro depths depths' _; rfl
    | cons d rest ih =>
      intro depths depths' hdepth
      cases hd : inFamily roleOf family d with
      | true =>
        rw [List.filter_cons_of_pos hd, groupsFrom, groupsFrom, List.filter_append,
          filter_startedBy, if_pos hd, startedBy_filter hd hdepth]
        congr 1
        exact ih _ _ (congrArg (depthAfter family · (roleOf d)) hdepth)
      | false =>
        have hnot : ¬ inFamily roleOf family d = true := Bool.eq_false_iff.1 hd
        rw [List.filter_cons_of_neg hnot, groupsFrom, List.filter_append, filter_startedBy,
          if_neg hnot, List.nil_append]
        exact ih _ _ (hdepth.trans (depthAfter_of_not_inFamily hd).symm)
  rw [directiveGroups_eq_groupsFrom, directiveGroups_eq_groupsFrom]
  exact key _ _ rfl

end RegionScope
