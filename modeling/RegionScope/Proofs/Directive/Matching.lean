import RegionScope.Proofs.Directive.GroupMembers

/-!
# Directives that are matched

Among different directives a group is told from the places of its members: the directive that opens
it takes in those that go to a group of its family and up to which the family is balanced
(`TakesIn`). Two directives share a group exactly when the one takes in the other, or when one
directive in front of both takes in both (`share_iff`).
-/

namespace RegionScope

open DirectiveKind (Role Family)
open Brackets (slice)

variable {α : Type} {roleOf : α → Role} {family : Family} {l : List α} {a b c d : α} {i j k : Nat}

/-- The directive at place `i` opens a group of a family, and the one behind it at place `j` goes to
a group of the family, with balanced directives between the two. -/
structure TakesIn (roleOf : α → Role) (family : Family) (l : List α) (i j : Nat) : Prop where
  lt : i < j
  opens : ∃ c, l[i]? = some c ∧ roleOf c = .opens family
  follows : ∃ d, l[j]? = some d ∧ FollowsIn roleOf family d
  balanced : BalancedIn roleOf family (slice l (i + 1) j)

/-- A list goes on behind a place with what is in front of a later place, and with what is there. -/
theorem drop_eq_slice_append (hij : i < j) (hd : l[j]? = some d) :
    l.drop (i + 1) = slice l (i + 1) j ++ d :: l.drop (j + 1) := by
  obtain ⟨hj, rfl⟩ := List.getElem?_eq_some_iff.1 hd
  have hbehind : (l.drop (i + 1)).drop (j - (i + 1)) = l[j] :: l.drop (j + 1) := by
    rw [List.drop_drop, Nat.add_sub_of_le hij, List.drop_eq_getElem_cons hj]
  rw [slice, List.drop_take, ← hbehind, List.take_append_drop]

theorem slice_eq_append (hki : k < i) (hij : i < j) (ha : l[i]? = some a) (hb : l[j]? = some b) :
    slice l (k + 1) j = slice l (k + 1) i ++ a :: slice l (i + 1) j := by
  have hdrop := drop_eq_slice_append hki ha
  rw [drop_eq_slice_append hij hb, drop_eq_slice_append (Nat.lt_trans hki hij) hb,
    ← List.cons_append, ← List.append_assoc] at hdrop
  exact List.append_cancel_right hdrop

/-- What stands in front of a directive behind a place, and the place of the directive. -/
theorem slice_of_drop_eq (hnodup : l.Nodup) (hd : l[j]? = some d) {inside after : List α}
    (hsplit : l.drop (i + 1) = inside ++ d :: after) :
    i < j ∧ inside = slice l (i + 1) j := by
  have hplace : l[i + 1 + inside.length]? = some d := by
    rw [← List.getElem?_drop, hsplit, List.getElem?_append_right (Nat.le_refl _), Nat.sub_self]
    rfl
  obtain rfl : j = i + 1 + inside.length :=
    (List.getElem?_inj (List.getElem?_eq_some_iff.1 hd).1 hnodup).1 (hd.trans hplace.symm)
  refine ⟨by omega, ?_⟩
  rw [slice, List.drop_take, hsplit, Nat.add_sub_cancel_left, List.take_left]

/-- The members of the group that is opened at a place. -/
theorem mem_membersFrom_drop_iff (hnodup : l.Nodup) (hc : l[i]? = some c)
    (hopens : roleOf c = .opens family) (hd : l[j]? = some d) :
    d ∈ membersFrom roleOf family 0 (l.drop (i + 1)) ↔ TakesIn roleOf family l i j := by
  rw [mem_membersFrom_iff]
  constructor
  · rintro ⟨inside, after, hsplit, hfollows, hbalanced⟩
    obtain ⟨hlt, rfl⟩ := slice_of_drop_eq hnodup hd hsplit
    exact ⟨hlt, ⟨c, hc, hopens⟩, ⟨d, hd, hfollows⟩, hbalanced⟩
  · rintro ⟨hlt, -, ⟨d', hd', hfollows⟩, hbalanced⟩
    obtain rfl := Option.some.inj (hd.symm.trans hd')
    exact ⟨_, _, drop_eq_slice_append hlt hd, hfollows, hbalanced⟩

/-- The group that is opened at a place. -/
theorem mem_directiveGroups_of_place (hc : l[i]? = some c) (hopens : roleOf c = .opens family) :
    c :: membersFrom roleOf family 0 (l.drop (i + 1)) ∈ directiveGroups roleOf l := by
  obtain ⟨hi, rfl⟩ := List.getElem?_eq_some_iff.1 hc
  have hgroup : l[i] :: membersFrom roleOf family 0 (l.drop (i + 1)) ∈
      directiveGroups roleOf (l.take i ++ l[i] :: l.drop (i + 1)) :=
    mem_directiveGroups_of_opens hopens
  rwa [← List.drop_eq_getElem_cons hi, List.take_append_drop] at hgroup

/-- A group has a place from which all its members at other places are taken in. -/
theorem exists_takesIn_of_mem_directiveGroups (hnodup : l.Nodup) {g : List α}
    (hg : g ∈ directiveGroups roleOf l) :
    ∃ family k, ∀ m e, l[m]? = some e → e ∈ g → m = k ∨ TakesIn roleOf family l k m := by
  obtain ⟨before, c, rest, rfl, hgroup⟩ := exists_of_mem_directiveGroups hg
  have hc : (before ++ c :: rest)[before.length]? = some c := by simp
  have hrest : (before ++ c :: rest).drop (before.length + 1) = rest := by simp
  have hplace : ∀ m, (before ++ c :: rest)[m]? = some c → m = before.length := fun m hm =>
    (List.getElem?_inj (List.getElem?_eq_some_iff.1 hm).1 hnodup).1 (hm.trans hc.symm)
  rcases hgroup with rfl | ⟨family, hopens, rfl⟩
  · -- a group of one has no other places, whatever the family
    refine ⟨.region, before.length, fun m e hm he => .inl ?_⟩
    obtain rfl := List.mem_singleton.1 he
    exact hplace m hm
  · refine ⟨family, before.length, fun m e hm he => ?_⟩
    rcases List.mem_cons.1 he with rfl | he
    · exact .inl (hplace m hm)
    · rw [← hrest] at he
      exact .inr ((mem_membersFrom_drop_iff hnodup hc hopens hm).1 he)

/-- Two different directives are in one group when the one takes in the other, or another one takes
in both. -/
theorem share_iff (hnodup : l.Nodup) (hij : i < j) (ha : l[i]? = some a) (hb : l[j]? = some b) :
    (∃ g ∈ directiveGroups roleOf l, a ∈ g ∧ b ∈ g) ↔
      ∃ family, TakesIn roleOf family l i j ∨
        ∃ k, TakesIn roleOf family l k i ∧ TakesIn roleOf family l k j := by
  constructor
  · rintro ⟨g, hg, hag, hbg⟩
    obtain ⟨family, k, hmembers⟩ := exists_takesIn_of_mem_directiveGroups hnodup hg
    refine ⟨family, ?_⟩
    -- the later one is not the one that opens the group, as nothing in front of it is taken in
    rcases hmembers i a ha hag with rfl | hi <;> rcases hmembers j b hb hbg with rfl | hj
    · exact absurd hij (Nat.lt_irrefl _)
    · exact .inl hj
    · exact absurd hi.lt (Nat.lt_asymm hij)
    · exact .inr ⟨k, hi, hj⟩
  · rintro ⟨family, htakes | ⟨k, hi, hj⟩⟩
    · obtain ⟨c, hc, hopens⟩ := htakes.opens
      obtain rfl := Option.some.inj (ha.symm.trans hc)
      exact ⟨_, mem_directiveGroups_of_place ha hopens, List.mem_cons_self,
        List.mem_cons_of_mem _ ((mem_membersFrom_drop_iff hnodup ha hopens hb).2 htakes)⟩
    · obtain ⟨c, hc, hopens⟩ := hi.opens
      exact ⟨_, mem_directiveGroups_of_place hc hopens,
        List.mem_cons_of_mem _ ((mem_membersFrom_drop_iff hnodup hc hopens ha).2 hi),
        List.mem_cons_of_mem _ ((mem_membersFrom_drop_iff hnodup hc hopens hb).2 hj)⟩

/-- What a directive that opens is in one group with, among those behind it, is what it takes in. -/
theorem share_iff_takesIn (hnodup : l.Nodup) (hij : i < j) (ha : l[i]? = some a)
    (hb : l[j]? = some b) (hopens : roleOf a = .opens family) :
    (∃ g ∈ directiveGroups roleOf l, a ∈ g ∧ b ∈ g) ↔ TakesIn roleOf family l i j := by
  rw [share_iff hnodup hij ha hb]
  constructor
  · rintro ⟨other, htakes | ⟨k, hi, -⟩⟩
    · obtain ⟨c, hc, hother⟩ := htakes.opens
      obtain rfl := Option.some.inj (ha.symm.trans hc)
      obtain rfl : family = other := Role.opens.inj (hopens.symm.trans hother)
      exact htakes
    · -- no directive takes in one that opens
      obtain ⟨d, hd, hfollows⟩ := hi.follows
      obtain rfl := Option.some.inj (ha.symm.trans hd)
      simp [FollowsIn, hopens] at hfollows
  · exact fun htakes => ⟨family, .inl htakes⟩

/-- Behind a directive that closes a group nothing more is taken in. -/
theorem TakesIn.roleOf_eq_joins (hi : TakesIn roleOf family l k i)
    (hj : TakesIn roleOf family l k j) (hij : i < j) (ha : l[i]? = some a) :
    roleOf a = .joins family := by
  obtain ⟨d, hd, hfollows⟩ := hi.follows
  obtain rfl := Option.some.inj (ha.symm.trans hd)
  refine hfollows.resolve_right ?_
  intro hcloses
  -- up to the first of the two all is balanced, so with it one more is closed than opened
  obtain ⟨b, hb, -⟩ := hj.follows
  have hfront : 0 ≤ ((0 : Nat) : Int) + surplus roleOf family (slice l (k + 1) i ++ [a]) := by
    refine hj.balanced.2 _ (slice l (i + 1) j) ?_
    rw [slice_eq_append hi.lt hij ha hb, List.append_assoc, List.singleton_append]
  have hzero : ((0 : Nat) : Int) + surplus roleOf family (slice l (k + 1) i) = 0 := hi.balanced.1
  have hweight : surplus roleOf family [a] = -1 := by
    rw [surplus_singleton, hcloses]
    exact if_pos rfl
  rw [surplus_append] at hfront
  omega

end RegionScope
