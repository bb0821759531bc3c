import RegionScope.Proofs.Directive.GroupOrder
import RegionScope.Proofs.Segments
import Mathlib.Data.List.Induction

/-!
# Directives without a partner

A directive that opens is without a partner when in every segment from it on the openings of its
family outnumber the closings; one that closes, when in every segment up to it the closings
outnumber the openings; one that joins, when in no segment in front of it the openings outnumber
the closings (`Unpaired`). These are counts over all segments. The groups know only how many of
them are open (`depthBehind_le_iff`) and which member comes last
(`closes_getLastD_membersFrom_iff`).

No directive is without a partner exactly when both families are balanced and every directive that
joins stands where something is open (`forall_not_unpaired_iff`).
-/

namespace RegionScope

open DirectiveKind (Role Family)
open Brackets (slice excess BalancedFrom)

variable {α : Type}

/-- Whether a directive opens a group of a family. -/
def opensIn (roleOf : α → Role) (family : Family) (d : α) : Bool :=
  decide (roleOf d = .opens family)

/-- Whether a directive closes a group of a family. -/
def closesIn (roleOf : α → Role) (family : Family) (d : α) : Bool :=
  decide (roleOf d = .closes family)

/-- By how much the directives that open in a family outnumber those that close in it. -/
def surplus (roleOf : α → Role) (family : Family) (l : List α) : Int :=
  excess (opensIn roleOf family) (closesIn roleOf family) l

/-- Whether the directives of a family are balanced: as many close as open, and at no place more
have been closed than opened. -/
def BalancedIn (roleOf : α → Role) (family : Family) (l : List α) : Prop :=
  BalancedFrom (opensIn roleOf family) (closesIn roleOf family) 0 l

/-- Whether a directive of a role at place `k` has no partner in the list. -/
def UnpairedAs (roleOf : α → Role) (l : List α) (k : Nat) : Role → Prop
  | .opens family => ∀ j ≤ l.length, k < j → 0 < surplus roleOf family (slice l k j)
  | .closes family => ∀ i ≤ k, surplus roleOf family (slice l i (k + 1)) < 0
  | .joins family => ∀ i ≤ k, ¬ 0 < surplus roleOf family (slice l i k)
  | .alone => False

/-- Whether the directive at place `k` has no partner. -/
def Unpaired (roleOf : α → Role) (l : List α) (k : Nat) : Prop :=
  ∃ d ∈ l[k]?, UnpairedAs roleOf l k (roleOf d)

instance (roleOf : α → Role) (family : Family) (l : List α) :
    Decidable (BalancedIn roleOf family l) :=
  inferInstanceAs (Decidable (BalancedFrom _ _ 0 l))

instance (roleOf : α → Role) (l : List α) (k : Nat) (role : Role) :
    Decidable (UnpairedAs roleOf l k role) :=
  match role with
  | .opens family =>
    inferInstanceAs (Decidable (∀ j ≤ l.length, k < j → 0 < surplus roleOf family (slice l k j)))
  | .closes family =>
    inferInstanceAs (Decidable (∀ i ≤ k, surplus roleOf family (slice l i (k + 1)) < 0))
  | .joins family =>
    inferInstanceAs (Decidable (∀ i ≤ k, ¬ 0 < surplus roleOf family (slice l i k)))
  | .alone => inferInstanceAs (Decidable False)

instance (roleOf : α → Role) (l : List α) (k : Nat) : Decidable (Unpaired roleOf l k) :=
  inferInstanceAs (Decidable (∃ d ∈ l[k]?, UnpairedAs roleOf l k (roleOf d)))

variable {roleOf : α → Role} {family : Family} {d : α} {rest : List α}

theorem surplus_nil : surplus roleOf family [] = 0 := rfl

theorem surplus_append (front back : List α) : surplus roleOf family (front ++ back) =
    surplus roleOf family front + surplus roleOf family back := Brackets.excess_append front back

/-- What one directive adds to the surplus of its family. -/
def Role.weight (family : Family) : Role → Int
  | .opens other => if other = family then 1 else 0
  | .closes other => if other = family then -1 else 0
  | .joins _ | .alone => 0

theorem Role.weight_le (family : Family) (role : Role) : Role.weight family role ≤ 1 := by
  unfold Role.weight
  split
  · split <;> omega
  · split <;> omega
  · omega
  · omega

theorem weight_eq (roleOf : α → Role) (family : Family) (d : α) :
    Role.weight family (roleOf d) =
      if opensIn roleOf family d then 1 else if closesIn roleOf family d then -1 else 0 := by
  cases hrole : roleOf d <;> simp [opensIn, closesIn, Role.weight, hrole]

theorem surplus_cons : surplus roleOf family (d :: rest) =
    Role.weight family (roleOf d) + surplus roleOf family rest := by
  rw [surplus, Brackets.excess_cons, Int.add_comm, surplus, weight_eq]

theorem surplus_singleton : surplus roleOf family [d] = Role.weight family (roleOf d) := by
  rw [surplus_cons, surplus_nil, Int.add_zero]

/-! ## How many groups are open -/

/-- How many groups of a family are open behind a list. -/
def depthBehind (roleOf : α → Role) (family : Family) (l : List α) : Nat :=
  l.foldl (fun depth d => depthAfter family depth (roleOf d)) 0

theorem depthBehind_concat (l : List α) (d : α) : depthBehind roleOf family (l ++ [d]) =
    depthAfter family (depthBehind roleOf family l) (roleOf d) := by
  rw [depthBehind, List.foldl_append]
  rfl

/-- A closing directive takes one away, but not below zero. -/
theorem depthAfter_le_iff (role : Role) (depth n : Nat) :
    depthAfter family depth role ≤ n ↔ (depth : Int) + Role.weight family role ≤ n := by
  cases role with
  | opens other =>
    simp only [depthAfter, Role.weight]
    split <;> omega
  | closes other =>
    simp only [depthAfter, Role.weight]
    split <;> omega
  | joins other =>
    simp only [depthAfter, Role.weight]
    omega
  | alone =>
    simp only [depthAfter, Role.weight]
    omega

/-- Unless it closes with nothing open, a directive changes the depth by what it weighs. -/
theorem depthAfter_eq_add {role : Role} {depth : Nat} (h : role = .closes family → 0 < depth) :
    (depthAfter family depth role : Int) = depth + Role.weight family role := by
  cases role with
  | opens other =>
    simp only [depthAfter, Role.weight]
    split <;> omega
  | closes other =>
    simp only [depthAfter, Role.weight]
    split
    · next hother =>
      have := h (hother ▸ rfl)
      omega
    · omega
  | joins other => simp [depthAfter, Role.weight]
  | alone => simp [depthAfter, Role.weight]

/-- As many groups are open behind a list as the greatest surplus of a part at its end. -/
theorem depthBehind_le_iff (roleOf : α → Role) (family : Family) (l : List α) (n : Nat) :
    depthBehind roleOf family l ≤ n ↔ ∀ tail, tail <:+ l → surplus roleOf family tail ≤ n := by
  -- from the end of the list, where the last directive acts on what is open in front of it
  induction l using List.reverseRecOn generalizing n with
  | nil =>
    constructor
    · intro _ tail htail
      rw [List.suffix_nil.1 htail, surplus_nil]
      omega
    · intro _
      exact Nat.zero_le n
  | append_singleton l d ih =>
    rw [depthBehind_concat, depthAfter_le_iff]
    -- the parts at the end are the empty one and those that end with the last directive
    have hparts : (∀ tail, tail <:+ l ++ [d] → surplus roleOf family tail ≤ n) ↔
        ∀ tail, tail <:+ l → surplus roleOf family tail + Role.weight family (roleOf d) ≤ n := by
      constructor
      · intro h tail htail
        have := h (tail ++ [d]) (List.suffix_concat_iff.2 (.inr ⟨tail, rfl, htail⟩))
        rwa [surplus_append, surplus_singleton] at this
      · intro h tail htail
        rcases List.suffix_concat_iff.1 htail with rfl | ⟨part, rfl, hpart⟩
        · rw [surplus_nil]
          omega
        · rw [surplus_append, surplus_singleton]
          exact h part hpart
    rw [hparts]
    have hweight := Role.weight_le family (roleOf d)
    constructor
    · intro h tail htail
      -- the depth in front bounds every surplus there, and leaves room for the last directive
      have := (ih (depthBehind roleOf family l)).1 (Nat.le_refl _) tail htail
      omega
    · intro h
      have hnil := h [] (List.nil_suffix)
      rw [surplus_nil] at hnil
      have hle : depthBehind roleOf family l ≤ (n - Role.weight family (roleOf d)).toNat := by
        refine (ih _).2 ?_
        intro tail htail
        have := h tail htail
        omega
      omega

/-! ## Whether a group is closed -/

/-- The last member of a group closes it exactly when the part of the list behind the group begins
with more closings than openings. -/
theorem closes_getLastD_membersFrom_iff (depth : Nat) (hd : roleOf d ≠ .closes family) :
    roleOf ((membersFrom roleOf family depth rest).getLastD d) = .closes family ↔
      ∃ front, front <+: rest ∧ depth + surplus roleOf family front < 0 := by
  -- for all depths and all members so far, as both change from directive to directive
  induction rest generalizing depth d with
  | nil =>
    rw [membersFrom, List.getLastD_nil]
    constructor
    · intro h
      exact absurd h hd
    · rintro ⟨front, hfront, hneg⟩
      rw [List.prefix_nil.1 hfront, surplus_nil] at hneg
      omega
  | cons e rest ih =>
    -- the parts at the front are the empty one and those that begin with the next directive
    have hparts : (∃ front, front <+: e :: rest ∧ (depth : Int) + surplus roleOf family front < 0) ↔
        ∃ front, front <+: rest ∧
          depth + Role.weight family (roleOf e) + surplus roleOf family front < 0 := by
      constructor
      · rintro ⟨front, hfront, hneg⟩
        rcases List.prefix_cons_iff.1 hfront with rfl | ⟨part, rfl, hpart⟩
        · rw [surplus_nil] at hneg
          omega
        · rw [surplus_cons] at hneg
          exact ⟨part, hpart, by omega⟩
      · rintro ⟨front, hfront, hneg⟩
        refine ⟨e :: front, (List.prefix_cons_inj e).2 hfront, ?_⟩
        rw [surplus_cons]
        omega
    rw [hparts]
    rcases membersFrom_cons_cases roleOf family depth e rest with
      ⟨hpasses, h⟩ | ⟨rfl, hrole, h⟩ | ⟨rfl, hrole, h⟩
    · rw [h, ih _ hd, depthAfter_eq_add fun hrole => hpasses (.inr hrole)]
    · rw [h, List.getLastD_cons, ih 0 (by simp [hrole]), hrole]
      simp [Role.weight]
    · -- the group ends here, with one closing more than openings
      rw [h, List.getLastD_cons, List.getLastD_nil]
      refine iff_of_true hrole ⟨[], List.nil_prefix, ?_⟩
      rw [hrole, surplus_nil]
      simp [Role.weight]

/-! ## Groups by place -/

/-- The group that the directive at place `k` starts, if it starts one. -/
def groupAt (roleOf : α → Role) (l : List α) (k : Nat) : Option (List α) :=
  l[k]?.bind fun d => startedBy roleOf (depthBehind roleOf · (l.take k)) d (l.drop (k + 1))

theorem groupAt_append (before : List α) (d : α) (rest : List α) :
    groupAt roleOf (before ++ d :: rest) before.length =
      startedBy roleOf (depthBehind roleOf · before) d rest := by
  have hdrop : (before ++ d :: rest).drop (before.length + 1) = rest := by
    rw [List.drop_length_add_append]
    rfl
  simp [groupAt, hdrop]

/-- The groups of a list are those that its places start, in order. -/
theorem directiveGroups_eq_filterMap (roleOf : α → Role) (l : List α) :
    directiveGroups roleOf l = (List.range l.length).filterMap (groupAt roleOf l) := by
  -- for any list in front, from which the depths and the places are counted
  have key : ∀ before, groupsFrom roleOf (depthBehind roleOf · before) l =
      (List.range l.length).filterMap fun k =>
        groupAt roleOf (before ++ l) (before.length + k) := by
    induction l with
    | nil => intro before; rfl
    | cons d rest ih =>
      intro before
      have hdepth : (fun family =>
          depthAfter family (depthBehind roleOf family before) (roleOf d)) =
            (depthBehind roleOf · (before ++ [d])) := by
        funext family
        exact (depthBehind_concat before d).symm
      have hrest := ih (before ++ [d])
      rw [groupsFrom, hdepth, hrest, List.length_cons, List.range_succ_eq_map,
        ← groupAt_append before d rest, List.filterMap_cons, List.filterMap_map]
      -- the places behind the first are those of the rest, one further on
      have hplace : ∀ k, before.length + k.succ = (before ++ [d]).length + k := by
        intro k
        rw [List.length_append, List.length_singleton]
        omega
      simp only [Function.comp_def, hplace, List.append_assoc, List.singleton_append,
        Nat.add_zero]
      cases groupAt roleOf (before ++ d :: rest) before.length <;> rfl
  rw [directiveGroups_eq_groupsFrom]
  simpa [depthBehind] using key []

/-! ## Unpaired directives and their groups -/

/-- What holds of all segments from a place on holds of the directive there with every part at the
front of what follows. -/
theorem forall_slice_from_iff (before : List α) (d : α) (rest : List α) (P : List α → Prop) :
    (∀ j ≤ (before ++ d :: rest).length, before.length < j →
        P (slice (before ++ d :: rest) before.length j)) ↔
      ∀ front, front <+: rest → P (d :: front) := by
  have hsegment : ∀ m, slice (before ++ d :: rest) before.length (before.length + (m + 1)) =
      d :: rest.take m := by
    intro m
    rw [slice, List.take_length_add_append, List.take_succ_cons, List.drop_left]
  constructor
  · intro h front hfront
    have hlength := hfront.length_le
    have := h (before.length + (front.length + 1)) (by simp; omega) (by omega)
    rwa [hsegment, ← List.prefix_iff_eq_take.1 hfront] at this
  · intro h j _ hlt
    obtain ⟨m, rfl⟩ : ∃ m, j = before.length + (m + 1) := ⟨j - before.length - 1, by omega⟩
    rw [hsegment]
    exact h _ (List.take_prefix m rest)

/-- What holds of all segments up to a place holds of every part at the end of what is in front. -/
theorem forall_slice_to_iff (before back : List α) (P : List α → Prop) :
    (∀ i ≤ before.length, P (slice (before ++ back) i before.length)) ↔
      ∀ tail, tail <:+ before → P tail := by
  have hsegment : ∀ i, slice (before ++ back) i before.length = before.drop i := by
    intro i
    rw [slice, List.take_left]
  constructor
  · intro h tail htail
    have := h (before.length - tail.length) (Nat.sub_le _ _)
    rwa [hsegment, ← List.suffix_iff_eq_drop.1 htail] at this
  · intro h i _
    rw [hsegment]
    exact h _ (List.drop_suffix i before)

theorem slice_succ {before : List α} {i : Nat} (hi : i ≤ before.length) (d : α)
    (rest : List α) : slice (before ++ d :: rest) i (before.length + 1) =
      slice (before ++ d :: rest) i before.length ++ [d] := by
  have htake : (before ++ d :: rest).take (before.length + 1) = before ++ [d] := by
    rw [List.take_length_add_append]
    rfl
  rw [slice, htake, slice, List.take_left, List.drop_append_of_le_length hi]

theorem unpaired_append_iff {before : List α} :
    Unpaired roleOf (before ++ d :: rest) before.length ↔
      UnpairedAs roleOf (before ++ d :: rest) before.length (roleOf d) := by
  simp [Unpaired]

/-- A directive that opens is unpaired when its group is not closed. -/
theorem unpaired_iff_of_opens {before : List α} (hrole : roleOf d = .opens family) :
    Unpaired roleOf (before ++ d :: rest) before.length ↔
      roleOf ((membersFrom roleOf family 0 rest).getLastD d) ≠ .closes family := by
  rw [unpaired_append_iff, hrole, UnpairedAs,
    forall_slice_from_iff before d rest (fun l => 0 < surplus roleOf family l), ne_eq,
    closes_getLastD_membersFrom_iff 0 (by simp [hrole])]
  simp only [surplus_cons, hrole, Role.weight, if_true, not_exists, not_and]
  refine forall_congr' fun front => imp_congr_right fun _ => ?_
  omega

/-- No group is open behind a list in which no part at the end has a surplus. -/
theorem depthBehind_eq_zero_iff (l : List α) : depthBehind roleOf family l = 0 ↔
    ∀ tail, tail <:+ l → surplus roleOf family tail ≤ 0 := by
  have := depthBehind_le_iff roleOf family l 0
  rwa [Nat.le_zero] at this

/-- A directive that closes is unpaired when no group is open in front of it. -/
theorem unpaired_iff_of_closes {before : List α} (hrole : roleOf d = .closes family) :
    Unpaired roleOf (before ++ d :: rest) before.length ↔ depthBehind roleOf family before = 0 := by
  rw [unpaired_append_iff, hrole, UnpairedAs, depthBehind_eq_zero_iff,
    ← forall_slice_to_iff before (d :: rest) (fun l => surplus roleOf family l ≤ 0)]
  refine forall_congr' fun i => forall_congr' fun hi => ?_
  rw [slice_succ hi, surplus_append, surplus_singleton, hrole, Role.weight, if_pos rfl]
  omega

/-- So is one that joins. -/
theorem unpaired_iff_of_joins {before : List α} (hrole : roleOf d = .joins family) :
    Unpaired roleOf (before ++ d :: rest) before.length ↔ depthBehind roleOf family before = 0 := by
  rw [unpaired_append_iff, hrole, UnpairedAs, depthBehind_eq_zero_iff,
    ← forall_slice_to_iff before (d :: rest) (fun l => surplus roleOf family l ≤ 0)]
  exact forall_congr' fun i => forall_congr' fun _ => Int.not_lt

theorem not_unpaired_of_alone {before : List α} (hrole : roleOf d = .alone) :
    ¬ Unpaired roleOf (before ++ d :: rest) before.length := by
  rw [unpaired_append_iff, hrole]
  exact id

/-- No directive is unpaired exactly when both families are balanced and every directive that joins
stands where more has been opened than closed. -/
theorem forall_not_unpaired_iff (l : List α) : (∀ k, ¬ Unpaired roleOf l k) ↔
    (∀ family, BalancedIn roleOf family l) ∧
      ∀ k d family, l[k]? = some d → roleOf d = .joins family →
        0 < surplus roleOf family (l.take k) := by
  have hunpaired : (∀ k, ¬ Unpaired roleOf l k) ↔
      ∀ k d, l[k]? = some d → ¬ UnpairedAs roleOf l k (roleOf d) := by
    simp only [Unpaired, Option.mem_def, not_exists, not_and]
  have hbalanced : ∀ family, BalancedIn roleOf family l ↔
      (∀ k d, l[k]? = some d → roleOf d = .opens family →
          ¬ UnpairedAs roleOf l k (.opens family)) ∧
        ∀ k d, l[k]? = some d → roleOf d = .closes family →
          ¬ UnpairedAs roleOf l k (.closes family) := by
    intro family
    have hnot : ∀ d, roleOf d = .closes family → opensIn roleOf family d = false := by
      intro d hrole
      simp [opensIn, hrole]
    rw [BalancedIn, Brackets.balancedFrom_zero_iff]
    simp only [UnpairedAs, surplus, opensIn, closesIn, decide_eq_true_eq, decide_eq_false_iff_not,
      not_forall, Int.not_lt, exists_prop]
    refine and_congr_right fun _ => forall_congr' fun k => forall_congr' fun d => ?_
    refine imp_congr_right fun _ => forall_congr' fun hrole => ?_
    simp [hrole]
  rw [hunpaired]
  constructor
  · -- directives that join need the balance of their family: a segment with a surplus gives one to
    -- all that stands in front of the directive only if no height is negative
    intro h
    have hfamilies : ∀ family, BalancedIn roleOf family l := by
      intro family
      refine (hbalanced family).2 ⟨?_, ?_⟩
      · intro k d hd hrole
        exact hrole ▸ h k d hd
      · intro k d hd hrole
        exact hrole ▸ h k d hd
    refine ⟨hfamilies, ?_⟩
    intro k d family hd hrole
    have hnot := h k d hd
    rw [hrole] at hnot
    simp only [UnpairedAs, not_forall, Classical.not_not, exists_prop] at hnot
    obtain ⟨i, hi, hsegment⟩ := hnot
    -- in front of the segment the height is not negative
    have hheight : 0 ≤ surplus roleOf family (l.take i) := by
      have := (hfamilies family).2 (l.take i) (l.drop i) (List.take_append_drop i l).symm
      simpa [surplus] using this
    have hsum := Brackets.excess_take_add_slice (opensIn roleOf family)
      (closesIn roleOf family) l hi
    simp only [surplus] at hsegment hheight ⊢
    omega
  · rintro ⟨hfamilies, hjoins⟩ k d hd
    cases hrole : roleOf d with
    | opens family => exact ((hbalanced family).1 (hfamilies family)).1 k d hd hrole
    | closes family => exact ((hbalanced family).1 (hfamilies family)).2 k d hd hrole
    | joins family =>
      intro hunpaired
      have := hunpaired 0 (Nat.zero_le k)
      exact this (hjoins k d family hd hrole)
    | alone => exact id

end RegionScope
