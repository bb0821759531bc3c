import Mathlib.Tactic.Common

/-!
# Matching of brackets

Some items of a list open a bracket and some close one. The item that closes a bracket is the
first one behind it with as many openings as closings in between (`closer?_eq_some_iff`); a
closing item with nothing open closes nothing, and a bracket may stay open. `pairs` lists all
brackets in the order of their openings.
-/

namespace RegionScope.Brackets

variable {α : Type} (opens closes : α → Bool)

/-- The item that closes the bracket inside of which `depth` others are open at the head of the
list. -/
def closer? : Nat → List α → Option α
  | _, [] => none
  | depth, x :: rest =>
    if opens x then closer? (depth + 1) rest
    else if closes x then
      match depth with
      | 0 => some x
      | depth + 1 => closer? depth rest
    else closer? depth rest

/-- The brackets of a list: what opens each, and what closes it, if it is closed. -/
def pairs : List α → List (α × Option α)
  | [] => []
  | x :: rest => if opens x then (x, closer? opens closes 0 rest) :: pairs rest else pairs rest

/-- By how much the items that open outnumber those that close and do not open. -/
def excess (l : List α) : Int := l.countP opens - l.countP fun x => closes x && !opens x

/-- A list is balanced from `depth` on when no part of it at the head closes more than `depth`
brackets that it does not open, and all of it closes as many. -/
def BalancedFrom (depth : Nat) (l : List α) : Prop :=
  depth + excess opens closes l = 0 ∧
    ∀ front back, l = front ++ back → 0 ≤ depth + excess opens closes front

/-- The parts at the head of a list are told by their lengths. -/
theorem balancedFrom_iff_take (depth : Nat) (l : List α) : BalancedFrom opens closes depth l ↔
    depth + excess opens closes l = 0 ∧
      ∀ k ≤ l.length, 0 ≤ depth + excess opens closes (l.take k) := by
  refine and_congr_right fun _ => ?_
  constructor
  · intro h k _
    exact h (l.take k) (l.drop k) (List.take_append_drop k l).symm
  · rintro h front back rfl
    have := h front.length (by simp)
    rwa [List.take_left] at this

instance (depth : Nat) (l : List α) : Decidable (BalancedFrom opens closes depth l) :=
  decidable_of_iff' _ (balancedFrom_iff_take opens closes depth l)

variable {opens closes} {x : α} {rest : List α} {depth : Nat}

theorem closer?_cons_of_opens (h : opens x = true) :
    closer? opens closes depth (x :: rest) = closer? opens closes (depth + 1) rest := by
  simp [closer?, h]

theorem closer?_zero_cons_of_closes (hopens : opens x = false) (h : closes x = true) :
    closer? opens closes 0 (x :: rest) = some x := by
  simp [closer?, hopens, h]

theorem closer?_succ_cons_of_closes (hopens : opens x = false) (h : closes x = true) :
    closer? opens closes (depth + 1) (x :: rest) = closer? opens closes depth rest := by
  simp [closer?, hopens, h]

theorem closer?_cons_of_neither (hopens : opens x = false) (h : closes x = false) :
    closer? opens closes depth (x :: rest) = closer? opens closes depth rest := by
  simp [closer?, hopens, h]

theorem pairs_cons_of_opens (h : opens x = true) :
    pairs opens closes (x :: rest) =
      (x, closer? opens closes 0 rest) :: pairs opens closes rest := by
  rw [pairs, if_pos h]

theorem pairs_cons_of_not_opens (h : opens x = false) :
    pairs opens closes (x :: rest) = pairs opens closes rest := by
  simp [pairs, h]

theorem excess_cons : excess opens closes (x :: rest) = excess opens closes rest +
    if opens x then 1 else if closes x then -1 else 0 := by
  cases hopens : opens x <;> cases hcloses : closes x <;>
    simp [excess, hopens, hcloses] <;> omega

theorem balancedFrom_nil_iff : BalancedFrom opens closes depth [] ↔ depth = 0 := by
  simp [BalancedFrom, excess]

/-- What is balanced is so from the depth on that its first item leads to. -/
theorem balancedFrom_cons_iff {next : Nat} (h : (next : Int) = depth +
      if opens x then 1 else if closes x then -1 else 0) :
    BalancedFrom opens closes depth (x :: rest) ↔ BalancedFrom opens closes next rest := by
  have hexcess : ∀ l, depth + excess opens closes (x :: l) = next + excess opens closes l := by
    intro l
    rw [excess_cons, h]
    omega
  -- the parts at the head of the longer list are the empty one and those that begin with `x`
  constructor
  · rintro ⟨htotal, hfront⟩
    refine ⟨hexcess rest ▸ htotal, ?_⟩
    intro front back hsplit
    rw [← hexcess front]
    exact hfront (x :: front) back (by rw [hsplit, List.cons_append])
  · rintro ⟨htotal, hfront⟩
    refine ⟨(hexcess rest).symm ▸ htotal, ?_⟩
    intro front back hsplit
    cases front with
    | nil => simp [excess]
    | cons y front =>
      rw [List.cons_append] at hsplit
      obtain ⟨rfl, htail⟩ := List.cons.inj hsplit
      rw [hexcess front]
      exact hfront front back htail

/-- The first item of what is balanced leads to a depth. -/
theorem BalancedFrom.exists_next (h : BalancedFrom opens closes depth (x :: rest)) :
    ∃ next : Nat, (next : Int) = depth + if opens x then 1 else if closes x then -1 else 0 := by
  have hfront := h.2 [x] rest rfl
  have hnil : excess opens closes [] = 0 := rfl
  rw [excess_cons, hnil, Int.zero_add] at hfront
  exact ⟨_, Int.toNat_of_nonneg hfront⟩

/-- A closing item at the head of a list is not balanced when nothing is open. -/
theorem not_balancedFrom_zero_cons (hopens : opens x = false) (h : closes x = true) :
    ¬ BalancedFrom opens closes 0 (x :: rest) := by
  rintro ⟨-, hfront⟩
  have := hfront [x] rest rfl
  simp [excess, hopens, h] at this

/-- Item `x` of a list closes what is open in front of the list, with `depth` others open inside of
it: it closes, and the items in front of it are balanced. -/
def ClosedBy (opens closes : α → Bool) (depth : Nat) (l : List α) (x : α) : Prop :=
  ∃ inside after, l = inside ++ x :: after ∧ closes x = true ∧ opens x = false ∧
    BalancedFrom opens closes depth inside

/-- An item that does not close what is open in front of it leads from one depth to the next. -/
theorem closedBy_cons_iff {y : α} {next : Nat}
    (hnext : (next : Int) = depth + if opens y then 1 else if closes y then -1 else 0)
    (hy : closes y = true → opens y = false → depth ≠ 0) :
    ClosedBy opens closes depth (y :: rest) x ↔ ClosedBy opens closes next rest x := by
  constructor
  · rintro ⟨inside, after, hsplit, hcloses, hopens, hbalanced⟩
    cases inside with
    | nil =>
      obtain ⟨rfl, -⟩ := List.cons.inj hsplit
      exact absurd (balancedFrom_nil_iff.1 hbalanced) (hy hcloses hopens)
    | cons z inside =>
      rw [List.cons_append] at hsplit
      obtain ⟨rfl, rfl⟩ := List.cons.inj hsplit
      exact ⟨inside, after, rfl, hcloses, hopens, (balancedFrom_cons_iff hnext).1 hbalanced⟩
  · rintro ⟨inside, after, rfl, hcloses, hopens, hbalanced⟩
    exact ⟨y :: inside, after, rfl, hcloses, hopens, (balancedFrom_cons_iff hnext).2 hbalanced⟩

/-- A closing item closes what is open in front of it. -/
theorem closedBy_zero_cons_iff {y : α} (hopens : opens y = false) (hcloses : closes y = true) :
    ClosedBy opens closes 0 (y :: rest) x ↔ y = x := by
  constructor
  · rintro ⟨inside, after, hsplit, -, -, hbalanced⟩
    cases inside with
    | nil => exact (List.cons.inj hsplit).1
    | cons z inside =>
      rw [List.cons_append] at hsplit
      obtain ⟨rfl, -⟩ := List.cons.inj hsplit
      exact absurd hbalanced (not_balancedFrom_zero_cons hopens hcloses)
  · rintro rfl
    exact ⟨[], rest, rfl, hcloses, hopens, balancedFrom_nil_iff.2 rfl⟩

/-- What closes a bracket is behind it, closes, and has a balanced list in front of it. -/
theorem closer?_eq_some_iff :
    closer? opens closes depth rest = some x ↔ ClosedBy opens closes depth rest x := by
  induction rest generalizing depth with
  | nil => simp [closer?, ClosedBy]
  | cons y rest ih =>
    cases hopens : opens y with
    | true =>
      rw [closer?_cons_of_opens hopens, ih]
      exact (closedBy_cons_iff (by simp [hopens]) (by simp [hopens])).symm
    | false =>
      cases hcloses : closes y with
      | false =>
        rw [closer?_cons_of_neither hopens hcloses, ih]
        exact (closedBy_cons_iff (by simp [hopens, hcloses]) (by simp [hcloses])).symm
      | true =>
        -- a closing item is what is looked for only if nothing else is open
        cases depth with
        | zero =>
          rw [closer?_zero_cons_of_closes hopens hcloses, Option.some.injEq]
          exact (closedBy_zero_cons_iff hopens hcloses).symm
        | succ depth =>
          rw [closer?_succ_cons_of_closes hopens hcloses, ih]
          refine (closedBy_cons_iff ?_ (by simp)).symm
          simp only [hopens, hcloses, Bool.false_eq_true, if_false, if_true]
          omega

theorem mem_of_closer? (h : closer? opens closes depth rest = some x) : x ∈ rest := by
  obtain ⟨inside, after, rfl, -⟩ := closer?_eq_some_iff.1 h
  simp

/-- The brackets of a list are its opening items, each with what closes it. -/
theorem mem_pairs_iff {partner : Option α} : (x, partner) ∈ pairs opens closes rest ↔
    ∃ before after, rest = before ++ x :: after ∧ opens x = true ∧
      partner = closer? opens closes 0 after := by
  induction rest with
  | nil => simp [pairs]
  | cons y rest ih =>
    have htail : (x, partner) ∈ pairs opens closes rest → ∃ before after,
        y :: rest = before ++ x :: after ∧ opens x = true ∧
          partner = closer? opens closes 0 after := by
      intro h
      obtain ⟨before, after, rfl, hopens, hpartner⟩ := ih.1 h
      exact ⟨y :: before, after, rfl, hopens, hpartner⟩
    constructor
    · intro h
      cases hy : opens y with
      | false =>
        rw [pairs_cons_of_not_opens hy] at h
        exact htail h
      | true =>
        rw [pairs_cons_of_opens hy] at h
        rcases List.mem_cons.1 h with heq | h
        · obtain ⟨rfl, rfl⟩ := Prod.mk.inj heq
          exact ⟨[], rest, rfl, hy, rfl⟩
        · exact htail h
    · rintro ⟨before, after, hsplit, hopens, hpartner⟩
      cases before with
      | nil =>
        obtain ⟨rfl, rfl⟩ := List.cons.inj hsplit
        rw [pairs_cons_of_opens hopens, hpartner]
        exact List.mem_cons_self
      | cons z before =>
        rw [List.cons_append] at hsplit
        obtain ⟨rfl, rfl⟩ := List.cons.inj hsplit
        have hmem := ih.2 ⟨before, after, rfl, hopens, hpartner⟩
        cases hy : opens y with
        | false =>
          rw [pairs_cons_of_not_opens hy]
          exact hmem
        | true =>
          rw [pairs_cons_of_opens hy]
          exact List.mem_cons_of_mem _ hmem

theorem map_fst_pairs : (pairs opens closes rest).map Prod.fst = rest.filter opens := by
  induction rest with
  | nil => rfl
  | cons y rest ih =>
    cases hopens : opens y with
    | false => rw [pairs_cons_of_not_opens hopens, ih, List.filter_cons_of_neg (by simp [hopens])]
    | true => rw [pairs_cons_of_opens hopens, List.map_cons, ih, List.filter_cons_of_pos hopens]

/-- What is made of the opening items of a list, and of nothing else in it, is made of its
brackets. -/
theorem filterMap_pairs {β : Type} {f : α → Option β} {g : α × Option α → Option β}
    (h : ∀ before x after, rest = before ++ x :: after →
      f x = if opens x then g (x, closer? opens closes 0 after) else none) :
    rest.filterMap f = (pairs opens closes rest).filterMap g := by
  induction rest with
  | nil => rfl
  | cons y rest ih =>
    have hrest := ih fun before x after hsplit => h (y :: before) x after (by rw [hsplit]; rfl)
    have hy := h [] y rest rfl
    cases hopens : opens y with
    | false =>
      rw [hopens] at hy
      rw [pairs_cons_of_not_opens hopens, ← hrest, List.filterMap_cons_none (by simpa using hy)]
    | true =>
      rw [hopens, if_pos rfl] at hy
      rw [pairs_cons_of_opens hopens, List.filterMap_cons, List.filterMap_cons, hy, hrest]

/-! ## Brackets of other lists -/

/-- What the items are besides what opens and what closes plays no part in the matching. -/
theorem closer?_map {β : Type} (opens closes : β → Bool) (f : α → β) (depth : Nat) (l : List α) :
    closer? opens closes depth (l.map f) =
      (closer? (opens ∘ f) (closes ∘ f) depth l).map f := by
  induction l generalizing depth with
  | nil => rfl
  | cons x rest ih =>
    rw [List.map_cons]
    cases hopens : opens (f x) with
    | true =>
      rw [closer?_cons_of_opens hopens, closer?_cons_of_opens (by exact hopens), ih]
    | false =>
      cases hcloses : closes (f x) with
      | false =>
        rw [closer?_cons_of_neither hopens hcloses,
          closer?_cons_of_neither (by exact hopens) (by exact hcloses), ih]
      | true =>
        cases depth with
        | zero =>
          rw [closer?_zero_cons_of_closes hopens hcloses,
            closer?_zero_cons_of_closes (by exact hopens) (by exact hcloses), Option.map_some]
        | succ depth =>
          rw [closer?_succ_cons_of_closes hopens hcloses,
            closer?_succ_cons_of_closes (by exact hopens) (by exact hcloses), ih]

theorem pairs_map {β : Type} (opens closes : β → Bool) (f : α → β) (l : List α) :
    pairs opens closes (l.map f) =
      (pairs (opens ∘ f) (closes ∘ f) l).map fun pair => (f pair.1, pair.2.map f) := by
  induction l with
  | nil => rfl
  | cons x rest ih =>
    rw [List.map_cons, pairs, pairs, closer?_map, ih]
    simp only [Function.comp_apply]
    split <;> rfl

theorem balancedFrom_map {β : Type} {opens closes : β → Bool} {f : α → β} {depth : Nat}
    {l : List α} (h : BalancedFrom (opens ∘ f) (closes ∘ f) depth l) :
    BalancedFrom opens closes depth (l.map f) := by
  have hexcess : ∀ l, excess opens closes (l.map f) = excess (opens ∘ f) (closes ∘ f) l := by
    intro l
    rw [excess, List.countP_map, List.countP_map]
    rfl
  refine ⟨hexcess l ▸ h.1, ?_⟩
  intro front back hsplit
  obtain ⟨front, back, rfl, rfl, rfl⟩ := List.map_eq_append_iff.1 hsplit
  rw [hexcess]
  exact h.2 front back rfl

/-- Items that neither open nor close are balanced. -/
theorem balancedFrom_zero_of_neither {l : List α}
    (h : ∀ x ∈ l, opens x = false ∧ closes x = false) : BalancedFrom opens closes 0 l := by
  induction l with
  | nil => exact balancedFrom_nil_iff.2 rfl
  | cons x rest ih =>
    obtain ⟨hopens, hcloses⟩ := h x List.mem_cons_self
    have hnext : ((0 : Nat) : Int) = (0 : Nat) +
        if opens x then 1 else if closes x then -1 else 0 := by simp [hopens, hcloses]
    exact (balancedFrom_cons_iff hnext).2 (ih fun y hy => h y (List.mem_cons_of_mem _ hy))

/-- Items that neither open nor close may be left out. -/
theorem closer?_filter {p : α → Bool} (hopens : ∀ x, opens x = true → p x = true)
    (hcloses : ∀ x, closes x = true → p x = true) (depth : Nat) (l : List α) :
    closer? opens closes depth (l.filter p) = closer? opens closes depth l := by
  induction l generalizing depth with
  | nil => rfl
  | cons x rest ih =>
    cases hx : opens x with
    | true =>
      rw [List.filter_cons_of_pos (hopens x hx), closer?_cons_of_opens hx,
        closer?_cons_of_opens hx, ih]
    | false =>
      cases hx' : closes x with
      | false =>
        rw [closer?_cons_of_neither hx hx']
        cases hp : p x with
        | true => rw [List.filter_cons_of_pos hp, closer?_cons_of_neither hx hx', ih]
        | false => rw [List.filter_cons_of_neg (by simp [hp]), ih]
      | true =>
        rw [List.filter_cons_of_pos (hcloses x hx')]
        cases depth with
        | zero =>
          rw [closer?_zero_cons_of_closes hx hx', closer?_zero_cons_of_closes hx hx']
        | succ depth =>
          rw [closer?_succ_cons_of_closes hx hx', closer?_succ_cons_of_closes hx hx', ih]

theorem pairs_filter {p : α → Bool} (hopens : ∀ x, opens x = true → p x = true)
    (hcloses : ∀ x, closes x = true → p x = true) (l : List α) :
    pairs opens closes (l.filter p) = pairs opens closes l := by
  induction l with
  | nil => rfl
  | cons x rest ih =>
    cases hp : p x with
    | true =>
      rw [List.filter_cons_of_pos hp, pairs, pairs, closer?_filter hopens hcloses, ih]
    | false =>
      have hx : opens x = false := Bool.eq_false_iff.2 fun h => by simp [hopens x h] at hp
      rw [List.filter_cons_of_neg (by simp [hp]), ih, pairs_cons_of_not_opens hx]

/-! ## Brackets of lists one behind the other -/

theorem closer?_append (h : closer? opens closes depth rest = some x) (more : List α) :
    closer? opens closes depth (rest ++ more) = some x := by
  obtain ⟨inside, after, rfl, hcloses, hopens, hbalanced⟩ := closer?_eq_some_iff.1 h
  refine closer?_eq_some_iff.2 ⟨inside, after ++ more, ?_, hcloses, hopens, hbalanced⟩
  rw [List.append_assoc, List.cons_append]

/-- What is open in front of a balanced list is closed in it. -/
theorem exists_closer? {outer : Nat} (h : BalancedFrom opens closes (depth + 1 + outer) rest) :
    ∃ x, closer? opens closes depth rest = some x := by
  induction rest generalizing depth with
  | nil =>
    have := balancedFrom_nil_iff.1 h
    omega
  | cons y rest ih =>
    cases hopens : opens y with
    | true =>
      rw [closer?_cons_of_opens hopens]
      refine ih ((balancedFrom_cons_iff ?_).1 h)
      rw [hopens, if_pos rfl]
      omega
    | false =>
      cases hcloses : closes y with
      | false =>
        rw [closer?_cons_of_neither hopens hcloses]
        refine ih ((balancedFrom_cons_iff ?_).1 h)
        rw [hopens, hcloses, if_neg (by simp), if_neg (by simp), Int.add_zero]
      | true =>
        cases depth with
        | zero => exact ⟨y, closer?_zero_cons_of_closes hopens hcloses⟩
        | succ depth =>
          rw [closer?_succ_cons_of_closes hopens hcloses]
          refine ih ((balancedFrom_cons_iff ?_).1 h)
          rw [hopens, hcloses, if_neg (by simp), if_pos rfl]
          omega

/-- The brackets of a balanced list are closed in it, so those of a list behind it are its own. -/
theorem pairs_append (h : BalancedFrom opens closes depth rest) (more : List α) :
    pairs opens closes (rest ++ more) =
      pairs opens closes rest ++ pairs opens closes more := by
  induction rest generalizing depth with
  | nil => rfl
  | cons y rest ih =>
    obtain ⟨next, hnext⟩ := h.exists_next
    have hrest := (balancedFrom_cons_iff hnext).1 h
    rw [List.cons_append]
    cases hopens : opens y with
    | false => rw [pairs_cons_of_not_opens hopens, pairs_cons_of_not_opens hopens, ih hrest]
    | true =>
      rw [hopens, if_pos rfl] at hnext
      obtain rfl : next = 0 + 1 + depth := by omega
      obtain ⟨x, hx⟩ := exists_closer? hrest
      rw [pairs_cons_of_opens hopens, pairs_cons_of_opens hopens, hx, closer?_append hx, ih hrest,
        List.cons_append]

end RegionScope.Brackets
