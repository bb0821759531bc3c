import RegionScope.Proofs.Tree.BodyNumbers

/-!
# One body for a group of nodes

The body around a node is also what a walk from the node to its root finds that keeps the last block
it has passed (`lastBlock_eq`). It is the body of all that stands below the node, whatever is
created there and however deep (`body?_of_mem_lineage`, `body?_grow_of_lt`).

A group of nodes may be compared member by member, the body of the first one with those of the
others, until one of them has no body or another one (`compareBodies_iff`). So a group lies in one
body exactly if a single block is the body of each of its members, and neither their order nor their
repetition plays a part (`containment`).
-/

namespace RegionScope.Tree

variable {t : Tree} {i d b : Nat}

/-! ## The walk to the root -/

/-- Node `b` is a block among node `i` and its ancestors, and no block is above it. -/
structure IsBody (t : Tree) (b i : Nat) : Prop where
  mem_lineage : b ∈ t.lineage i
  block : t.kind? b = some .block
  outermost : ∀ a ∈ t.ancestors b, t.kind? a ≠ some .block

/-- The last block of a walk, `found` if it passes none. -/
def lastBlock (t : Tree) (found : Option Nat) : List Nat → Option Nat
  | [] => found
  | a :: rest => t.lastBlock (if t.kind? a = some .block then some a else found) rest

theorem lastBlock_eq (t : Tree) (found : Option Nat) (walk : List Nat) :
    t.lastBlock found walk =
      (walk.filter fun a => t.kind? a = some .block).getLast?.or found := by
  induction walk generalizing found with
  | nil => rfl
  | cons a rest ih =>
    rw [lastBlock, ih, List.filter_cons]
    by_cases hblock : t.kind? a = some .block
    · rw [if_pos hblock, if_pos (by exact decide_eq_true hblock), ← List.singleton_append,
        List.getLast?_append]
      cases (rest.filter fun a => t.kind? a = some .block).getLast? <;> rfl
    · rw [if_neg hblock, if_neg (by simpa using hblock)]

theorem lastBlock_lineage (t : Tree) (i : Nat) : t.lastBlock none (t.lineage i) = t.body? i := by
  rw [lastBlock_eq, Option.or_none, body?]

theorem body?_eq_some_iff_isBody : t.body? i = some b ↔ t.IsBody b i := by
  rw [body?_eq_some_iff]
  exact ⟨fun ⟨hmem, hblock, habove⟩ => ⟨hmem, hblock, habove⟩,
    fun ⟨hmem, hblock, habove⟩ => ⟨hmem, hblock, habove⟩⟩

theorem IsBody.unique {c : Nat} (hb : t.IsBody b i) (hc : t.IsBody c i) : c = b :=
  Option.some.inj ((body?_eq_some_iff_isBody.2 hc).symm.trans (body?_eq_some_iff_isBody.2 hb))

/-! ## Below a node -/

/-- What stands below a node lies in the body of the node. -/
theorem body?_of_mem_lineage (h : t.body? i = some b) (hi : i ∈ t.lineage d) :
    t.body? d = some b := by
  obtain ⟨hmem, hblock, habove⟩ := body?_eq_some_iff.1 h
  exact body?_eq_some_iff.2 ⟨mem_lineage_trans hmem hi, hblock, habove⟩

theorem lt_size_of_body? (h : t.body? i = some b) : i < t.size := by
  obtain ⟨hmem, hblock, -⟩ := body?_eq_some_iff.1 h
  rcases mem_lineage_iff.1 hmem with rfl | hmem
  · exact lt_size_of_kind? hblock
  · obtain ⟨p, hp, -⟩ := mem_ancestors_iff.1 hmem
    exact lt_size_of_parent? hp

/-- A node that is to be created: what it shows, and what it is to stand below. -/
structure Creation where
  label : Label
  parent : Option Nat

/-- The tree with nodes that are created one after the other. -/
def grow (t : Tree) (creations : List Creation) : Tree :=
  creations.foldl (fun t creation => t.add creation.label creation.parent) t

/-- What no single creation changes about the nodes that are there, no sequence of them changes. -/
theorem eq_grow_of_lt {α : Type} (view : Tree → α)
    (hadd : ∀ {t : Tree} {label parent}, i < t.size → view (t.add label parent) = view t)
    (hi : i < t.size) (creations : List Creation) : view (t.grow creations) = view t := by
  induction creations generalizing t with
  | nil => rfl
  | cons creation creations ih =>
    have hlt : i < (t.add creation.label creation.parent).size := by
      rw [size_add]
      exact Nat.lt_succ_of_lt hi
    rw [grow, List.foldl_cons]
    exact (ih hlt).trans (hadd hi)

/-- A node keeps its body, whatever is created. -/
theorem body?_grow_of_lt (hi : i < t.size) (creations : List Creation) :
    (t.grow creations).body? i = t.body? i :=
  eq_grow_of_lt (·.body? i) body?_add_of_lt hi creations

/-! ## Groups -/

/-- Whether all members of a list have the body `body`, or have one body if none is given yet. The
first member without a body or with another one decides. -/
def compareBodies (t : Tree) (body : Option Nat) : List Nat → Bool
  | [] => true
  | d :: rest =>
    match t.lastBlock none (t.lineage d) with
    | none => false
    | some block =>
      match body with
      | none => t.compareBodies (some block) rest
      | some body => if block = body then t.compareBodies (some body) rest else false

theorem compareBodies_some (t : Tree) (b : Nat) (group : List Nat) :
    t.compareBodies (some b) group = group.all fun d => t.body? d = some b := by
  induction group with
  | nil => rfl
  | cons d rest ih =>
    simp only [compareBodies, lastBlock_lineage, List.all_cons]
    cases hbody : t.body? d with
    | none => rfl
    | some block =>
      by_cases heq : block = b
      · simp only [heq, if_true, ih, decide_true, Bool.true_and]
      · simp only [heq, if_false, Option.some.injEq, decide_false, Bool.false_and]

/-- Member by member a group is found to share a body exactly if it does. -/
theorem compareBodies_none (t : Tree) (group : List Nat) :
    t.compareBodies none group = t.shareBody group := by
  cases group with
  | nil => rfl
  | cons d rest =>
    simp only [compareBodies, lastBlock_lineage, shareBody]
    cases t.body? d with
    | none => rfl
    | some block => exact t.compareBodies_some block rest

/-- A group shares a body if it is empty or one block is the body of each of its members. -/
theorem shareBody_iff {group : List Nat} : t.shareBody group = true ↔
    group = [] ∨ ∃ b, t.kind? b = some .block ∧ ∀ d ∈ group, t.body? d = some b := by
  cases group with
  | nil => exact iff_of_true rfl (.inl rfl)
  | cons d rest =>
    rw [shareBody, or_iff_right (List.cons_ne_nil d rest)]
    cases hbody : t.body? d with
    | none =>
      refine iff_of_false Bool.false_ne_true ?_
      rintro ⟨b, -, hgroup⟩
      rw [hgroup d List.mem_cons_self] at hbody
      cases hbody
    | some block =>
      rw [List.all_eq_true]
      constructor
      · intro hrest
        refine ⟨block, (body?_eq_some_iff.1 hbody).2.1, List.forall_mem_cons.2 ⟨hbody, ?_⟩⟩
        exact fun e he => of_decide_eq_true (hrest e he)
      · rintro ⟨b, -, hgroup⟩ e he
        -- the body of the first member is the one that they share
        obtain rfl : b = block :=
          Option.some.inj ((hgroup d List.mem_cons_self).symm.trans hbody)
        exact decide_eq_true (hgroup e (List.mem_cons_of_mem d he))

/-- Groups with the same members share a body or not alike. -/
theorem shareBody_congr {group group' : List Nat} (h : ∀ d, d ∈ group ↔ d ∈ group') :
    t.shareBody group = t.shareBody group' := by
  have hnil : group = [] ↔ group' = [] := by
    rw [List.eq_nil_iff_forall_not_mem, List.eq_nil_iff_forall_not_mem]
    exact forall_congr' fun d => not_congr (h d)
  rw [Bool.eq_iff_iff, shareBody_iff, shareBody_iff, hnil]
  simp only [h]

/-- The walk to the root that keeps the last block finds the body around a node: the only block
among the node and its ancestors that has no block above it, and none exactly if no block is among
them. What is created below a node with a body lies in that body, at once or after any further
creations in between. Whatever group is found for a region, member by member or at once, the answer
is yes exactly if the group is empty or one block is the body of each of its members. So it depends
on the members alone, not on their order or their repetition. -/
theorem containment (t : Tree) :
    (∀ i, t.lastBlock none (t.lineage i) = t.body? i ∧
      (t.body? i = none ↔ ∀ a ∈ t.lineage i, t.kind? a ≠ some .block) ∧
      ∀ b, t.body? i = some b ↔ t.IsBody b i ∧ ∀ c, t.IsBody c i → c = b) ∧
    (∀ i b, t.body? i = some b →
      (∀ label, (t.add label (some i)).body? t.size = some b) ∧
      ∀ creations d, i ∈ (t.grow creations).lineage d →
        (t.grow creations).body? d = some b) ∧
    (∀ resolve region, ∃ answer, t.containedBy resolve (some region) = .ok answer ∧
      t.compareBodies none (resolve region) = answer ∧
      (answer = true ↔ resolve region = [] ∨
        ∃ b, t.kind? b = some .block ∧ ∀ d ∈ resolve region, t.body? d = some b)) ∧
    ∀ resolve resolve' region, (∀ d, d ∈ resolve region ↔ d ∈ resolve' region) →
      t.containedBy resolve (some region) = t.containedBy resolve' (some region) := by
  have hgrow : ∀ {i b}, t.body? i = some b → ∀ creations d,
      i ∈ (t.grow creations).lineage d → (t.grow creations).body? d = some b := by
    intro i b hbody creations d hi
    have hkept := body?_grow_of_lt (lt_size_of_body? hbody) creations
    exact body?_of_mem_lineage (hkept.trans hbody) hi
  refine ⟨fun i => ⟨t.lastBlock_lineage i, body?_eq_none_iff, fun b => ?_⟩, ?_, ?_, ?_⟩
  · rw [body?_eq_some_iff_isBody]
    exact ⟨fun h => ⟨h, fun _ hc => h.unique hc⟩, fun h => h.1⟩
  · intro i b hbody
    refine ⟨fun label => hgrow hbody [⟨label, some i⟩] t.size ?_, hgrow hbody⟩
    show i ∈ (t.add label (some i)).lineage t.size
    rw [lineage_add_self (lt_size_of_body? hbody)]
    exact List.mem_cons_of_mem _ (mem_lineage_self t i)
  · intro resolve region
    exact ⟨_, rfl, t.compareBodies_none _, shareBody_iff⟩
  · intro resolve resolve' region hmembers
    exact congrArg Except.ok (shareBody_congr hmembers)

/-- Two blocks that show the same are two bodies. -/
example :
    let block : Creation := ⟨⟨.block, 0, 1, ""⟩, none⟩
    let t := empty.grow [block, block]
    t.shareBody [0, 1] = false ∧ t.shareBody [1, 1] = true := by
  decide +kernel

end RegionScope.Tree
