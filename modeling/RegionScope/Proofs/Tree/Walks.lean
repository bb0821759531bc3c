import RegionScope.Proofs.Tree.CommonBody
import RegionScope.Proofs.Tree.Descent

/-!
# Walks over trees that grow

The walk up follows the parent links and ends at the root. The walk down keeps a stack of the nodes
that wait. A turn gives the node on top of the stack and puts the children of the node in its place,
the first one on top (`turn?`). What a walk has given, followed by what stands at and below the
nodes that wait, is the same before and after every turn (`Turns.outstanding_eq`). So every walk
ends, and it gives what the recursion on the tree gives (`turns_iff`).

A tree is grown by creating its nodes one after the other, each as the last child of a node that is
there (`size_grow`, `parent?_grow`, `label?_grow`), and every tree has been grown in this way
(`exists_grow_eq`). In a tree that is grown both walks find the same pairs of nodes (`walks_agree`).
-/

namespace RegionScope.Tree

variable {t : Tree} {i n : Nat}

/-! ## The walk up -/

/-- Each node of a lineage but the first one is the parent of the node before it. -/
theorem isChain_lineage (t : Tree) (n : Nat) :
    (t.lineage n).IsChain fun a b => t.parent? a = some b := by
  induction n using ancestors.induct t with
  | case1 n hnone =>
    rw [lineage_of_none hnone]
    exact .singleton n
  | case2 n p hparent ih =>
    rw [lineage_of_some hparent]
    exact .cons_cons hparent ih

theorem getLast?_lineage (t : Tree) (n : Nat) : (t.lineage n).getLast? = some (t.root n) := by
  induction n using ancestors.induct t with
  | case1 n hnone =>
    rw [lineage_of_none hnone, root_of_none hnone]
    rfl
  | case2 n p hparent ih =>
    rw [lineage_of_some hparent, root_of_some hparent, List.getLast?_cons, ih]
    rfl

/-- The last of the ancestors is the root; a node without a parent has none. -/
theorem getLast?_ancestors (t : Tree) (n : Nat) :
    (t.ancestors n).getLast? = (t.parent? n).map fun _ => t.root n := by
  cases hparent : t.parent? n with
  | none =>
    rw [ancestors_of_none hparent]
    rfl
  | some p =>
    rw [ancestors_eq_lineage hparent, getLast?_lineage, root_of_some hparent]
    rfl

/-- A lineage never comes back to a node, because it goes to older nodes all the time. -/
theorem nodup_lineage (t : Tree) (n : Nat) : (t.lineage n).Nodup := by
  induction n using ancestors.induct t with
  | case1 n hnone =>
    rw [lineage_of_none hnone]
    exact List.nodup_singleton n
  | case2 n p hparent ih =>
    rw [lineage_of_some hparent]
    refine List.nodup_cons.2 ⟨fun h => ?_, ih⟩
    exact Nat.lt_irrefl n (Nat.lt_of_le_of_lt (le_of_mem_lineage h) (parent?_lt hparent))

/-- The nodes with one root are the root and what is below it. -/
theorem root_eq_iff {r : Nat} (hr : t.parent? r = none) :
    t.root n = r ↔ n ∈ r :: t.below r := by
  rw [mem_cons_below_iff]
  constructor
  · rintro rfl
    exact t.root_mem_lineage n
  · intro h
    rcases mem_lineage_iff.1 h with rfl | h
    · exact root_of_none hr
    · rw [root_eq_of_mem_ancestors h, root_of_none hr]

/-! ## The walk down -/

/-- One turn of the walk: the node that is last on the stack is given, and its children take its
place, the first one last. There is no turn with an empty stack. -/
def turn? (t : Tree) (stack : List Nat) : Option (Nat × List Nat) :=
  stack.getLast?.map fun i => (i, stack.dropLast ++ (t.children i).reverse)

/-- A walk with a stack: the nodes that its turns give, and the stack that they leave. -/
inductive Turns (t : Tree) : List Nat → List Nat → List Nat → Prop
  | done (stack : List Nat) : Turns t stack [] stack
  | turn {stack next given rest : List Nat} {i : Nat} (first : t.turn? stack = some (i, next))
      (others : Turns t next given rest) : Turns t stack (i :: given) rest

/-- What stands at and below the nodes of a stack, from its end on. -/
def outstanding (t : Tree) (stack : List Nat) : List Nat :=
  stack.reverse.flatMap fun i => i :: t.below i

theorem turn?_concat (t : Tree) (stack : List Nat) (i : Nat) :
    t.turn? (stack ++ [i]) = some (i, stack ++ (t.children i).reverse) := by
  rw [turn?, List.getLast?_concat, List.dropLast_concat]
  rfl

theorem outstanding_children (t : Tree) (i : Nat) :
    t.outstanding (t.children i).reverse = t.below i := by
  rw [outstanding, List.reverse_reverse, ← below_eq]

/-- The node on top is outstanding before all others, and then what its children stand for. -/
theorem outstanding_concat (t : Tree) (stack : List Nat) (i : Nat) :
    t.outstanding (stack ++ [i]) = i :: t.outstanding (stack ++ (t.children i).reverse) := by
  simp only [outstanding, List.reverse_append, List.reverse_singleton, List.reverse_reverse,
    List.cons_append, List.nil_append, List.flatMap_cons, List.flatMap_append, ← below_eq]

/-- A turn gives the first of the nodes that are outstanding. -/
theorem outstanding_of_turn? {stack next : List Nat} (h : t.turn? stack = some (i, next)) :
    t.outstanding stack = i :: t.outstanding next := by
  rcases List.eq_nil_or_concat stack with rfl | ⟨front, j, rfl⟩
  · cases h
  · rw [List.concat_eq_append] at h ⊢
    rw [turn?_concat, Option.some_inj, Prod.mk.injEq] at h
    obtain ⟨rfl, rfl⟩ := h
    exact t.outstanding_concat front j

/-- What a walk has given and what is outstanding then were outstanding when it began. -/
theorem Turns.outstanding_eq {stack given rest : List Nat} (h : t.Turns stack given rest) :
    t.outstanding stack = given ++ t.outstanding rest := by
  induction h with
  | done stack => rfl
  | turn first _ ih => rw [outstanding_of_turn? first, ih, List.cons_append]

/-- A walk goes on until its stack is empty, and so it ends. -/
theorem turns_outstanding (t : Tree) (stack : List Nat) :
    t.Turns stack (t.outstanding stack) [] := by
  -- every turn takes one node off what is outstanding, so the induction is on that list
  generalize hall : t.outstanding stack = all
  induction all generalizing stack with
  | nil =>
    rcases List.eq_nil_or_concat stack with rfl | ⟨front, j, rfl⟩
    · exact .done []
    · rw [List.concat_eq_append, outstanding_concat] at hall
      cases hall
  | cons i all ih =>
    rcases List.eq_nil_or_concat stack with rfl | ⟨front, j, rfl⟩
    · cases hall
    · rw [List.concat_eq_append] at hall ⊢
      rw [outstanding_concat, List.cons.injEq] at hall
      obtain ⟨rfl, hall⟩ := hall
      exact .turn (t.turn?_concat front j) (ih _ hall)

/-- A walk that has come to its end has given all that was outstanding, and nothing else. -/
theorem turns_iff {stack given : List Nat} :
    t.Turns stack given [] ↔ given = t.outstanding stack := by
  constructor
  · intro h
    exact (h.outstanding_eq.trans (List.append_nil given)).symm
  · rintro rfl
    exact t.turns_outstanding stack

/-! ## Trees that are grown -/

theorem size_grow (t : Tree) (creations : List Creation) :
    (t.grow creations).size = t.size + creations.length := by
  induction creations generalizing t with
  | nil => rfl
  | cons creation creations ih =>
    rw [grow, List.foldl_cons, ← grow, ih, size_add, List.length_cons]
    omega

theorem size_grow_le {t : Tree} {creations : List Creation} {k : Nat} (h : creations[k]? = none) :
    (t.grow creations).size ≤ t.size + k := by
  rw [size_grow]
  exact Nat.add_le_add_left (List.getElem?_eq_none_iff.1 h) t.size

/-- A created node looks as it did when it was added, behind the nodes created before it. -/
theorem exists_grow_eq_add {α : Type} (view : Nat → Tree → α)
    (hadd : ∀ {i t label parent}, i < t.size → view i (t.add label parent) = view i t) (t : Tree)
    {creations : List Creation} {creation : Creation} {k : Nat}
    (h : creations[k]? = some creation) :
    ∃ front : Tree, front.size = t.size + k ∧ view front.size (t.grow creations) =
      view front.size (front.add creation.label creation.parent) := by
  obtain ⟨hk, hget⟩ := List.getElem?_eq_some_iff.1 h
  have hsplit : t.grow creations =
      ((t.grow (creations.take k)).add creation.label creation.parent).grow
        (creations.drop (k + 1)) := by
    conv_lhs => rw [← List.take_append_drop k creations, List.drop_eq_getElem_cons hk, hget, grow,
      List.foldl_append]
    rfl
  refine ⟨t.grow (creations.take k), ?_, ?_⟩
  · rw [size_grow, List.length_take_of_le (Nat.le_of_lt hk)]
  · rw [hsplit]
    refine eq_grow_of_lt (view _) hadd ?_ _
    rw [size_add]
    exact Nat.lt_succ_self _

/-- A created node stands below the node that its creation names, if that one is there. -/
theorem parent?_grow (t : Tree) (creations : List Creation) (k : Nat) :
    (t.grow creations).parent? (t.size + k) =
      (creations[k]?.bind (·.parent)).filter (· < t.size + k) := by
  cases h : creations[k]? with
  | none => exact Node.parentIn_of_size_le (size_grow_le h)
  | some creation =>
    obtain ⟨front, hsize, hview⟩ :=
      t.exists_grow_eq_add (fun i t => t.parent? i) parent?_add_of_lt h
    rw [← hsize]
    refine hview.trans ?_
    rw [parent?_add, if_pos rfl]
    rfl

/-- A created node shows what its creation says. -/
theorem label?_grow (t : Tree) (creations : List Creation) (k : Nat) :
    (t.grow creations).label? (t.size + k) = creations[k]?.map (·.label) := by
  cases h : creations[k]? with
  | none =>
    have hnone : (t.grow creations).nodes[t.size + k]? = none :=
      Array.getElem?_eq_none (size_grow_le h)
    exact congrArg (Option.map (·.label)) hnone
  | some creation =>
    obtain ⟨front, hsize, hview⟩ :=
      t.exists_grow_eq_add (fun i t => t.label? i) label?_add_of_lt h
    rw [← hsize]
    exact hview.trans label?_add_self

theorem parent?_grow_empty (creations : List Creation) (k : Nat) :
    (empty.grow creations).parent? k = (creations[k]?.bind (·.parent)).filter (· < k) := by
  have h := empty.parent?_grow creations k
  rwa [show empty.size + k = k from Nat.zero_add k] at h

theorem label?_grow_empty (creations : List Creation) (k : Nat) :
    (empty.grow creations).label? k = creations[k]?.map (·.label) := by
  have h := empty.label?_grow creations k
  rwa [show empty.size + k = k from Nat.zero_add k] at h

/-- Every tree has been grown, its nodes created in the order of their numbers. -/
theorem exists_grow_eq (t : Tree) : ∃ creations, empty.grow creations = t := by
  refine ⟨t.nodes.toList.map fun node => ⟨node.label, node.parent⟩, ?_⟩
  apply ext_links
  · rw [size_grow, List.length_map, Array.length_toList]
    exact Nat.zero_add t.size
  · intro i
    rw [label?_grow_empty, List.getElem?_map, Array.getElem?_toList, Option.map_map]
    rfl
  · intro i
    rw [parent?_grow_empty, List.getElem?_map, Array.getElem?_toList]
    show (Option.bind (Option.map _ t.nodes[i]?) _).filter _ = t.parent? i
    rw [Option.bind_map]
    show (t.parent? i).filter _ = t.parent? i
    -- a parent is older, so it is there when its child is created
    cases hparent : t.parent? i with
    | none => rfl
    | some p => exact Option.filter_some_pos (decide_eq_true (parent?_lt hparent))

/-! ## Both walks -/

/-- Whatever nodes are created one after the other, each node stands below the one that its creation
names, behind the older children of that one. The walk down from a node comes to its end; then it
has given what is below the node in document order, as the recursion on the tree has it and each
node once, and before that the first part of it. A node is below another exactly if that one is
among its ancestors. The walk up follows the parent links, comes back to no node and ends at the
root, which for a node without a parent is the node itself. The nodes with one root are the root and
what is below it. -/
theorem walks_agree (creations : List Creation) (m : Nat) :
    let t := empty.grow creations
    (t.parent? m = (creations[m]?.bind (·.parent)).filter (· < m) ∧
      t.children m = (List.range creations.length).filter fun c => t.parent? c = some m) ∧
    ((∀ given, t.Turns (t.children m).reverse given [] ↔ given = t.descendants m) ∧
      ∀ given rest, t.Turns (t.children m).reverse given rest → given <+: t.descendants m) ∧
    (t.descendants m = t.below m ∧
      t.below m = ((t.children m).flatMap fun c => c :: t.below c) ∧ (t.below m).Nodup) ∧
    (∀ n, n ∈ t.descendants m ↔ m ∈ t.ancestors n) ∧
    ((m :: t.ancestors m).IsChain (fun a b => t.parent? a = some b) ∧
      (m :: t.ancestors m).Nodup ∧ (m :: t.ancestors m).getLast? = some (t.root m) ∧
      (t.ancestors m).getLast? = (t.parent? m).map (fun _ => t.root m) ∧
      t.parent? (t.root m) = none) ∧
    ∀ n, t.root n = t.root m ↔ n ∈ t.root m :: t.descendants (t.root m) := by
  intro t
  have hwalk : t.outstanding (t.children m).reverse = t.descendants m := by
    rw [outstanding_children, descendants_eq_below]
  refine ⟨⟨parent?_grow_empty creations m, ?_⟩, ⟨fun given => ?_, fun given rest hturns => ?_⟩,
    ⟨t.descendants_eq_below m, t.below_eq m, t.nodup_below m⟩, fun n => ?_,
    ⟨t.isChain_lineage m, t.nodup_lineage m, t.getLast?_lineage m, t.getLast?_ancestors m,
      t.parent?_root m⟩, fun n => ?_⟩
  · rw [children_eq_filter, size_grow]
    exact congrArg (fun k => (List.range k).filter _) (Nat.zero_add creations.length)
  · rw [turns_iff, hwalk]
  · rw [← hwalk, hturns.outstanding_eq]
    exact List.prefix_append given _
  · rw [descendants_eq_below, mem_below_iff]
  · rw [descendants_eq_below]
    exact root_eq_iff (t.parent?_root m)

/-- A node that is created late comes in document order where it stands, not at the end. -/
example :
    let node (parent : Option Nat) : Creation := ⟨⟨.block, 0, 1, ""⟩, parent⟩
    let t := empty.grow [node none, node (some 0), node (some 0), node none, node (some 1)]
    t.descendants 0 = [1, 4, 2] ∧ t.ancestors 4 = [1, 0] ∧ t.root 4 = 0 ∧ t.root 3 = 3 := by
  decide +kernel

end RegionScope.Tree
