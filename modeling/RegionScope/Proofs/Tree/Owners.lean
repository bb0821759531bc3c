import RegionScope.Proofs.Tree.Descent

/-!
# Owners

The owners of a tree are the nodes that braces open: every node but the root, the directives, and
the blocks that stand below their owners (`isOwner`). What opens together with an owner is the
owner and the block below it, if its kind owns one (`ownNodes`).
-/

namespace RegionScope.Tree

/-- Whether node `i` is neither a root, nor a directive, nor the block of its parent. -/
def isOwner (t : Tree) (i : Nat) : Bool :=
  match t.parent? i with
  | none => false
  | some p => !t.isDirective i && !(t.kind? p).any (·.ownsBlock)

/-- The owners below node 0 in document order. -/
def owners (t : Tree) : List Nat := (t.descendants 0).filter t.isOwner

/-- A node and what stands below it as its block, the innermost one first. -/
def ownNodes (t : Tree) (i : Nat) : List Nat :=
  (if (t.kind? i).any (·.ownsBlock) then t.children i else []) ++ [i]

variable {t : Tree} {i p : Nat} {kind : Kind} {label : Label} {parent : Option Nat}

theorem isOwner_zero (t : Tree) : t.isOwner 0 = false := by
  unfold isOwner
  split
  · rfl
  · next p hp => exact absurd (parent?_lt hp) (Nat.not_lt_zero p)

/-- The block of an owner is no owner. -/
theorem isOwner_of_ownsBlock (hparent : t.parent? i = some p) (hp : t.kind? p = some kind)
    (howns : kind.ownsBlock = true) : t.isOwner i = false := by
  simp [isOwner, hparent, hp, howns]

theorem isOwner_add_of_lt (hi : i < t.size) : (t.add label parent).isOwner i = t.isOwner i := by
  unfold isOwner
  rw [parent?_add_of_lt hi, isDirective_add_of_lt hi]
  cases hparent : t.parent? i with
  | none => rfl
  | some p =>
    have hp : p < t.size := Nat.lt_trans (parent?_lt hparent) hi
    simp only [kind?_add_of_lt hp]

theorem isOwner_add_self (hsize : p < t.size) (hp : t.kind? p = some kind) :
    (t.add label (some p)).isOwner t.size = (!label.kind.isDirective && !kind.ownsBlock) := by
  simp only [isOwner, parent?_add_self hsize, isDirective_add_self, kind?_add_of_lt hsize, hp,
    Option.any_some]

/-- A new node comes behind the owners so far, if it is one. -/
theorem filter_isOwner_add (t : Tree) (label : Label) (parent : Option Nat) :
    (List.range (t.add label parent).size).filter (t.add label parent).isOwner =
      (List.range t.size).filter t.isOwner ++
        if (t.add label parent).isOwner t.size then [t.size] else [] := by
  have hold : ∀ i ∈ List.range t.size, (t.add label parent).isOwner i = t.isOwner i :=
    fun i hi => isOwner_add_of_lt (List.mem_range.1 hi)
  rw [size_add, List.range_succ, List.filter_append, List.filter_congr hold, List.filter_cons,
    List.filter_nil]

end RegionScope.Tree
