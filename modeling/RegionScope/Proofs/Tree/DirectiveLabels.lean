import RegionScope.Proofs.Tree.Ancestry
import Mathlib.Data.List.Basic

/-!
# Labels of directives

What the directives of a tree show, node by node and in the order of their creation
(`directiveLabels`). Adding a node adds its label if it is a directive, and changes no other.
-/

namespace RegionScope.Tree

/-- What node `i` shows, if it is a directive. -/
def directiveLabel? (t : Tree) (i : Nat) : Option Label :=
  (t.label? i).filter (·.kind.isDirective)

/-- What the directives of a tree show, in the order of their creation. -/
def directiveLabels (t : Tree) : List Label := (List.range t.size).filterMap t.directiveLabel?

theorem directiveLabel?_add_of_lt {t : Tree} {label : Label} {parent : Option Nat} {i : Nat}
    (hi : i < t.size) : (t.add label parent).directiveLabel? i = t.directiveLabel? i := by
  rw [directiveLabel?, label?_add_of_lt hi, directiveLabel?]

theorem directiveLabel?_add_self {t : Tree} {label : Label} {parent : Option Nat} :
    (t.add label parent).directiveLabel? t.size =
      if label.kind.isDirective then some label else none := by
  rw [directiveLabel?, label?_add_self]
  rfl

theorem directiveLabels_add (t : Tree) (label : Label) (parent : Option Nat) :
    (t.add label parent).directiveLabels =
      t.directiveLabels ++ if label.kind.isDirective then [label] else [] := by
  have hold : ∀ i ∈ List.range t.size,
      (t.add label parent).directiveLabel? i = t.directiveLabel? i :=
    fun i hi => directiveLabel?_add_of_lt (List.mem_range.1 hi)
  rw [directiveLabels, size_add, List.range_succ, List.filterMap_append,
    List.filterMap_congr hold, ← directiveLabels]
  congr 1
  by_cases h : label.kind.isDirective = true <;> simp [directiveLabel?_add_self, h]

theorem isDirective_eq_isSome (t : Tree) (i : Nat) :
    t.isDirective i = (t.directiveLabel? i).isSome := by
  cases h : t.label? i with
  | none => simp [isDirective, directive?, kind?, directiveLabel?, h]
  | some label =>
    by_cases hd : label.kind.isDirective = true <;>
      simp_all [isDirective, directive?, kind?, directiveLabel?, Kind.isDirective, Option.filter]

theorem label?_of_directiveLabel? {t : Tree} {i : Nat} {label : Label}
    (h : t.directiveLabel? i = some label) : t.label? i = some label :=
  (Option.filter_eq_some_iff.1 h).1

/-- The directives among some nodes show what the nodes show that are directives. -/
theorem map_label?_filter_isDirective (t : Tree) (nodes : List Nat) :
    (nodes.filter t.isDirective).map t.label? =
      (nodes.filterMap t.directiveLabel?).map some := by
  induction nodes with
  | nil => rfl
  | cons i rest ih =>
    cases h : t.directiveLabel? i with
    | none =>
      have hnot : ¬ t.isDirective i = true := by simp [isDirective_eq_isSome, h]
      rw [List.filter_cons_of_neg hnot, List.filterMap_cons_none h, ih]
    | some label =>
      have hdirective : t.isDirective i = true := by simp [isDirective_eq_isSome, h]
      rw [List.filter_cons_of_pos hdirective, List.filterMap_cons_some h, List.map_cons, ih,
        label?_of_directiveLabel? h, List.map_cons]

end RegionScope.Tree
