import RegionScope.Tree.Body
import RegionScope.Proofs.Tree.Ancestry

/-!
# The body around a node

The body that a node lies in is the one block among the node and its ancestors that has no
block above it (`body?_eq_some_iff`); there is none exactly when no block is among them
(`body?_eq_none_iff`).
-/

namespace RegionScope.Tree

variable {t : Tree} {i a b : Nat}

/-- In a lineage a node is followed by its ancestors. -/
theorem eq_ancestors_of_lineage_eq_append {front back : List Nat}
    (h : t.lineage i = front ++ a :: back) : back = t.ancestors a := by
  -- the nodes in front are passed one by one, each followed by its parent
  induction front generalizing i with
  | nil =>
    obtain ⟨rfl, hback⟩ := List.cons.inj (show i :: t.ancestors i = a :: back from h)
    exact hback.symm
  | cons j front ih =>
    obtain ⟨rfl, hrest⟩ := List.cons.inj
      (show i :: t.ancestors i = j :: (front ++ a :: back) from h)
    cases hp : t.parent? i with
    | none =>
      rw [ancestors_of_none hp] at hrest
      simp at hrest
    | some p =>
      rw [ancestors_eq_lineage hp] at hrest
      exact ih hrest

/-- A lineage splits at each of its members. -/
theorem lineage_eq_append_of_mem (h : a ∈ t.lineage i) :
    ∃ front, t.lineage i = front ++ a :: t.ancestors a := by
  obtain ⟨front, back, hsplit⟩ := List.append_of_mem h
  exact ⟨front, eq_ancestors_of_lineage_eq_append hsplit ▸ hsplit⟩

theorem getLast?_filter_eq_some_iff {p : Nat → Bool} {l : List Nat} :
    (l.filter p).getLast? = some a ↔
      ∃ front back, l = front ++ a :: back ∧ p a = true ∧ ∀ c ∈ back, p c = false := by
  constructor
  · intro h
    obtain ⟨kept, hkept⟩ := List.getLast?_eq_some_iff.1 h
    obtain ⟨front, rest, rfl, -, hrest⟩ := List.filter_eq_append_iff.1 hkept
    obtain ⟨skipped, back, rfl, -, ha, hback⟩ := List.filter_eq_cons_iff.1 hrest
    refine ⟨front ++ skipped, back, by simp, ha, ?_⟩
    intro c hc
    have := List.filter_eq_nil_iff.1 hback c hc
    simpa using this
  · rintro ⟨front, back, rfl, ha, hback⟩
    have hnone : back.filter p = [] := by
      rw [List.filter_eq_nil_iff]
      intro c hc
      simp [hback c hc]
    rw [List.filter_append, List.filter_cons_of_pos ha, hnone]
    simp

/-- The body around a node is the block of its lineage that has no block above it. -/
theorem body?_eq_some_iff : t.body? i = some b ↔
    b ∈ t.lineage i ∧ t.kind? b = some .block ∧ ∀ a ∈ t.ancestors b, t.kind? a ≠ some .block := by
  rw [body?, getLast?_filter_eq_some_iff]
  constructor
  · rintro ⟨front, back, hsplit, hb, hback⟩
    obtain rfl := eq_ancestors_of_lineage_eq_append hsplit
    refine ⟨hsplit ▸ by simp, of_decide_eq_true hb, ?_⟩
    intro a ha
    exact of_decide_eq_false (hback a ha)
  · rintro ⟨hmem, hb, habove⟩
    obtain ⟨front, hsplit⟩ := lineage_eq_append_of_mem hmem
    exact ⟨front, t.ancestors b, hsplit, decide_eq_true hb,
      fun a ha => decide_eq_false (habove a ha)⟩

theorem body?_eq_none_iff :
    t.body? i = none ↔ ∀ a ∈ t.lineage i, t.kind? a ≠ some .block := by
  rw [body?, List.getLast?_eq_none_iff, List.filter_eq_nil_iff]
  simp only [decide_eq_true_eq, ne_eq]

end RegionScope.Tree
