/-!
# Tables

The entries of a table that is looked up by keys.
-/

namespace RegionScope

/-- What holds of all entries of a table holds of every entry that is looked up. -/
theorem of_lookup_eq_some {α β : Type} [BEq α] [LawfulBEq α] {table : List (α × β)}
    {p : α × β → Bool} {key : α} {value : β} (hall : table.all p = true)
    (h : table.lookup key = some value) : p (key, value) = true := by
  obtain ⟨before, after, rfl, -⟩ := List.lookup_eq_some_iff.1 h
  exact List.all_eq_true.1 hall (key, value) (by simp)

end RegionScope
