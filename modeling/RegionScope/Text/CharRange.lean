/-!
# Character classes as ranges of code points

A class of characters is written as a list of closed ranges of code points. The class
tables of this library (blanks, word characters, printable characters, cased letters) are
all read through the one membership test of this module.
-/

namespace RegionScope.Text

/-- A closed range of code points, first and last. -/
abbrev CharRange := Nat × Nat

/-- Whether the code point of `c` lies in one of the ranges. -/
def inRanges (ranges : List CharRange) (c : Char) : Bool :=
  ranges.any fun r => decide (r.1 ≤ c.toNat) && decide (c.toNat ≤ r.2)

/-- Membership in a class, without the test. -/
theorem inRanges_iff (ranges : List CharRange) (c : Char) :
    inRanges ranges c = true ↔ ∃ r ∈ ranges, r.1 ≤ c.toNat ∧ c.toNat ≤ r.2 := by
  simp [inRanges]

end RegionScope.Text
