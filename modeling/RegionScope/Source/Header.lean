import RegionScope.Text.Blank

/-!
# Headers

A header is the code that stands before a brace, back to the last semicolon or brace. In
its normal form blanks are collapsed and the attribute lists in front are gone. An
attribute list is a bracketed text whose inner brackets are closed and at most one level
deep; a bracket that opens none stays.
-/

namespace RegionScope.Source

open RegionScope.Text

/-- What follows the attribute list and the blanks after it, from behind the opening
bracket on; `nested` says that an inner bracket is open. -/
def afterAttribute? (nested : Bool) : List Char → Option (List Char)
  | [] => none
  | c :: cs =>
    if c = '[' then
      if nested then none else afterAttribute? true cs
    else if c = ']' then
      if nested then afterAttribute? false cs else some (skipBlanks cs)
    else afterAttribute? nested cs

theorem length_dropWhile_le {α : Type} (p : α → Bool) (l : List α) :
    (l.dropWhile p).length ≤ l.length := (List.dropWhile_suffix p).length_le

theorem length_afterAttribute? {nested : Bool} {cs rest : List Char}
    (h : afterAttribute? nested cs = some rest) : rest.length < cs.length := by
  fun_induction afterAttribute? nested cs with
  | case1 => cases h
  | case2 => cases h
  | case3 _ _ _ ih => exact Nat.lt_succ_of_lt (ih h)
  | case4 _ _ ih => exact Nat.lt_succ_of_lt (ih h)
  | case5 =>
    cases h
    exact Nat.lt_succ_of_le (length_dropWhile_le _ _)
  | case6 _ _ _ _ _ ih => exact Nat.lt_succ_of_lt (ih h)

/-- The text without the attribute lists at its head. -/
def dropAttributes : List Char → List Char
  | [] => []
  | c :: cs =>
    if c = '[' then
      match _h : afterAttribute? false cs with
      | some rest => dropAttributes rest
      | none => c :: cs
    else c :: cs
termination_by cs => cs.length
decreasing_by
  have := length_afterAttribute? _h
  simp only [List.length_cons]
  omega

/-- The normal form of a header. -/
def normalHeader (cs : List Char) : List Char := dropAttributes (collapse cs)

end RegionScope.Source
