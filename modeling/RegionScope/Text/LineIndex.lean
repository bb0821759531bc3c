/-!
# Line index

The positions of the line breaks of a text, and the line of a position by binary search.
The first line is 1, and only a newline ends a line. A newline itself belongs to the line
that it ends. Positions are integers: one before the text lies on line 1, one behind it
on the last line.
-/

namespace RegionScope.Text

/-- The positions of the line breaks, in increasing order. -/
structure LineIndex where
  breaks : Array Int

namespace LineIndex

/-- The newline positions of a text that begins at position `pos`. -/
def breaksFrom (pos : Nat) : List Char → List Int
  | [] => []
  | c :: cs => if c = '\n' then (pos : Int) :: breaksFrom (pos + 1) cs else breaksFrom (pos + 1) cs

/-- The index of a text. -/
def ofText (text : List Char) : LineIndex := ⟨(breaksFrom 0 text).toArray⟩

/-- The first place in `[lo, hi)` whose break is not below `pos`, `hi` if there is none,
provided that the breaks increase. -/
def lowerBound (index : LineIndex) (pos : Int) (lo hi : Nat) : Nat :=
  if lo < hi then
    let mid := (lo + hi) / 2
    match index.breaks[mid]? with
    | some b => if b < pos then lowerBound index pos (mid + 1) hi else lowerBound index pos lo mid
    | none => lo
  else lo
termination_by hi - lo

/-- The line of a position. -/
def line (index : LineIndex) (pos : Int) : Nat :=
  lowerBound index pos 0 index.breaks.size + 1

end LineIndex

end RegionScope.Text
