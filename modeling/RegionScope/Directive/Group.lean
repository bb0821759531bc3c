import RegionScope.Directive.Kind

/-!
# Groups of matched directives

Directives are matched in document order. One that opens a group of its family starts a
new one; one that joins or closes goes to the latest group of its family that is still
open, and starts a group of its own if there is none. Directives of no family stand
alone. Every directive is in exactly one group, and the groups are in the order of their
first members.
-/

namespace RegionScope

open DirectiveKind

/-- A group under construction: the family in which it is still open, if it is, and its
members so far, latest first. -/
structure OpenGroup (α : Type) where
  openIn : Option Family
  members : List α
deriving DecidableEq, Repr

namespace OpenGroup

variable {α : Type}

/-- Adds `d` to the first group of the list that is open in `family`, and leaves the group
open in `openIn`; none if no group is. -/
def extend? (family : Family) (openIn : Option Family) (d : α) :
    List (OpenGroup α) → Option (List (OpenGroup α))
  | [] => none
  | g :: gs =>
    if g.openIn = some family then some (⟨openIn, d :: g.members⟩ :: gs)
    else (extend? family openIn d gs).map (g :: ·)

/-- Takes one more directive into the groups so far, latest group first. -/
def insert (roleOf : α → Role) (groups : List (OpenGroup α)) (d : α) : List (OpenGroup α) :=
  match roleOf d with
  | .opens family => ⟨some family, [d]⟩ :: groups
  | .joins family => (extend? family (some family) d groups).getD (⟨none, [d]⟩ :: groups)
  | .closes family => (extend? family none d groups).getD (⟨none, [d]⟩ :: groups)
  | .alone => ⟨none, [d]⟩ :: groups

end OpenGroup

/-- The groups of a list of directives in document order. -/
def directiveGroups {α : Type} (roleOf : α → Role) (directives : List α) : List (List α) :=
  (directives.foldl (OpenGroup.insert roleOf) []).reverse.map (·.members.reverse)

end RegionScope
