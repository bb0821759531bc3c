/-!
# Kinds of directive

The directives that take part in a pairing belong to one of two families, regions and
conditionals, and play one of three roles in it: they open a group, join the open group,
or close it.
-/

namespace RegionScope

/-- The kinds of directive line. -/
inductive DirectiveKind where
  | region
  | endRegion
  | ifStart
  | elifBranch
  | elseBranch
  | endIf
  | other
deriving DecidableEq, Repr

namespace DirectiveKind

/-- The families within which directives are matched. -/
inductive Family where
  | region
  | conditional
deriving DecidableEq, Repr

/-- What a directive does to the groups of its family; `alone` for one of no family. -/
inductive Role where
  | opens (family : Family)
  | joins (family : Family)
  | closes (family : Family)
  | alone
deriving DecidableEq, Repr

/-- The role of each kind. -/
def role : DirectiveKind → Role
  | .region => .opens .region
  | .endRegion => .closes .region
  | .ifStart => .opens .conditional
  | .elifBranch => .joins .conditional
  | .elseBranch => .joins .conditional
  | .endIf => .closes .conditional
  | .other => .alone

/-- The kind that a keyword names; none for a keyword outside the table. -/
def ofKeyword? (keyword : String) : Option DirectiveKind :=
  [("region", region), ("endregion", endRegion), ("if", ifStart), ("elif", elifBranch),
   ("else", elseBranch), ("endif", endIf)].lookup keyword

end DirectiveKind

end RegionScope
