import RegionScope.Failure
import RegionScope.Tree.Traversal
import RegionScope.Directive.Group

/-!
# Containment of regions in element bodies

The body that a node lies in is the outermost block among the node and its ancestors:
blocks of statements nested in it do not count. A region is contained in a body when all
directives matched with it lie in that same body. The match is made over all directives
of the tree that the region belongs to.
-/

namespace RegionScope.Tree

/-- The role of node `i` as a directive. -/
def roleOf (t : Tree) (i : Nat) : DirectiveKind.Role :=
  match t.directive? i with
  | some kind => kind.role
  | none => .alone

/-- The groups of a list of nodes. -/
def groups (t : Tree) (nodes : List Nat) : List (List Nat) := directiveGroups t.roleOf nodes

/-- The group that holds node `i` among the directives below its root; `i` alone if none
does, as when `i` is no directive or itself the root. -/
def related (t : Tree) (i : Nat) : List Nat :=
  ((t.groups (t.directivesBelow (t.root i))).find? (·.contains i)).getD [i]

/-- The outermost block among node `i` and its ancestors. -/
def body? (t : Tree) (i : Nat) : Option Nat :=
  ((t.lineage i).filter fun a => t.kind? a = some .block).getLast?

/-- Whether all nodes of a list lie in one body. -/
def shareBody (t : Tree) : List Nat → Bool
  | [] => true
  | i :: rest =>
    match t.body? i with
    | none => false
    | some body => rest.all fun j => t.body? j = some body

/-- Whether the directive `i` and all directives matched with it lie in one body. -/
def isContained (t : Tree) (i : Nat) : Bool := t.shareBody (t.related i)

/-- The group of a directive that has to be given. -/
def relatedOf (t : Tree) (directive : Option Nat) : Except Failure (List Nat) :=
  match directive with
  | some i => .ok (t.related i)
  | none => .error .noDirective

/-- Whether a region that has to be given is contained in a body, when `resolve` tells the
directives matched with it. -/
def containedBy (t : Tree) (resolve : Nat → List Nat) (region : Option Nat) : Except Failure Bool :=
  match region with
  | some i => .ok (t.shareBody (resolve i))
  | none => .error .noRegion

end RegionScope.Tree
