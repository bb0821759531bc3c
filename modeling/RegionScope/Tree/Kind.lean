import RegionScope.Directive.Kind

/-!
# Kinds of node

What a node of a source tree stands for, and the three classes of kind that the outline
asks about: contexts whose braces hold members, contexts whose braces hold expressions,
and kinds whose braces enclose a block of their own.
-/

namespace RegionScope

/-- The kinds of node. `named` holds the kinds that are not among the others; it occurs only
in trees that are put together by hand. -/
inductive Kind where
  | compilationUnit
  | namespaceDeclaration
  | typeDeclaration
  | propertyDeclaration
  | accessorDeclaration
  | methodDeclaration
  | localFunction
  | lambda
  | initializer
  | switchStatement
  | switchExpression
  | ifStatement
  | elseClause
  | forStatement
  | forEachStatement
  | whileStatement
  | doStatement
  | tryStatement
  | catchClause
  | finallyClause
  | usingStatement
  | lockStatement
  | fixedStatement
  | checkedStatement
  | unsafeStatement
  | block
  | directive (kind : DirectiveKind)
  | named (name : String)
deriving DecidableEq, Repr

namespace Kind

/-- The name under which a kind is shown. -/
def name : Kind → String
  | compilationUnit => "CompilationUnit"
  | namespaceDeclaration => "NamespaceDeclaration"
  | typeDeclaration => "TypeDeclaration"
  | propertyDeclaration => "PropertyDeclaration"
  | accessorDeclaration => "AccessorDeclaration"
  | methodDeclaration => "MethodDeclaration"
  | localFunction => "LocalFunctionStatement"
  | lambda => "LambdaExpression"
  | initializer => "InitializerExpression"
  | switchStatement => "SwitchStatement"
  | switchExpression => "SwitchExpression"
  | ifStatement => "IfStatement"
  | elseClause => "ElseClause"
  | forStatement => "ForStatement"
  | forEachStatement => "ForEachStatement"
  | whileStatement => "WhileStatement"
  | doStatement => "DoStatement"
  | tryStatement => "TryStatement"
  | catchClause => "CatchClause"
  | finallyClause => "FinallyClause"
  | usingStatement => "UsingStatement"
  | lockStatement => "LockStatement"
  | fixedStatement => "FixedStatement"
  | checkedStatement => "CheckedStatement"
  | unsafeStatement => "UnsafeStatement"
  | block => "Block"
  | directive .region => "RegionDirectiveTrivia"
  | directive .endRegion => "EndRegionDirectiveTrivia"
  | directive .ifStart => "IfDirectiveTrivia"
  | directive .elifBranch => "ElifDirectiveTrivia"
  | directive .elseBranch => "ElseDirectiveTrivia"
  | directive .endIf => "EndIfDirectiveTrivia"
  | directive .other => "DirectiveTrivia"
  | named name => name

/-- The kinds with a name of their own. -/
def standard : List Kind :=
  [compilationUnit, namespaceDeclaration, typeDeclaration, propertyDeclaration,
   accessorDeclaration, methodDeclaration, localFunction, lambda, initializer,
   switchStatement, switchExpression, ifStatement, elseClause, forStatement,
   forEachStatement, whileStatement, doStatement, tryStatement, catchClause,
   finallyClause, usingStatement, lockStatement, fixedStatement, checkedStatement,
   unsafeStatement, block, directive .region, directive .endRegion, directive .ifStart,
   directive .elifBranch, directive .elseBranch, directive .endIf, directive .other]

/-- The kind shown under a name. -/
def ofName (name : String) : Kind :=
  (standard.find? (·.name == name)).getD (named name)

/-- The directive that a node of this kind is. -/
def directive? : Kind → Option DirectiveKind
  | directive kind => some kind
  | _ => none

/-- Whether a node of this kind is a directive. -/
def isDirective (kind : Kind) : Bool := kind.directive?.isSome

/-- Contexts whose braces hold namespace, type or accessor members. -/
def holdsMembers : Kind → Bool
  | compilationUnit | namespaceDeclaration | typeDeclaration | propertyDeclaration => true
  | _ => false

/-- Contexts whose braces hold expressions. -/
def holdsExpressions : Kind → Bool
  | initializer | switchExpression => true
  | _ => false

/-- Kinds whose braces enclose a block, a node of its own below the owner. -/
def ownsBlock : Kind → Bool
  | methodDeclaration | accessorDeclaration | localFunction | lambda | ifStatement
  | elseClause | forStatement | forEachStatement | whileStatement | doStatement
  | tryStatement | catchClause | finallyClause | usingStatement | lockStatement
  | fixedStatement | checkedStatement | unsafeStatement => true
  | _ => false

end Kind

end RegionScope
