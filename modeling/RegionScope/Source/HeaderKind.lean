import RegionScope.Tree.Kind
import RegionScope.Text.Place
import RegionScope.Source.Header

/-!
# Kind of the node that a header opens

The kind of a brace is read off its header and the kind of the node around it. Among
members a header is an accessor, a namespace, a type, a lambda, an initializer, a method
or a property, in this order of tests. Among expressions it is a lambda or an initializer.
Everywhere else it is read as a statement.

A tuple type in front of a member's name has parentheses that open no parameter list, so
they are cut out before the parameter list of a member is looked for.
-/

namespace RegionScope.Source

open RegionScope.Text

/-! ## Tests on headers -/

/-- Parentheses without parentheses between them, at the head of the text and up to its
end. -/
def isFlatParameterList : List Char → Bool
  | [] => false
  | c :: cs =>
    c == '(' &&
      match cs.dropWhile fun d => d != '(' && d != ')' with
      | [] => false
      | d :: rest => d == ')' && isEnd rest

/-- A lambda ends with an arrow, or with `delegate` and at most a parameter list. -/
def isLambda (header : List Char) : Bool :=
  anyPlace (fun _ cs => (afterWord? ['=', '>'] cs).any isEnd) none header ||
    anyPlace (wordThen "delegate" fun rest =>
      (skipBlanks rest).isEmpty || isFlatParameterList (skipBlanks rest)) none header

/-- The characters that make an equals sign behind them a comparison or an arrow. -/
def joinsEquals (c : Char) : Bool := c == '=' || c == '!' || c == '<' || c == '>'

/-- Whether an assignment sign stands in the text. -/
def hasAssignment (cs : List Char) : Bool :=
  anyPlace (fun prev rest =>
    !prev.any joinsEquals && rest.head? == some '=' && (rest.drop 1).head? != some '=') none cs

/-- Whether the text ends with an assignment sign. -/
def endsWithAssignment (cs : List Char) : Bool :=
  anyPlace (fun prev rest => !prev.any joinsEquals && (afterWord? ['='] rest).any isEnd) none cs

/-! ## Tuple types -/

/-- What follows the closing parenthesis, from behind the opening one on. Inner
parentheses are allowed one level deep; `nested` says that one is open. -/
def afterTuple? (nested : Bool) : List Char → Option (List Char)
  | [] => none
  | c :: cs =>
    if c = '(' then
      if nested then none else afterTuple? true cs
    else if c = ')' then
      if nested then afterTuple? false cs else some cs
    else afterTuple? nested cs

theorem length_afterTuple? {nested : Bool} {cs rest : List Char}
    (h : afterTuple? nested cs = some rest) : rest.length < cs.length := by
  fun_induction afterTuple? nested cs with
  | case1 => cases h
  | case2 => cases h
  | case3 _ _ _ ih => exact Nat.lt_succ_of_lt (ih h)
  | case4 _ _ ih => exact Nat.lt_succ_of_lt (ih h)
  | case5 =>
    cases h
    exact Nat.lt_succ_self _
  | case6 _ _ _ _ _ ih => exact Nat.lt_succ_of_lt (ih h)

/-- The text without a question mark at its head. -/
def dropNullable : List Char → List Char
  | [] => []
  | c :: cs => if c = '?' then cs else c :: cs

theorem length_dropNullable (cs : List Char) : (dropNullable cs).length ≤ cs.length := by
  unfold dropNullable
  split
  · exact Nat.le_refl _
  · split
    · exact Nat.le_succ _
    · exact Nat.le_refl _

/-- Whether the text goes on as behind a type: with an array rank, a delimiter of a type
list, or blanks and a name other than `where`. -/
def followsType (cs : List Char) : Bool :=
  match skipBlanks cs with
  | [] => false
  | c :: rest =>
    (c == '[' || c == '>' || c == ',') ||
      (cs.head?.any isBlank && !startsWholeWord "where" (c :: rest) && nameFollows (c :: rest))

/-- What follows a tuple type, from behind its opening parenthesis on. -/
def afterTupleType? (cs : List Char) : Option (List Char) :=
  ((afterTuple? false cs).map dropNullable).filter followsType

theorem length_afterTupleType? {cs rest : List Char} (h : afterTupleType? cs = some rest) :
    rest.length < cs.length := by
  obtain ⟨h, -⟩ := Option.filter_eq_some_iff.1 h
  obtain ⟨mid, hmid, rfl⟩ := Option.map_eq_some_iff.1 h
  exact Nat.lt_of_le_of_lt (length_dropNullable mid) (length_afterTuple? hmid)

/-- The header without its tuple types. -/
def removeTupleTypes : List Char → List Char
  | [] => []
  | c :: cs =>
    if c = '(' then
      match _h : afterTupleType? cs with
      | some rest => removeTupleTypes rest
      | none => c :: removeTupleTypes cs
    else c :: removeTupleTypes cs
termination_by cs => cs.length
decreasing_by
  · have := length_afterTupleType? _h
    simp only [List.length_cons]
    omega
  · simp
  · simp

/-! ## Members -/

/-- The keywords that introduce an accessor. -/
def accessorKeywords : List String := ["get", "set", "init", "add", "remove"]

/-- The keywords that introduce a type. -/
def typeKeywords : List String := ["class", "struct", "interface", "enum", "record"]

/-- The kind of a header among members. Constraint clauses name `class` and `struct`
without declaring a type, so a type is looked for in front of `where` only. The braces
of a member with an arrow in its header belong to an expression. -/
def memberKind (context : Kind) (header : List Char) : Kind :=
  if context = .propertyDeclaration ∧ accessorKeywords.any (endsWithWord · header) then
    .accessorDeclaration
  else if hasDeclaration "namespace" header then .namespaceDeclaration
  else if typeKeywords.any (hasDeclaration · (beforeWord "where" header)) then .typeDeclaration
  else if isLambda header then .lambda
  else if anyPlace (fun _ cs => (afterWord? ['=', '>'] cs).isSome) none header then .initializer
  else
    let signature := removeTupleTypes header
    if hasAssignment (signature.takeWhile (· != '(')) then .initializer
    else if signature.contains '(' then .methodDeclaration
    else .propertyDeclaration

/-! ## Expressions -/

/-- The kind of a header among expressions. -/
def expressionKind (header : List Char) : Kind :=
  if isLambda header then .lambda else .initializer

/-! ## Statements -/

/-- The statement that a keyword introduces. -/
def statementKind? (keyword : String) : Option Kind :=
  [("if", Kind.ifStatement), ("else", .elseClause), ("for", .forStatement),
   ("foreach", .forEachStatement), ("while", .whileStatement), ("do", .doStatement),
   ("try", .tryStatement), ("catch", .catchClause), ("finally", .finallyClause),
   ("using", .usingStatement), ("lock", .lockStatement), ("fixed", .fixedStatement),
   ("checked", .checkedStatement), ("unchecked", .checkedStatement),
   ("unsafe", .unsafeStatement), ("switch", .switchStatement)].lookup keyword

/-- The statement whose keyword is the word at the head of the text. -/
def leadingStatement? (cs : List Char) : Option Kind :=
  statementKind? (String.ofList (cs.takeWhile isWord))

/-- The statement that a header begins; after `else` and blanks the next word counts if it
is a keyword too. -/
def statementOf? (header : List Char) : Option Kind :=
  let afterElse := (afterWord? "else".toList header).bind fun rest =>
    if rest.head?.any isBlank then leadingStatement? (skipBlanks rest) else none
  afterElse <|> leadingStatement? header

/-- Whether `return`, `yield return`, `throw` or `await` begins the header. -/
def startsWithValue (header : List Char) : Bool :=
  startsWholeWord "return" header || startsWholeWord "throw" header ||
    startsWholeWord "await" header ||
    (afterWord? "yield".toList header).any fun rest =>
      rest.head?.any isBlank && startsWholeWord "return" (skipBlanks rest)

/-- Whether a brace behind the header belongs to the value of an expression. -/
def isInitializer (header : List Char) : Bool :=
  hasWord "new" header || startsWithValue header || endsWithAssignment header ||
    endsWithWord "with" header

/-- The characters of a type name behind its first. -/
def isTypeChar (c : Char) : Bool :=
  isWord c || c == '.' || c == '<' || c == '>' || c == '[' || c == ']' || c == ',' || c == '?'

/-- A text in angle brackets that closes no parenthesis, with nothing but blanks around it; or
no more than blanks. -/
def isTypeParameters (cs : List Char) : Bool :=
  match dropTrailingBlanks (skipBlanks cs) with
  | [] => true
  | c :: rest => c == '<' && rest.getLast? == some '>' && !rest.contains ')'

/-- A name, with or without an at sign, and perhaps type parameters. -/
def isFunctionName (cs : List Char) : Bool :=
  nameFollows cs &&
    isTypeParameters ((if cs.head? = some '@' then cs.drop 1 else cs).dropWhile isWord)

/-- Words of modifiers and of a return type, at least one unless `seen`, and a function name. -/
def isFunctionHead (seen : Bool) (cs : List Char) : Bool :=
  (seen && isFunctionName cs) ||
    match cs with
    | [] => false
    | c :: rest =>
      isNameStart c && ((rest.dropWhile isTypeChar).head?.any isBlank) &&
        isFunctionHead true (skipBlanks (rest.dropWhile isTypeChar))
termination_by cs.length
decreasing_by
  simp only [List.length_cons]
  exact Nat.lt_succ_of_le
    (Nat.le_trans (length_dropWhile_le _ _) (length_dropWhile_le _ _))

/-- Whether a parameter list closes somewhere with nothing behind it but a constraint
clause. -/
def closesParameters (cs : List Char) : Bool :=
  anyPlace (fun _ rest =>
    (afterWord? [')'] rest).any fun tail =>
      isEnd tail || startsWholeWord "where" (skipBlanks tail)) none cs

/-- A local function: modifiers and return type, name, type parameters, parameter list and
perhaps constraints. -/
def isLocalFunction (header : List Char) : Bool :=
  match header.dropWhile (· != '(') with
  | [] => false
  | _ :: rest => isFunctionHead false (header.takeWhile (· != '(')) && closesParameters rest

/-- The kind of a header among statements. -/
def statementKind (header : List Char) : Kind :=
  if isLambda header then .lambda
  else
    match statementOf? header with
    | some kind => kind
    | none =>
      if endsWithWord "switch" header then .switchExpression
      else if isInitializer header then .initializer
      else if isLocalFunction header then .localFunction
      else .block

/-! ## All contexts -/

/-- The kind of the node that a brace opens behind `header`, in a node of kind `context`. -/
def headerKind (context : Kind) (header : List Char) : Kind :=
  if context.holdsMembers then memberKind context header
  else if context.holdsExpressions then expressionKind header
  else statementKind header

end RegionScope.Source
