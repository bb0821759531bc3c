import RegionScope.Proofs.Source.StatementKeywords

/-!
# What may stand in what

Which kinds of owner a brace can open depends on the kind around it: among members a member, an
expression among expressions, and a statement everywhere else (`mayHold_headerKind`).
-/

namespace RegionScope

namespace Kind

/-- The kinds of owner among members. -/
def isMember : Kind → Bool
  | namespaceDeclaration | typeDeclaration | propertyDeclaration | accessorDeclaration
  | methodDeclaration | lambda | initializer => true
  | _ => false

/-- The kinds of owner among expressions. -/
def isExpression : Kind → Bool
  | lambda | initializer => true
  | _ => false

/-- The kinds of owner among statements. -/
def isStatement : Kind → Bool
  | localFunction | lambda | initializer | switchStatement | switchExpression | ifStatement
  | elseClause | forStatement | forEachStatement | whileStatement | doStatement | tryStatement
  | catchClause | finallyClause | usingStatement | lockStatement | fixedStatement
  | checkedStatement | unsafeStatement | block => true
  | _ => false

/-- Whether a brace in a node of kind `context` may open an owner of kind `kind`. -/
def mayHold (context kind : Kind) : Bool :=
  if context.holdsMembers then kind.isMember
  else if context.holdsExpressions then kind.isExpression
  else kind.isStatement

/-- Whether a node of kind `kind` may be a child of a node of kind `parent`: below an owner of a
block only the block, elsewhere directives and what the braces of the parent may hold. -/
def mayContain (parent kind : Kind) : Bool :=
  if parent.ownsBlock then kind == block
  else if parent.isDirective then false
  else kind.isDirective || parent.mayHold kind

/-- The kinds of node that hold what stands between braces. -/
def isOpen (kind : Kind) : Bool := !kind.ownsBlock && !kind.isDirective

/-- The kinds that are among statements only. -/
def isStatementOnly (kind : Kind) : Bool :=
  kind.isStatement && !kind.isExpression && kind != block

/-- No brace opens a directive. -/
theorem isDirective_of_mayHold {context kind : Kind} (h : context.mayHold kind = true) :
    kind.isDirective = false := by
  unfold mayHold at h
  cases kind with
  | directive d =>
    split at h
    · cases h
    · split at h <;> cases h
  | _ => rfl

theorem isOpen_iff {kind : Kind} :
    kind.isOpen = true ↔ kind.ownsBlock = false ∧ kind.isDirective = false := by
  simp [isOpen]

theorem mayContain_of_isOpen {parent : Kind} (h : parent.isOpen = true) (kind : Kind) :
    parent.mayContain kind = (kind.isDirective || parent.mayHold kind) := by
  obtain ⟨howns, hdirective⟩ := isOpen_iff.1 h
  simp [mayContain, howns, hdirective]

/-- What a node of a kind contains is its block, or it is open and what its braces may hold. -/
theorem mayContain_cases {parent kind : Kind} (h : parent.mayContain kind = true) :
    parent.ownsBlock = true ∧ kind = block ∨
      parent.isOpen = true ∧ (kind.isDirective = true ∨ parent.mayHold kind = true) := by
  unfold mayContain at h
  split at h
  · next howns => exact .inl ⟨howns, beq_iff_eq.1 h⟩
  · next howns =>
    split at h
    · cases h
    · next hdirective =>
      right
      refine ⟨isOpen_iff.2 ⟨Bool.eq_false_iff.2 howns, Bool.eq_false_iff.2 hdirective⟩, ?_⟩
      exact Bool.or_eq_true_iff.1 h

/-! ## The classes of kinds -/

theorem isStatement_of_isExpression {kind : Kind} (h : kind.isExpression = true) :
    kind.isStatement = true := by
  cases kind <;> first | rfl | cases h

theorem holdsMembers_of_isStatement {kind : Kind} (h : kind.isStatement = true) :
    kind.holdsMembers = false := by
  cases kind <;> first | rfl | cases h

theorem isStatementOnly_of_isMember {kind : Kind} (h : kind.isMember = true) :
    kind.isStatementOnly = false := by
  cases kind <;> first | rfl | cases h

theorem isStatementOnly_of_isExpression {kind : Kind} (h : kind.isExpression = true) :
    kind.isStatementOnly = false := by
  cases kind <;> first | rfl | cases h

theorem isStatementOnly_of_isDirective {kind : Kind} (h : kind.isDirective = true) :
    kind.isStatementOnly = false := by
  cases kind <;> first | rfl | cases h

/-- An open kind that holds neither members nor expressions holds statements. -/
theorem holdsStatements_cases {kind : Kind} (hopen : kind.isOpen = true)
    (hmembers : kind.holdsMembers = false) (hexpressions : kind.holdsExpressions = false) :
    kind = block ∨ kind = switchStatement ∨ ∃ name, kind = named name := by
  cases kind with
  | block => exact .inl rfl
  | switchStatement => exact .inr (.inl rfl)
  | named name => exact .inr (.inr ⟨name, rfl⟩)
  | _ => first | (cases hopen; done) | (cases hmembers; done) | cases hexpressions

theorem isExpression_iff {kind : Kind} :
    kind.isExpression = true ↔ kind = lambda ∨ kind = initializer := by
  cases kind <;> simp [isExpression]

theorem holdsMembers_of_holdsExpressions {kind : Kind} (h : kind.holdsExpressions = true) :
    kind.holdsMembers = false := by
  cases kind <;> first | rfl | cases h

theorem ownsBlock_of_holdsExpressions {kind : Kind} (h : kind.holdsExpressions = true) :
    kind.ownsBlock = false := by
  cases kind <;> first | rfl | cases h

theorem isDirective_of_ownsBlock {kind : Kind} (h : kind.ownsBlock = true) :
    kind.isDirective = false := by
  cases kind <;> first | rfl | cases h

/-- Below a statement there are statements and directives only. -/
theorem isStatement_of_mayContain {parent kind : Kind} (hparent : parent.isStatement = true)
    (h : parent.mayContain kind = true) (hkind : kind.isDirective = false) :
    kind.isStatement = true := by
  rcases mayContain_cases h with ⟨-, rfl⟩ | ⟨-, hd | hmay⟩
  · rfl
  · rw [hkind] at hd
    cases hd
  · rw [mayHold, holdsMembers_of_isStatement hparent] at hmay
    split at hmay
    · next hmembers => cases hmembers
    · split at hmay
      · exact isStatement_of_isExpression hmay
      · exact hmay

/-- What is among statements only stands in a block or a switch. -/
theorem cases_of_mayContain_isStatementOnly {parent kind : Kind}
    (hkind : kind.isStatementOnly = true) (h : parent.mayContain kind = true) :
    parent = block ∨ parent = switchStatement ∨ ∃ name, parent = named name := by
  rcases mayContain_cases h with ⟨-, rfl⟩ | ⟨hopen, hd | hmay⟩
  · cases hkind
  · rw [isStatementOnly_of_isDirective hd] at hkind
    cases hkind
  · unfold mayHold at hmay
    split at hmay
    · -- neither a member nor an expression is among statements only
      rw [isStatementOnly_of_isMember hmay] at hkind
      cases hkind
    · next hmembers =>
      split at hmay
      · rw [isStatementOnly_of_isExpression hmay] at hkind
        cases hkind
      · next hexpressions =>
        exact holdsStatements_cases hopen (Bool.eq_false_iff.2 hmembers)
          (Bool.eq_false_iff.2 hexpressions)

/-- A block stands in an owner or among statements. -/
theorem mayContain_block_cases {parent : Kind} (h : parent.mayContain block = true) :
    parent.ownsBlock = true ∨ parent = block ∨ parent.isStatementOnly = true ∨
      ∃ name, parent = named name := by
  rcases mayContain_cases h with ⟨howns, -⟩ | ⟨hopen, hdirective | hmay⟩
  · exact .inl howns
  · cases hdirective
  · right
    unfold mayHold at hmay
    split at hmay
    · cases hmay
    · next hmembers =>
      split at hmay
      · cases hmay
      · next hexpressions =>
        rcases holdsStatements_cases hopen (Bool.eq_false_iff.2 hmembers)
          (Bool.eq_false_iff.2 hexpressions) with rfl | rfl | hnamed
        · exact .inl rfl
        · exact .inr (.inl rfl)
        · exact .inr (.inr hnamed)

/-- Nothing contains a kind that is not among those of the language. -/
theorem not_mayContain_named (parent : Kind) (name : String) :
    parent.mayContain (named name) = false := by
  apply Bool.eq_false_iff.2
  intro h
  rcases mayContain_cases h with ⟨-, hblock⟩ | ⟨-, hdirective | hmay⟩
  · cases hblock
  · cases hdirective
  · unfold mayHold at hmay
    split at hmay
    · cases hmay
    · split at hmay <;> cases hmay

/-- An owner of a block is a member, a lambda or a statement. -/
theorem ownsBlock_cases {kind : Kind} (h : kind.ownsBlock = true) :
    kind ∈ [methodDeclaration, accessorDeclaration, lambda] ∨ kind.isStatementOnly = true := by
  cases kind with
  | methodDeclaration => exact .inl (by simp)
  | accessorDeclaration => exact .inl (by simp)
  | lambda => exact .inl (by simp)
  | _ => first | exact .inr rfl | cases h

/-- An open kind holds members or the value of one, or stands among statements. -/
theorem isOpen_cases {kind : Kind} (h : kind.isOpen = true) :
    kind ∈ [compilationUnit, namespaceDeclaration, typeDeclaration, propertyDeclaration,
        initializer] ∨
      kind.isStatementOnly = true ∨ kind = block ∨ ∃ name, kind = named name := by
  cases kind with
  | named name => exact .inr (.inr (.inr ⟨name, rfl⟩))
  | block => exact .inr (.inr (.inl rfl))
  | switchStatement => exact .inr (.inl rfl)
  | switchExpression => exact .inr (.inl rfl)
  | directive d => cases h
  | _ => first | (left; simp; done) | cases h

end Kind

namespace Source

theorem isMember_memberKind (context : Kind) (header : List Char) :
    (memberKind context header).isMember = true := by
  unfold memberKind
  dsimp only
  -- each branch of the choice names a kind among members
  repeat' split
  all_goals rfl

theorem isExpression_expressionKind (header : List Char) :
    (expressionKind header).isExpression = true := by
  unfold expressionKind
  split <;> rfl

theorem isStatement_of_statementKind? {keyword : String} {kind : Kind}
    (h : statementKind? keyword = some kind) : kind.isStatement = true :=
  of_lookup_eq_some (p := fun entry => entry.2.isStatement) (by decide) h

theorem isStatement_of_statementOf? {header : List Char} {kind : Kind}
    (h : statementOf? header = some kind) : kind.isStatement = true := by
  unfold statementOf? at h
  rw [Option.orElse_eq_orElse, Option.orElse_eq_or, Option.or_eq_some_iff] at h
  rcases h with h | ⟨-, h⟩
  · obtain ⟨rest, -, h⟩ := Option.bind_eq_some_iff.1 h
    split at h
    · exact isStatement_of_statementKind? h
    · cases h
  · exact isStatement_of_statementKind? h

theorem isStatement_statementKind (header : List Char) :
    (statementKind header).isStatement = true := by
  unfold statementKind
  split
  · rfl
  · split
    · next kind h => exact isStatement_of_statementOf? h
    · repeat' split
      all_goals rfl

/-- A header opens only what the kind around it may hold. -/
theorem mayHold_headerKind (context : Kind) (header : List Char) :
    context.mayHold (headerKind context header) = true := by
  unfold Kind.mayHold headerKind
  split
  · exact isMember_memberKind context header
  · split
    · exact isExpression_expressionKind header
    · exact isStatement_statementKind header

end Source

end RegionScope
