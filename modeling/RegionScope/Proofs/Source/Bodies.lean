import RegionScope.Proofs.Tree.OuterBody
import RegionScope.Proofs.Source.HeaderNesting
import RegionScope.Proofs.Source.RightEdge

/-!
# Bodies are bodies of members and lambdas

The pass keeps two facts about kinds: every link joins kinds of which the one may contain the
other, and every owner of a block has its block and nothing else (`WellKinded`). So below a block
there are statements only, and what is among statements only has a block above it. The outermost
block around a node is then the body of a method, an accessor or a lambda
(`outline_nested`, `outermost_bodies`).
-/

namespace RegionScope

namespace Tree

variable {t : Tree} {i p : Nat} {kind : Kind} {label : Label}

theorem isDirective_of_kind? (h : t.kind? i = some kind) : t.isDirective i = kind.isDirective := by
  rw [isDirective, directive?, h]
  rfl

/-- A node that is not in the tree has no children. -/
theorem children_of_size_le (h : t.size ≤ i) : t.children i = [] :=
  Node.childrenIn_of_size_le h

/-- Every link joins kinds of which the one may contain the other. -/
def Linked (t : Tree) : Prop :=
  ∀ i p, t.parent? i = some p →
    ∃ above kind, t.kind? p = some above ∧ t.kind? i = some kind ∧ above.mayContain kind = true

/-- The only child of node `i` is a block without a name. -/
def HasBlock (t : Tree) (i : Nat) : Prop :=
  ∃ b label, t.children i = [b] ∧ t.label? b = some label ∧ label.kind = .block ∧ label.name = ""

/-- Every owner of a block has it. -/
def Bodied (t : Tree) : Prop :=
  ∀ i kind, t.kind? i = some kind → kind.ownsBlock = true → t.HasBlock i

/-- A node may be added below one whose kind may contain it. -/
theorem Linked.add (h : t.Linked) {above : Kind} (hp : t.kind? p = some above)
    (hmay : above.mayContain label.kind = true) : (t.add label (some p)).Linked := by
  have hsize := lt_size_of_kind? hp
  intro i q hparent
  have hi := lt_size_of_parent? hparent
  rw [size_add] at hi
  -- a link that is old is kept, and the one that is new is allowed
  rcases Nat.lt_or_eq_of_le (Nat.le_of_lt_succ hi) with hlt | rfl
  · rw [parent?_add_of_lt hlt] at hparent
    have hq := Nat.lt_trans (parent?_lt hparent) hlt
    rw [kind?_add_of_lt hq, kind?_add_of_lt hlt]
    exact h i q hparent
  · rw [parent?_add_self hsize] at hparent
    obtain rfl := Option.some.inj hparent
    rw [kind?_add_of_lt hsize, kind?_add_self]
    exact ⟨above, label.kind, hp, rfl, hmay⟩

theorem HasBlock.add (h : t.HasBlock i) (hne : p ≠ i) : (t.add label (some p)).HasBlock i := by
  obtain ⟨b, shown, hchildren, hb, hkind, hname⟩ := h
  refine ⟨b, shown, ?_, ?_, hkind, hname⟩
  · rw [children_add, hchildren]
    simp [hne]
  · rw [label?_add_of_lt (lt_size_of_label? hb), hb]

/-- A block without a name below a node without children is the block of that node. -/
theorem hasBlock_add (hp : p < t.size) (hchildren : t.children p = []) (hkind : label.kind = .block)
    (hname : label.name = "") : (t.add label (some p)).HasBlock p := by
  refine ⟨t.size, label, ?_, label?_add_self, hkind, hname⟩
  rw [children_add, hchildren]
  simp [hp]

/-- Owners keep their blocks when a node is added below another node. -/
theorem Bodied.hasBlock_add (h : t.Bodied) {above : Kind} (hp : t.kind? p = some above)
    (hopen : above.isOpen = true) (hi : i < t.size)
    (hkind : (t.add label (some p)).kind? i = some kind) (howns : kind.ownsBlock = true) :
    (t.add label (some p)).HasBlock i := by
  rw [kind?_add_of_lt hi] at hkind
  apply (h i kind hkind howns).add
  rintro rfl
  rw [hp] at hkind
  obtain rfl := Option.some.inj hkind
  rw [(Kind.isOpen_iff.1 hopen).1] at howns
  cases howns

/-- A node that owns no block may be added below an open one. -/
theorem Bodied.add (h : t.Bodied) {above : Kind} (hp : t.kind? p = some above)
    (hopen : above.isOpen = true) (hnot : label.kind.ownsBlock = false) :
    (t.add label (some p)).Bodied := by
  intro i kind hkind howns
  have hi := lt_size_of_kind? hkind
  rw [size_add] at hi
  rcases Nat.lt_or_eq_of_le (Nat.le_of_lt_succ hi) with hlt | rfl
  · exact h.hasBlock_add hp hopen hlt hkind howns
  · rw [kind?_add_self] at hkind
    obtain rfl := Option.some.inj hkind
    rw [hnot] at howns
    cases howns

/-- An owner may be added below an open node together with its block. -/
theorem Bodied.add_block (h : t.Bodied) {above : Kind} {block : Label}
    (hp : t.kind? p = some above) (hopen : above.isOpen = true) (hkind : block.kind = .block)
    (hname : block.name = "") : ((t.add label (some p)).add block (some t.size)).Bodied := by
  intro i kind hi howns
  have hlt := lt_size_of_kind? hi
  rw [size_add, size_add] at hlt
  have hsize : t.size < (t.add label (some p)).size := by simp [size_add]
  have hcases : i < t.size ∨ i = t.size ∨ i = t.size + 1 := by omega
  -- what is old keeps its block; the owner is new, and its block owns none
  rcases hcases with hold | rfl | rfl
  · rw [kind?_add_of_lt (Nat.lt_trans hold hsize)] at hi
    exact (h.hasBlock_add hp hopen hold hi howns).add (Nat.ne_of_gt hold)
  · refine Tree.hasBlock_add hsize ?_ hkind hname
    have hne : p ≠ t.size := Nat.ne_of_lt (lt_size_of_kind? hp)
    rw [children_add, children_of_size_le (Nat.le_refl _)]
    simp [hne]
  · rw [← size_add t label (some p), kind?_add_self, hkind] at hi
    cases hi
    cases howns

end Tree

namespace Source

open RegionScope.Text RegionScope.Tree

/-- What the pass keeps true of the kinds in the tree and of its open nodes. -/
structure WellKinded (t : Tree) (node : Nat) (around : List Nat) : Prop where
  root : t.kind? 0 = some .compilationUnit
  isOpen : ∀ a ∈ node :: around, ∃ kind, t.kind? a = some kind ∧ kind.isOpen = true
  linked : t.Linked
  bodied : t.Bodied

namespace WellKinded

variable {t : Tree} {node next : Nat} {around : List Nat} {label : Label}

theorem start (line : Int) :
    WellKinded (Tree.empty.add ⟨.compilationUnit, 0, line, ""⟩ none) 0 [] := by
  have hsize : (Tree.empty.add ⟨.compilationUnit, 0, line, ""⟩ none).size = 1 := size_add ..
  have hroot : (Tree.empty.add ⟨.compilationUnit, 0, line, ""⟩ none).kind? 0 =
      some .compilationUnit := kind?_add_self
  constructor
  · exact hroot
  · intro a ha
    obtain rfl := List.mem_singleton.1 ha
    exact ⟨_, hroot, rfl⟩
  · intro i p hparent
    have := parent?_lt hparent
    have := lt_size_of_parent? hparent
    omega
  · intro i kind hkind howns
    have := lt_size_of_kind? hkind
    obtain rfl : i = 0 := by omega
    rw [hroot] at hkind
    cases hkind
    cases howns

theorem isOpen_add (h : WellKinded t node around) {parent : Option Nat} :
    ∀ a ∈ node :: around, ∃ kind, (t.add label parent).kind? a = some kind ∧
      kind.isOpen = true := by
  intro a ha
  obtain ⟨kind, hkind, hopen⟩ := h.isOpen a ha
  exact ⟨kind, (kind?_add_of_lt (lt_size_of_kind? hkind)).trans hkind, hopen⟩

theorem root_add (h : WellKinded t node around) {parent : Option Nat} :
    (t.add label parent).kind? 0 = some .compilationUnit :=
  (kind?_add_of_lt (lt_size_of_kind? h.root)).trans h.root

/-- A node below the innermost open node that is no owner of a block. -/
theorem place (h : WellKinded t node around) {above : Kind} (habove : t.kind? node = some above)
    (hmay : above.mayContain label.kind = true) (hnot : label.kind.ownsBlock = false) :
    WellKinded (t.add label (some node)) node around := by
  obtain ⟨kind, hkind, hopen⟩ := h.isOpen node List.mem_cons_self
  exact ⟨h.root_add, h.isOpen_add, h.linked.add habove hmay, h.bodied.add hkind hopen hnot⟩

/-- A new innermost open node. -/
theorem descend (h : WellKinded t node around) {above : Kind} (habove : t.kind? node = some above)
    (hmay : above.mayContain label.kind = true) (hopen : label.kind.isOpen = true) :
    WellKinded (t.add label (some node)) t.size (node :: around) := by
  have hplace := h.place habove hmay (Kind.isOpen_iff.1 hopen).1
  refine ⟨hplace.root, ?_, hplace.linked, hplace.bodied⟩
  intro a ha
  rcases List.mem_cons.1 ha with rfl | ha
  · exact ⟨label.kind, kind?_add_self, hopen⟩
  · exact hplace.isOpen a ha

/-- A new owner with its block, which becomes the innermost open node. -/
theorem descend_block (h : WellKinded t node around) {above : Kind} {block : Label}
    (habove : t.kind? node = some above) (hmay : above.mayContain label.kind = true)
    (howns : label.kind.ownsBlock = true) (hkind : block.kind = .block) (hname : block.name = "") :
    WellKinded ((t.add label (some node)).add block (some t.size)) (t.size + 1)
      (node :: around) := by
  obtain ⟨kind, hnode, hopen⟩ := h.isOpen node List.mem_cons_self
  have hlabel : (t.add label (some node)).kind? t.size = some label.kind := kind?_add_self
  have hroot : (t.add label (some node)).kind? 0 = some .compilationUnit := h.root_add
  constructor
  · exact (kind?_add_of_lt (lt_size_of_kind? hroot)).trans hroot
  · intro a ha
    rcases List.mem_cons.1 ha with rfl | ha
    · rw [← size_add t label (some node), kind?_add_self, hkind]
      exact ⟨_, rfl, rfl⟩
    · obtain ⟨kind, hold, hopen⟩ := h.isOpen a ha
      have hnew : (t.add label (some node)).kind? a = some kind :=
        (kind?_add_of_lt (lt_size_of_kind? hold)).trans hold
      exact ⟨kind, (kind?_add_of_lt (lt_size_of_kind? hnew)).trans hnew, hopen⟩
  · apply (h.linked.add habove hmay).add hlabel
    rw [hkind, Kind.mayContain, if_pos howns]
    rfl
  · exact h.bodied.add_block hnode hopen hkind hname

/-- An owner opened in an open node is one that the kind of that node may contain. -/
theorem mayContain_owner (h : WellKinded t node around) {lines : LineIndex} {header : List Char}
    {pos : Nat}
    (hlabel : label = ownerLabel lines ((t.kind? node).getD .compilationUnit) header pos) :
    ∃ above, t.kind? node = some above ∧ above.mayContain label.kind = true := by
  obtain ⟨above, habove, hopen⟩ := h.isOpen node List.mem_cons_self
  refine ⟨above, habove, ?_⟩
  rw [Kind.mayContain_of_isOpen hopen, hlabel, habove]
  exact Bool.or_eq_true_iff.2 (.inr (mayHold_headerKind above header))

/-- The pass keeps the kinds of its tree. -/
theorem treeInvariant (lines : LineIndex) : Frontier.TreeInvariant lines WellKinded := by
  constructor
  · exact start 1
  · intro t node around d h
    obtain ⟨above, habove, hopen⟩ := h.isOpen node List.mem_cons_self
    refine h.place habove ?_ rfl
    rw [Kind.mayContain_of_isOpen hopen]
    rfl
  · intro t node around label header pos h hlabel hnot
    obtain ⟨above, habove, hmay⟩ := h.mayContain_owner hlabel
    refine h.descend habove hmay (Kind.isOpen_iff.2 ⟨hnot, ?_⟩)
    exact hlabel ▸ Kind.isDirective_of_mayHold (mayHold_headerKind _ header)
  · intro t node around label header pos brace h hlabel howns
    obtain ⟨above, habove, hmay⟩ := h.mayContain_owner hlabel
    exact h.descend_block habove hmay howns rfl rfl
  · intro t node next around h
    exact ⟨h.root, fun a ha => h.isOpen a (List.mem_cons_of_mem node ha), h.linked, h.bodied⟩

end WellKinded

end Source

/-! ## What the links forbid -/

namespace Tree

variable {t : Tree} {i a b p : Nat} {kind : Kind}

namespace Linked

/-- The kind of a node with a child may contain the kind of the child. -/
theorem kind_parent (h : t.Linked) (hparent : t.parent? i = some p) (hi : t.kind? i = some kind) :
    ∃ above, t.kind? p = some above ∧ above.mayContain kind = true := by
  obtain ⟨above, kind', habove, hkind', hmay⟩ := h i p hparent
  rw [hi] at hkind'
  obtain rfl := Option.some.inj hkind'
  exact ⟨above, habove, hmay⟩

/-- A directive has no children. -/
theorem children_of_isDirective (h : t.Linked) (hi : t.isDirective i = true) :
    t.children i = [] := by
  rw [List.eq_nil_iff_forall_not_mem]
  intro c hc
  obtain ⟨above, kind, habove, -, hmay⟩ := h c i (mem_children.1 hc)
  rw [isDirective_of_kind? habove] at hi
  rcases Kind.mayContain_cases hmay with ⟨howns, -⟩ | ⟨hopen, -⟩
  · rw [Kind.isDirective_of_ownsBlock howns] at hi
    cases hi
  · rw [(Kind.isOpen_iff.1 hopen).2] at hi
    cases hi

/-- Below a block there are directives and statements only. -/
theorem isStatement_of_mem_ancestors (h : t.Linked) (hb : t.kind? b = some .block)
    (hmem : b ∈ t.ancestors i) (hi : t.kind? i = some kind) :
    kind.isDirective = true ∨ kind.isStatement = true := by
  induction i using Nat.strongRecOn generalizing kind with
  | ind i ih =>
    obtain ⟨p, hparent, hbp⟩ := mem_ancestors_iff.1 hmem
    obtain ⟨above, habove, hmay⟩ := h.kind_parent hparent hi
    have hstatement : above.isStatement = true := by
      rcases mem_lineage_iff.1 hbp with rfl | hbp
      · rw [hb] at habove
        obtain rfl := Option.some.inj habove
        rfl
      · rcases ih p (parent?_lt hparent) hbp habove with hdirective | hstatement
        · rw [← isDirective_of_kind? habove] at hdirective
          have hchild := mem_children.2 hparent
          rw [h.children_of_isDirective hdirective] at hchild
          cases hchild
        · exact hstatement
    cases hd : kind.isDirective with
    | true => exact .inl rfl
    | false => exact .inr (Kind.isStatement_of_mayContain hstatement hmay hd)

/-- Below an initializer or a switch expression there are directives, lambdas and initializers. -/
theorem isExpression_of_mem_children (h : t.Linked) (hc : b ∈ t.children a)
    (ha : t.kind? a = some kind) (hholds : kind.holdsExpressions = true) :
    t.isDirective b = true ∨ t.kind? b = some .lambda ∨ t.kind? b = some .initializer := by
  obtain ⟨above, below, habove, hbelow, hmay⟩ := h b a (mem_children.1 hc)
  rw [ha] at habove
  obtain rfl := Option.some.inj habove
  rw [hbelow]
  rcases Kind.mayContain_cases hmay with ⟨howns, -⟩ | ⟨-, hdirective | hmay⟩
  · rw [Kind.ownsBlock_of_holdsExpressions hholds] at howns
    cases howns
  · left
    rw [isDirective_of_kind? hbelow, hdirective]
  · right
    rw [Kind.mayHold, Kind.holdsMembers_of_holdsExpressions hholds, if_pos hholds] at hmay
    exact (Kind.isExpression_iff.1 hmay).imp (congrArg some) (congrArg some)

end Linked

/-- The kinds of a tree agree with its links, up to its root. -/
structure Nested (t : Tree) : Prop where
  root : t.kind? 0 = some .compilationUnit
  linked : t.Linked
  bodied : t.Bodied
  grows : t.GrowsRight

namespace Nested

/-- Every kind in the tree is one of those of the language. -/
theorem not_named (h : t.Nested) (name : String) : t.kind? i ≠ some (.named name) := by
  intro hi
  rcases Nat.eq_zero_or_pos i with rfl | hpos
  · rw [h.root] at hi
    cases hi
  · obtain ⟨p, hparent⟩ := h.grows.exists_parent hpos (lt_size_of_kind? hi)
    obtain ⟨above, -, hmay⟩ := h.linked.kind_parent hparent hi
    rw [Kind.not_mayContain_named] at hmay
    cases hmay

/-- What is among statements only has a block above it. -/
theorem exists_block_above (h : t.Nested) (hi : t.kind? i = some kind)
    (honly : kind.isStatementOnly = true) : ∃ b ∈ t.ancestors i, t.kind? b = some .block := by
  induction i using Nat.strongRecOn generalizing kind with
  | ind i ih =>
    rcases Nat.eq_zero_or_pos i with rfl | hpos
    · rw [h.root] at hi
      cases hi
      cases honly
    obtain ⟨p, hparent⟩ := h.grows.exists_parent hpos (lt_size_of_kind? hi)
    obtain ⟨above, habove, hmay⟩ := h.linked.kind_parent hparent hi
    rw [ancestors_eq_lineage hparent]
    -- a switch is not a block but stands among statements itself
    rcases Kind.cases_of_mayContain_isStatementOnly honly hmay with rfl | rfl | ⟨name, rfl⟩
    · exact ⟨p, mem_lineage_self t p, habove⟩
    · obtain ⟨b, hb, hblock⟩ := ih p (parent?_lt hparent) habove rfl
      exact ⟨b, mem_lineage_iff.2 (.inr hb), hblock⟩
    · exact absurd habove (h.not_named name)

/-- A kind above which there is no block is not one that is among statements only. -/
theorem not_isStatementOnly (h : t.Nested) (hi : t.kind? i = some kind)
    (habove : ∀ a ∈ t.ancestors i, t.kind? a ≠ some .block) : ¬ kind.isStatementOnly = true := by
  intro honly
  obtain ⟨b, hb, hblock⟩ := h.exists_block_above hi honly
  exact habove b hb hblock

/-- The owner of the body around a node. -/
theorem parent_body (h : t.Nested) (hb : t.body? i = some b) :
    ∃ p, t.parent? b = some p ∧
      ∃ kind ∈ [Kind.methodDeclaration, .accessorDeclaration, .lambda], t.kind? p = some kind := by
  obtain ⟨-, hblock, habove⟩ := body?_eq_some_iff.1 hb
  -- the root is no block, so the body has a parent
  have hpos : 0 < b := by
    apply Nat.pos_of_ne_zero
    rintro rfl
    rw [h.root] at hblock
    cases hblock
  obtain ⟨p, hparent⟩ := h.grows.exists_parent hpos (lt_size_of_kind? hblock)
  obtain ⟨kind, hkind, hmay⟩ := h.linked.kind_parent hparent hblock
  have hancestors : t.ancestors b = p :: t.ancestors p := ancestors_of_some hparent
  rw [hancestors] at habove
  have hnot := h.not_isStatementOnly hkind fun a ha => habove a (List.mem_cons_of_mem p ha)
  refine ⟨p, hparent, kind, ?_, hkind⟩
  rcases Kind.mayContain_block_cases hmay with howns | rfl | honly | ⟨name, rfl⟩
  · exact (Kind.ownsBlock_cases howns).resolve_right hnot
  · exact absurd hkind (habove p List.mem_cons_self)
  · exact absurd honly hnot
  · exact absurd hkind (h.not_named name)

/-- What stands around the owner of a node's body. -/
theorem ancestors_owner (h : t.Nested) (hb : t.body? i = some b) (hp : t.parent? b = some p)
    (ha : a ∈ t.ancestors p) :
    ∃ kind ∈ [Kind.compilationUnit, .namespaceDeclaration, .typeDeclaration, .propertyDeclaration,
      .initializer], t.kind? a = some kind := by
  obtain ⟨-, -, habove⟩ := body?_eq_some_iff.1 hb
  rw [ancestors_eq_lineage hp] at habove
  -- the child on the way down to the owner is no block, so its parent is open
  obtain ⟨c, hc, hca⟩ := mem_ancestors_iff_exists_child.1 ha
  obtain ⟨kind, below, hkind, hbelow, hmay⟩ := h.linked c a hca
  have hnot := h.not_isStatementOnly hkind fun d hd =>
    habove d (mem_lineage_trans (mem_lineage_iff.2 (.inr hd)) (mem_lineage_iff.2 (.inr ha)))
  refine ⟨kind, ?_, hkind⟩
  rcases Kind.mayContain_cases hmay with ⟨-, rfl⟩ | ⟨hopen, -⟩
  · exact absurd hbelow (habove c hc)
  · rcases Kind.isOpen_cases hopen with hmem | honly | rfl | ⟨name, rfl⟩
    · exact hmem
    · exact absurd honly hnot
    · exact absurd hkind (habove a (mem_lineage_iff.2 (.inr ha)))
    · exact absurd hkind (h.not_named name)

end Nested

end Tree

namespace Source

open RegionScope.Tree

theorem outline_nested (text : List Char) : (outline text).Nested := by
  have h := (WellKinded.treeInvariant (.ofText text)).run (lex text)
  exact ⟨h.root, h.linked, h.bodied, outline_growsRight text⟩

/-- In the outline of every text an owner of a block has the block as its only child, and a
directive has no child. No member other than a lambda or an initializer lies below a block, and
below an initializer or a switch expression there are only directives, lambdas and initializers.
So the body around a node belongs to a method, an accessor or a lambda, and around that owner
there is no statement. -/
theorem outermost_bodies (text : List Char) :
    (∀ i kind, (outline text).kind? i = some kind → kind.ownsBlock = true →
        (outline text).HasBlock i) ∧
      (∀ i, (outline text).isDirective i = true → (outline text).children i = []) ∧
      (∀ b i, (outline text).kind? b = some .block → b ∈ (outline text).ancestors i →
        ∀ kind ∈ [Kind.namespaceDeclaration, .typeDeclaration, .propertyDeclaration,
          .methodDeclaration, .accessorDeclaration], (outline text).kind? i ≠ some kind) ∧
      (∀ i c, c ∈ (outline text).children i →
        (outline text).kind? i = some .initializer ∨
          (outline text).kind? i = some .switchExpression →
        (outline text).isDirective c = true ∨ (outline text).kind? c = some .lambda ∨
          (outline text).kind? c = some .initializer) ∧
      ∀ i b, (outline text).body? i = some b →
        ∃ p, (outline text).parent? b = some p ∧
          (∃ kind ∈ [Kind.methodDeclaration, .accessorDeclaration, .lambda],
            (outline text).kind? p = some kind) ∧
          ∀ a ∈ (outline text).ancestors p,
            ∃ kind ∈ [Kind.compilationUnit, .namespaceDeclaration, .typeDeclaration,
              .propertyDeclaration, .initializer], (outline text).kind? a = some kind := by
  have h := outline_nested text
  refine ⟨h.bodied, fun i => h.linked.children_of_isDirective, ?_, ?_, ?_⟩
  · intro b i hb hmem kind hkind hi
    have hmember : ∀ kind ∈ [Kind.namespaceDeclaration, .typeDeclaration, .propertyDeclaration,
        .methodDeclaration, .accessorDeclaration],
        ¬ (kind.isDirective = true ∨ kind.isStatement = true) := by decide
    exact hmember kind hkind (h.linked.isStatement_of_mem_ancestors hb hmem hi)
  · rintro i c hc (hi | hi)
    · exact h.linked.isExpression_of_mem_children hc hi rfl
    · exact h.linked.isExpression_of_mem_children hc hi rfl
  · intro i b hb
    obtain ⟨p, hparent, howner⟩ := h.parent_body hb
    exact ⟨p, hparent, howner, fun a ha => h.ancestors_owner hb hparent ha⟩

end Source

end RegionScope
