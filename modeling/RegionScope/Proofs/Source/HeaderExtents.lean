import RegionScope.Proofs.Source.ParenDepth
import RegionScope.Proofs.Source.Placement

/-!
# Which code is the header of a brace

The header of an opening brace is the code behind the last brace in front of it, or behind the last
semicolon in front of it that stands outside of parentheses, if that one is nearer. The owner of the
brace shows this code in its normal form as its name, and the first significant offset of the code
as its start (`header_extents`).

A pass ends its header at exactly these tokens, and in between it adds to the header what each token
contributes (`CollectedHeader`). Nothing but an opening brace adds an owner to the tree, and a later
token changes neither the owners so far nor what they show (`Titled`).
-/

namespace RegionScope.Source

open RegionScope.Brackets RegionScope.Text RegionScope.Tree

/-- What a lexeme adds to the header that it stands in. -/
def Lexeme.headerText : Lexeme → List Char
  | .newline | .blank | .blockComment => [' ']
  | .directive _ | .lineComment => []
  | .stringLiteral => ['"', '"']
  | .charLiteral => ['\'', '\'']
  | .code c => [c]

/-- Whether a header ends at a token: at a brace, and at a semicolon outside of parentheses. -/
def EndsHeader (text : List Char) (token : Token) : Prop :=
  token.opensBrace = true ∨ token.closesBrace = true ∨
    token.lexeme = .code ';' ∧ parenDepth text token.start = 0

instance (text : List Char) (token : Token) : Decidable (EndsHeader text token) :=
  inferInstanceAs (Decidable (_ ∨ _ ∨ _ ∧ _))

/-- The offset behind the last of some tokens at which a header ends, 0 if there is none. -/
def beginBehind (text : List Char) (tokens : List Token) : Nat :=
  ((tokens.filter fun token => EndsHeader text token).getLast?.map (·.start + 1)).getD 0

/-- The offset at which the header of a brace at `pos` begins. -/
def headerBegin (text : List Char) (pos : Nat) : Nat :=
  beginBehind text ((lex text).filter fun token => token.start < pos)

/-- The tokens between two offsets. -/
def tokensBetween (text : List Char) (b pos : Nat) : List Token :=
  (lex text).filter fun token => b ≤ token.start ∧ token.start < pos

/-- The code between two offsets, as it counts for a header. -/
def codeBetween (text : List Char) (b pos : Nat) : List Char :=
  (tokensBetween text b pos).flatMap fun token => token.lexeme.headerText

/-- The first significant offset from `b` on and in front of `pos`, or else `pos`. -/
def significantBetween (text : List Char) (b pos : Nat) : Nat :=
  significantOr pos (tokensBetween text b pos)

/-- A node shows the header of a brace at `pos`. -/
structure ShowsHeader (text : List Char) (pos : Nat) (label : Label) : Prop where
  name : label.name = String.ofList (normalHeader (codeBetween text (headerBegin text pos) pos))
  start : label.start = significantBetween text (headerBegin text pos) pos

variable {text : List Char} {lines : LineIndex} {before rest : List Token} {token : Token}
  {s : Outline}

/-! ## Collecting the header -/

/-- The tokens of a list that stand behind the last one at which a header ends. -/
def collected (text : List Char) (tokens : List Token) : List Token :=
  tokens.filter fun token => beginBehind text tokens ≤ token.start

theorem beginBehind_le {pos : Nat} (h : ∀ t ∈ before, t.start < pos) :
    beginBehind text before ≤ pos := by
  rw [beginBehind]
  cases hlast : (before.filter fun token => EndsHeader text token).getLast? with
  | none => exact Nat.zero_le pos
  | some last => exact h last (List.mem_filter.1 (List.mem_of_getLast? hlast)).1

theorem collected_concat_of_ends (h : ∀ t ∈ before, t.start < token.start)
    (hends : EndsHeader text token) : collected text (before ++ [token]) = [] := by
  have hbegin : beginBehind text (before ++ [token]) = token.start + 1 := by
    rw [beginBehind, List.filter_append, List.filter_cons_of_pos (by exact decide_eq_true hends),
      List.getLast?_append]
    rfl
  rw [collected, hbegin, List.filter_eq_nil_iff]
  intro t ht hle
  have hle := of_decide_eq_true hle
  rcases List.mem_append.1 ht with ht | ht
  · have := h t ht
    omega
  · rw [List.mem_singleton.1 ht] at hle
    omega

theorem collected_concat_of_not_ends (h : ∀ t ∈ before, t.start < token.start)
    (hends : ¬ EndsHeader text token) :
    collected text (before ++ [token]) = collected text before ++ [token] := by
  have hbegin : beginBehind text (before ++ [token]) = beginBehind text before := by
    rw [beginBehind, List.filter_append, List.filter_cons_of_neg (by simpa using hends),
      List.filter_nil, List.append_nil, ← beginBehind]
  have hle : beginBehind text before ≤ token.start := beginBehind_le h
  rw [collected, hbegin, List.filter_append, List.filter_cons_of_pos (by exact decide_eq_true hle)]
  rfl

/-- The header of a pass holds what the tokens behind the last end of a header contribute. -/
structure CollectedHeader (text : List Char) (before : List Token) (s : Outline) : Prop where
  header : s.header.reverse = (collected text before).flatMap fun t => t.lexeme.headerText
  headerStart : s.headerStart =
    ((collected text before).find? (·.lexeme.isSignificant)).map (·.start)

/-- At a brace, and at a semicolon outside of parentheses, the header of a pass ends. -/
theorem header_of_ends (lines : LineIndex) (s : Outline)
    (h : token.opensBrace = true ∨ token.closesBrace = true ∨
      token.lexeme = .code ';' ∧ s.level.parens = 0) :
    (s.step lines token).header = [] ∧ (s.step lines token).headerStart = none := by
  obtain ⟨pos, lexeme⟩ := token
  rcases h with hopens | hcloses | ⟨hsemicolon, hparens⟩
  · obtain rfl : lexeme = .code '\x7b' := Token.opensBrace_iff.1 hopens
    rw [Outline.step_open, Outline.openBrace_eq]
    exact ⟨rfl, rfl⟩
  · obtain rfl : lexeme = .code '\x7d' := Token.closesBrace_iff.1 hcloses
    rw [Outline.step_close, Outline.closeBrace]
    split <;> exact ⟨rfl, rfl⟩
  · obtain rfl : lexeme = .code ';' := hsemicolon
    rw [Outline.step_other (by decide) (by decide), Outline.addCode,
      if_pos (show _ ∧ (s.flush lines).level.parens = 0 from ⟨rfl, hparens⟩)]
    exact ⟨rfl, rfl⟩

theorem header_countParen (c : Char) (s : Outline) :
    (s.countParen c).header = s.header ∧ (s.countParen c).headerStart = s.headerStart := by
  unfold Outline.countParen
  split
  · exact ⟨rfl, rfl⟩
  · split <;> exact ⟨rfl, rfl⟩

/-- Any other token adds to the header, and starts it if it is significant. -/
theorem header_of_not_ends (lines : LineIndex) (s : Outline)
    (h : ¬ (token.opensBrace = true ∨ token.closesBrace = true ∨
      token.lexeme = .code ';' ∧ s.level.parens = 0)) :
    (s.step lines token).header = token.lexeme.headerText.reverse ++ s.header ∧
      (s.step lines token).headerStart =
        (s.headerStart <|> if token.lexeme.isSignificant then some token.start else none) := by
  obtain ⟨pos, lexeme⟩ := token
  cases lexeme with
  | code c =>
    have hopens : c ≠ '\x7b' := fun heq => h (.inl (by rw [heq]; rfl))
    have hcloses : c ≠ '\x7d' := fun heq => h (.inr (.inl (by rw [heq]; rfl)))
    have hsemicolon : ¬ (c = ';' ∧ (s.flush lines).level.parens = 0) := fun ⟨heq, hparens⟩ =>
      h (.inr (.inr ⟨by rw [heq], hparens⟩))
    rw [Outline.step_other hopens hcloses, Outline.addCode, if_neg hsemicolon]
    obtain ⟨hheader, hstart⟩ := header_countParen c (s.flush lines)
    exact ⟨congrArg ([c] ++ ·) hheader, congrArg (· <|> some pos) hstart⟩
  | stringLiteral => exact ⟨rfl, rfl⟩
  | charLiteral => exact ⟨rfl, rfl⟩
  | _ =>
    have hnone : s.headerStart = (s.headerStart <|> none) := by cases s.headerStart <;> rfl
    exact ⟨rfl, hnone⟩

namespace CollectedHeader

theorem start (text : List Char) : CollectedHeader text [] .start := ⟨rfl, rfl⟩

theorem step (h : CollectedHeader text before s) (hbefore : ∀ t ∈ before, t.start < token.start)
    (hparens : s.level.parens = parenDepth text token.start) :
    CollectedHeader text (before ++ [token]) (s.step lines token) := by
  by_cases hends : EndsHeader text token
  · rw [EndsHeader, ← hparens] at hends
    obtain ⟨hheader, hstart⟩ := header_of_ends lines s hends
    rw [hparens, ← EndsHeader] at hends
    have hnil := collected_concat_of_ends hbefore hends
    constructor
    · rw [hheader, hnil]
      rfl
    · rw [hstart, hnil]
      rfl
  · have hcollected := collected_concat_of_not_ends hbefore hends
    rw [EndsHeader, ← hparens] at hends
    obtain ⟨hheader, hstart⟩ := header_of_not_ends lines s hends
    constructor
    · rw [hheader, hcollected, List.flatMap_append, ← h.header, List.reverse_append,
        List.reverse_reverse]
      simp
    · rw [hstart, hcollected, List.find?_append, h.headerStart]
      cases (collected text before).find? (·.lexeme.isSignificant) with
      | some first => rfl
      | none =>
        cases hsig : token.lexeme.isSignificant <;> simp [hsig]

theorem run (hsplit : before ++ rest = lex text) :
    CollectedHeader text before (Outline.run (.ofText text) before) := by
  induction before using List.reverseRecOn generalizing rest with
  | nil => exact start text
  | append_singleton before token ih =>
    rw [List.append_assoc, List.singleton_append] at hsplit
    have hmem : token ∈ lex text := by
      rw [← hsplit]
      simp
    have hparens := parens_upTo text (Nat.le_of_lt (start_lt_of_mem_lex hmem))
    rw [Outline.upTo_start hsplit.symm] at hparens
    rw [Outline.run, List.foldl_append]
    exact (ih hsplit).step (start_lt_of_lex_eq hsplit.symm).1 hparens

end CollectedHeader

/-- The tokens in front of a token are those before it. -/
theorem filter_start_lt (h : lex text = before ++ token :: rest) :
    (lex text).filter (fun t => t.start < token.start) = before := by
  obtain ⟨hbefore, hrest⟩ := start_lt_of_lex_eq h
  have hnone : ∀ t ∈ token :: rest, ¬ t.start < token.start := List.forall_mem_cons.2
    ⟨Nat.lt_irrefl _, fun t ht => Nat.not_lt.2 (Nat.le_of_lt (hrest t ht))⟩
  rw [h, List.filter_append, List.filter_eq_self.2 fun t ht => decide_eq_true (hbefore t ht),
    List.filter_eq_nil_iff.2 fun t ht => by simpa using hnone t ht, List.append_nil]

/-- The code of a header is that of the tokens that have been collected in front of its brace. -/
theorem tokensBetween_headerBegin (h : lex text = before ++ token :: rest) :
    tokensBetween text (headerBegin text token.start) token.start = collected text before := by
  have hfilter : tokensBetween text (headerBegin text token.start) token.start =
      ((lex text).filter fun t => t.start < token.start).filter
        fun t => headerBegin text token.start ≤ t.start := by
    rw [tokensBetween, List.filter_filter]
    exact List.filter_congr fun t _ => Bool.decide_and _ _
  rw [hfilter, headerBegin, filter_start_lt h, collected]

/-- The owner of a brace shows the header that has been collected in front of the brace. -/
theorem showsHeader_ownerLabel (hsplit : before ++ token :: rest = lex text) (lines : LineIndex)
    (context : Kind) (h : CollectedHeader text before s) :
    ShowsHeader text token.start (ownerLabel lines context (normalHeader s.header.reverse)
      (s.headerStart.getD token.start)) := by
  have hbetween := tokensBetween_headerBegin hsplit.symm
  constructor
  · rw [codeBetween, hbetween, ← h.header]
    rfl
  · rw [significantBetween, hbetween, significantOr, ← h.headerStart]
    rfl

/-! ## Owners and their braces -/

/-- The owners of a tree show the headers of some opening braces, one for each and in their order.
-/
def Titled (text : List Char) (braces : List Token) (t : Tree) : Prop :=
  List.Forall₂ (fun i brace =>
      ∃ label, t.label? i = some label ∧ ShowsHeader text brace.start label)
    ((List.range t.size).filter t.isOwner) braces

namespace Titled

variable {t : Tree} {braces : List Token} {f g : Frontier} {label : Label} {parent : Option Nat}

/-- What the owners so far show is not changed by another node. -/
theorem labels_add (h : Titled text braces t) (label : Label) (parent : Option Nat) :
    List.Forall₂ (fun i brace => ∃ shown,
        (t.add label parent).label? i = some shown ∧ ShowsHeader text brace.start shown)
      ((List.range t.size).filter t.isOwner) braces := by
  refine h.imp fun i brace ⟨shown, hshown, htitle⟩ => ⟨shown, ?_, htitle⟩
  rw [label?_add_of_lt (lt_size_of_label? hshown), hshown]

theorem add (h : Titled text braces t) (hnot : (t.add label parent).isOwner t.size = false) :
    Titled text braces (t.add label parent) := by
  rw [Titled, filter_isOwner_add, hnot, if_neg nofun, List.append_nil]
  exact h.labels_add label parent

theorem add_owner (h : Titled text braces t) (howner : (t.add label parent).isOwner t.size = true)
    (htitle : ShowsHeader text token.start label) :
    Titled text (braces ++ [token]) (t.add label parent) := by
  rw [Titled, filter_isOwner_add, howner, if_pos rfl]
  exact List.rel_append (h.labels_add label parent) (.cons ⟨label, label?_add_self, htitle⟩ .nil)

theorem flush (lines : LineIndex) (h : Titled text braces f.tree)
    (hkinds : WellKinded f.tree f.current f.around) : Titled text braces (f.flush lines).tree := by
  refine (Frontier.flush_induction (P := fun g =>
    WellKinded g.tree g.current g.around ∧ Titled text braces g.tree) ?_ ⟨hkinds, h⟩).2
  intro g d rest _ ⟨hkinds, h⟩
  refine ⟨(WellKinded.treeInvariant lines).place _ _ _ d hkinds, h.add ?_⟩
  obtain ⟨kind, hkind, -⟩ := hkinds.isOpen g.current List.mem_cons_self
  rw [isOwner_add_self (lt_size_of_kind? hkind) hkind]
  rfl

/-- A brace adds one owner; its block is none. -/
theorem enter (lines : LineIndex) (pos : Nat) (h : Titled text braces f.tree)
    (hkinds : WellKinded f.tree f.current f.around) (hlabel : label.kind.isDirective = false)
    (htitle : ShowsHeader text token.start label) :
    Titled text (braces ++ [token]) (f.enter lines label pos).tree := by
  obtain ⟨kind, hkind, hopen⟩ := hkinds.isOpen f.current List.mem_cons_self
  have howner : (f.tree.add label (some f.current)).isOwner f.tree.size = true := by
    rw [isOwner_add_self (lt_size_of_kind? hkind) hkind, hlabel, (Kind.isOpen_iff.1 hopen).1]
    rfl
  have htitled := h.add_owner howner htitle
  by_cases howns : label.kind.ownsBlock = true
  · rw [Frontier.enter_of_ownsBlock howns]
    refine htitled.add ?_
    have hself : (f.tree.add label (some f.current)).kind? f.tree.size = some label.kind :=
      kind?_add_self
    show ((f.tree.add label (some f.current)).add (blockLabel lines pos)
      (some f.tree.size)).isOwner _ = false
    rw [isOwner_add_self (lt_size_of_kind? hself) hself, howns, Bool.not_true, Bool.and_false]
  · rw [Frontier.enter_of_not_ownsBlock (Bool.eq_false_iff.2 howns)]
    exact htitled

theorem leave (h : Titled text braces f.tree) : Titled text braces f.leave.tree := by
  rwa [Frontier.tree_leave]

/-- A token that opens no brace adds no owner. -/
theorem move (h : Titled text braces f.tree) (hkinds : WellKinded f.tree f.current f.around)
    (hmove : Frontier.Move lines token f g) (hopens : token.opensBrace = false) :
    Titled text braces g.tree := by
  cases hmove with
  | skip => exact h
  | wait => exact h
  | pass => exact h.flush lines hkinds
  | close => exact (h.flush lines hkinds).leave
  | openOwner header opening =>
    rw [hopens] at opening
    cases opening

theorem run (hsplit : before ++ rest = lex text) :
    Titled text (before.filter Token.opensBrace) (Outline.run (.ofText text) before).tree := by
  induction before using List.reverseRecOn generalizing rest with
  | nil =>
    show Titled text [] (Tree.empty.add ⟨.compilationUnit, 0, 1, ""⟩ none)
    have hsize : (Tree.empty.add ⟨.compilationUnit, 0, 1, ""⟩ none).size = 1 := size_add ..
    rw [Titled, hsize, List.range_one, List.filter_cons, isOwner_zero]
    exact .nil
  | append_singleton before token ih =>
    rw [List.append_assoc, List.singleton_append] at hsplit
    have htitled := ih hsplit
    have hkinds := (WellKinded.treeInvariant (.ofText text)).at_end before
    rw [List.filter_append, Outline.run, List.foldl_append, ← Outline.run]
    have hmove := Frontier.move_of_step (.ofText text) (Outline.run (.ofText text) before) token
    cases hopens : token.opensBrace with
    | false =>
      rw [List.filter_cons_of_neg (by simpa using hopens), List.filter_nil, List.append_nil]
      exact move htitled hkinds hmove hopens
    | true =>
      rw [List.filter_cons_of_pos hopens, List.filter_nil]
      obtain ⟨pos, lexeme⟩ := token
      obtain rfl : lexeme = .code '\x7b' := Token.opensBrace_iff.1 hopens
      have hfrontier := Frontier.frontier_openBrace (.ofText text) pos
        (Outline.run (.ofText text) before)
      have htitle := showsHeader_ownerLabel hsplit (.ofText text)
        (Outline.run (.ofText text) before).frontier.context (CollectedHeader.run hsplit)
      show Titled text _
        ((Outline.run (.ofText text) before).openBrace (.ofText text) pos).frontier.tree
      rw [hfrontier]
      refine (htitled.enter _ pos hkinds ?_ htitle).flush _ ?_
      · exact Kind.isDirective_of_mayHold (mayHold_headerKind _ _)
      · exact (WellKinded.treeInvariant (.ofText text)).enter hkinds _ _ pos

end Titled

/-- The openings of the pairs of a text are its significant opening braces. -/
theorem map_opening_bracePairs (text : List Char) :
    (bracePairs text).map (·.opening) = ((lex text).filter Token.opensBrace).map (·.start) := by
  have hfirst : (pairs Token.opensBrace Token.closesBrace (lex text)).map Prod.fst =
      (lex text).filter Token.opensBrace := map_fst_pairs
  rw [bracePairs, bracePairsOf, List.map_map, ← hfirst, List.map_map]
  rfl

/-- The owners of an outline stand for the significant opening braces, one for each and in their
order. Each shows the header of its brace: its name is the normal form of the code between the last
brace, or semicolon outside of parentheses, and its brace, and its start the first significant
offset there. In front of every offset the open parentheses of the pass are those on the brace level
of the offset, and behind a closed pair the open nodes and the parentheses of each of them are what
they were in front of its opening brace, whatever stands in the pair. -/
theorem header_extents (text : List Char) :
    ((bracePairs text).map (·.opening) = ((lex text).filter Token.opensBrace).map (·.start) ∧
      List.Forall₂ (fun owner pair => ∃ label, (outline text).label? owner = some label ∧
          let b := headerBegin text pair.opening
          label.name = String.ofList (normalHeader (codeBetween text b pair.opening)) ∧
            label.start = significantBetween text b pair.opening)
        (outline text).owners (bracePairs text)) ∧
      (∀ pos ≤ text.length, (Outline.upTo text pos).level.parens = parenDepth text pos) ∧
      ∀ pair ∈ bracePairs text, pair.closing < text.length →
        (Outline.upTo text (pair.closing + 1)).level = (Outline.upTo text pair.opening).level ∧
          (Outline.upTo text (pair.closing + 1)).outer = (Outline.upTo text pair.opening).outer ∧
          parenDepth text (pair.closing + 1) = parenDepth text pair.opening := by
  have hopenings := map_opening_bracePairs text
  refine ⟨⟨hopenings, ?_⟩, fun pos hpos => parens_upTo text hpos, fun pair hpair hclosed => ?_⟩
  · have hend := (Titled.run (List.append_nil (lex text))).flush (.ofText text)
      ((WellKinded.treeInvariant (.ofText text)).at_end (lex text))
    have howners : (outline text).owners =
        (List.range (outline text).size).filter (outline text).isOwner := by
      rw [range_size_outline, List.filter_cons, isOwner_zero]
      rfl
    have hstarts : List.Forall₂ (fun owner start => ∃ label,
          (outline text).label? owner = some label ∧ ShowsHeader text start label)
        (outline text).owners (((lex text).filter Token.opensBrace).map (·.start)) := by
      rw [howners, List.forall₂_map_right_iff]
      exact hend
    rw [← hopenings, List.forall₂_map_right_iff] at hstarts
    exact hstarts.imp fun owner pair ⟨label, hlabel, htitle⟩ =>
      ⟨label, hlabel, htitle.name, htitle.start⟩
  · obtain ⟨hlevel, houter⟩ := levels_behind_pair hpair hclosed
    obtain ⟨hlt, -⟩ := (ordered_lex text).bounds_of_mem hpair
    refine ⟨hlevel, houter, ?_⟩
    rw [← parens_upTo text hclosed, ← parens_upTo text (Nat.le_of_lt (hlt.trans hclosed)), hlevel]

/-- The semicolons of a loop stay in its header, and a parenthesis that is open in its body does not
reach beyond the body. -/
example :
    let tree := outline "for (;;) // loop\n\x7b f(; \x7d a; g(\"x\") \x7b".toList
    (tree.owners.filterMap tree.label?).map (fun label => (label.name, label.start)) =
      [("for (;;)", 0), ("g(\"\")", 28)] := by
  decide +kernel

end RegionScope.Source
