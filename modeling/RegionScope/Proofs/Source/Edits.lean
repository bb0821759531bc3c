import Mathlib.Data.List.Forall2
import RegionScope.Proofs.Source.HeaderNesting
import RegionScope.Proofs.Source.Openings
import RegionScope.Proofs.Source.SameHeader
import RegionScope.Proofs.Tree.Thinning

/-!
# Outlines of edited texts

An edit of a text leaves its tokens what they are but for their places, and puts blanks in place of
some directives (`Edit.Tokens`). One pass over each text then keeps two states in step: the tree of
the edited text is that of the other without the directives that are gone, with labels at their new
places, and the two headers mean the same (`Edit.Follows`). So the outline follows the edit
(`Edit.thins_outlineWith`).

Blanks in place of a directive make no difference to a header because a directive stands at the
start of a text or behind blanks.
-/

namespace RegionScope.Source

open RegionScope.Text RegionScope.Tree

/-- What becomes of the labels of a text when it is edited: which are kept, and how they read at
their new places. Only directives may go, and no kind changes. -/
structure Edit where
  lines : LineIndex
  lines' : LineIndex
  keep : Label → Bool
  move : Label → Label
  keep_of_isDirective : ∀ label, label.kind.isDirective = false → keep label = true
  kind_move : ∀ label, (move label).kind = label.kind

namespace Edit

/-- Labels that stay as they are keep their kinds. -/
theorem kind_id (label : Label) : (id label).kind = label.kind := rfl

variable (e : Edit)

/-- What stands at `pos` in the text stands at `pos'` in the edited one. -/
def At (pos pos' : Nat) : Prop :=
  ∀ kind name, e.move ⟨kind, pos, e.lines.line pos, name⟩ = ⟨kind, pos', e.lines'.line pos', name⟩

/-- Whether a directive is kept. -/
def keeps (d : PendingDirective) : Bool := e.keep (directiveLabel e.lines d)

/-- The tokens of the edited text: those of the text at their new places, and blanks in place of
the directives that are gone. The truth value says whether a directive may begin. -/
inductive Tokens : Bool → List Token → List Token → Prop
  | nil (atStart : Bool) : Tokens atStart [] []
  | token {atStart : Bool} {token token' : Token} {tokens tokens' : List Token}
      (lexeme : token'.lexeme = token.lexeme) (place : e.At token.start token'.start)
      (kept : ∀ d, token.directive? = some d → e.keeps d = true)
      (rest : Tokens (token.lexeme.leavesAtStart atStart) tokens tokens') :
      Tokens atStart (token :: tokens) (token' :: tokens')
  | blanks {d : PendingDirective} {token : Token} {blanks tokens tokens' : List Token}
      (directive : token.directive? = some d) (gone : e.keeps d = false)
      (blank : ∀ token ∈ blanks, token.lexeme = .blank) (rest : Tokens true tokens tokens') :
      Tokens true (token :: tokens) (blanks ++ tokens')

/-- The directives that wait in the pass over the edited text. -/
inductive Waits : List PendingDirective → List PendingDirective → Prop
  | nil : Waits [] []
  | kept {d d' : PendingDirective} {ds ds' : List PendingDirective} (kept : e.keeps d = true)
      (line : d'.line = d.line) (place : e.At d.start d'.start) (rest : Waits ds ds') :
      Waits (d :: ds) (d' :: ds')
  | gone {d : PendingDirective} {ds ds' : List PendingDirective} (gone : e.keeps d = false)
      (rest : Waits ds ds') : Waits (d :: ds) ds'

/-- An open node is kept, and open in the pass over the edited text with the same parentheses. -/
def OpenAt (t : Tree) (level level' : Level) : Prop :=
  t.keeps e.keep level.node = true ∧ level' = ⟨rank (t.keeps e.keep) level.node, level.parens⟩

/-- The state of the pass over the edited text follows that of the pass over the text. -/
structure Follows (atStart : Bool) (s s' : Outline) : Prop where
  tree : Thins (s.tree.keeps e.keep) e.move s.tree s'.tree
  level : e.OpenAt s.tree s.level s'.level
  outer : List.Forall₂ (e.OpenAt s.tree) s.outer s'.outer
  header : SameHeader s.header s'.header
  blank : atStart = true → s'.header = [] ∨ s'.header.head? = some ' '
  headerStart : Option.Rel e.At s.headerStart s'.headerStart
  pending : e.Waits s.pending s'.pending

variable {e} {atStart : Bool} {s s' : Outline} {t u : Tree} {pos pos' : Nat} {label label' : Label}

/-- An edit under which no directive is gone moves the tokens one by one. -/
theorem Tokens.of_forall₂ (hkeep : ∀ label, e.keep label = true) {tokens tokens' : List Token}
    (h : List.Forall₂ (fun token token' => token'.lexeme = token.lexeme ∧
      e.At token.start token'.start) tokens tokens') (atStart : Bool) :
    e.Tokens atStart tokens tokens' := by
  induction h generalizing atStart with
  | nil => exact .nil atStart
  | cons hmoved _ ih => exact .token hmoved.1 hmoved.2 (fun _ _ => hkeep _) (ih _)

/-! ## Waiting directives -/

theorem Waits.append {ds ds' es es' : List PendingDirective} (h : e.Waits ds ds')
    (h' : e.Waits es es') : e.Waits (ds ++ es) (ds' ++ es') := by
  induction h with
  | nil => exact h'
  | kept kept line place _ ih => exact .kept kept line place ih
  | gone gone _ ih => exact .gone gone ih

theorem move_directiveLabel {d d' : PendingDirective} (hline : d'.line = d.line)
    (hplace : e.At d.start d'.start) :
    e.move (directiveLabel e.lines d) = directiveLabel e.lines' d' := by
  unfold directiveLabel
  rw [hline]
  exact hplace _ _

/-! ## Places of headers -/

/-- Where a header starts, or would start at what comes next. -/
theorem at_getD {start start' : Option Nat} (h : Option.Rel e.At start start')
    (hplace : e.At pos pos') : e.At (start.getD pos) (start'.getD pos') := by
  cases h with
  | some hat => exact hat
  | none => exact hplace

theorem rel_orElse {start start' : Option Nat} (h : Option.Rel e.At start start')
    (hplace : e.At pos pos') : Option.Rel e.At (start <|> some pos) (start' <|> some pos') := by
  cases h with
  | some hat => exact .some hat
  | none => exact .some hplace

/-! ## Nodes that stay where they are -/

/-- The kept nodes of `t` are kept in `u` and have their numbers there. -/
def Stays (e : Edit) (t u : Tree) : Prop :=
  ∀ i, t.keeps e.keep i = true →
    u.keeps e.keep i = true ∧ rank (u.keeps e.keep) i = rank (t.keeps e.keep) i

theorem Stays.refl (e : Edit) (t : Tree) : e.Stays t t := fun _ hi => ⟨hi, rfl⟩

theorem Stays.trans {v : Tree} (h : e.Stays t u) (h' : e.Stays u v) : e.Stays t v := by
  intro i hi
  obtain ⟨hkeeps, hrank⟩ := h i hi
  obtain ⟨hkeeps', hrank'⟩ := h' i hkeeps
  exact ⟨hkeeps', hrank'.trans hrank⟩

theorem stays_add (e : Edit) (t : Tree) (label : Label) (parent : Option Nat) :
    e.Stays t (t.add label parent) := by
  intro i hi
  have hlt := lt_size_of_keeps hi
  exact ⟨by rwa [keeps_add_of_lt hlt], rank_keeps_add_of_le (Nat.le_of_lt hlt)⟩

theorem stays_flush (e : Edit) (node : Nat) (ds : List PendingDirective) (t : Tree) :
    e.Stays t (ds.foldl (Outline.addDirective e.lines node) t) := by
  induction ds generalizing t with
  | nil => exact Stays.refl e t
  | cons d ds ih => exact (stays_add e t _ _).trans (ih _)

theorem OpenAt.stays {level level' : Level} (h : e.OpenAt t level level') (hstays : e.Stays t u) :
    e.OpenAt u level level' := by
  obtain ⟨hkeeps, rfl⟩ := h
  obtain ⟨hkeeps', hrank⟩ := hstays level.node hkeeps
  exact ⟨hkeeps', by rw [hrank]⟩

theorem forall₂_stays {outer outer' : List Level} (h : List.Forall₂ (e.OpenAt t) outer outer')
    (hstays : e.Stays t u) : List.Forall₂ (e.OpenAt u) outer outer' :=
  h.imp fun _ _ hopen => hopen.stays hstays

/-! ## Changes to the states -/

/-- The directives that wait are placed below the same node. -/
theorem thins_flush {ds ds' : List PendingDirective} {node : Nat} {t' : Tree}
    (hwaits : e.Waits ds ds') (h : Thins (t.keeps e.keep) e.move t t')
    (hnode : t.keeps e.keep node = true) :
    let u := ds.foldl (Outline.addDirective e.lines node) t
    Thins (u.keeps e.keep) e.move u
      (ds'.foldl (Outline.addDirective e.lines' (rank (t.keeps e.keep) node)) t') := by
  -- the trees grow with each directive, and the number of the node stays what it is
  induction hwaits generalizing t t' with
  | nil => exact h
  | @kept d d' ds ds' kept line place _ ih =>
    have hadd := h.add_keeps kept hnode
    obtain ⟨hnode', hrank⟩ := stays_add e t (directiveLabel e.lines d) (some node) node hnode
    have := ih hadd hnode'
    rw [hrank, move_directiveLabel line place] at this
    exact this
  | @gone d ds ds' gone _ ih =>
    have hadd := h.skip_keeps gone (some node)
    obtain ⟨hnode', hrank⟩ := stays_add e t (directiveLabel e.lines d) (some node) node hnode
    have := ih hadd hnode'
    rw [hrank] at this
    exact this

namespace Follows

theorem flush (h : e.Follows atStart s s') :
    e.Follows atStart (s.flush e.lines) (s'.flush e.lines') := by
  obtain ⟨hnode, hlevel⟩ := h.level
  have hstays := stays_flush e s.level.node s.pending s.tree
  constructor
  · have := thins_flush h.pending h.tree hnode
    rw [← show s'.level.node = rank (s.tree.keeps e.keep) s.level.node by rw [hlevel]] at this
    exact this
  · exact h.level.stays hstays
  · exact forall₂_stays h.outer hstays
  · exact h.header
  · exact h.blank
  · exact h.headerStart
  · exact .nil

theorem context_eq (h : e.Follows atStart s s') : s'.context = s.context := by
  obtain ⟨hnode, hlevel⟩ := h.level
  rw [Outline.context, Outline.context, hlevel, Tree.kind?, Tree.kind?,
    h.tree.label?_eq _ (lt_size_of_keeps hnode) hnode, Option.map_map]
  congr 1
  apply Option.map_congr
  intro label _
  exact e.kind_move label

theorem descend (h : e.Follows atStart s s') (hkeep : e.keep label = true)
    (hlabel : e.move label = label') : e.Follows atStart (s.descend label) (s'.descend label') := by
  obtain ⟨hnode, hlevel⟩ := h.level
  have hstays := stays_add e s.tree label (some s.level.node)
  constructor
  · have := h.tree.add_keeps hkeep hnode
    rw [hlabel] at this
    rw [Outline.descend, Outline.descend, hlevel]
    exact this
  · refine ⟨?_, ?_⟩
    · show (s.tree.add label (some s.level.node)).keeps e.keep s.tree.size = true
      rw [keeps_add_self, hkeep]
    · show (⟨s'.tree.size, 0⟩ : Level) =
        ⟨rank ((s.tree.add label (some s.level.node)).keeps e.keep) s.tree.size, 0⟩
      rw [rank_keeps_add_of_le (Nat.le_refl _), h.tree.size_eq]
  · exact .cons (h.level.stays hstays) (forall₂_stays h.outer hstays)
  · exact h.header
  · exact h.blank
  · exact h.headerStart
  · exact h.pending

theorem deepen (h : e.Follows atStart s s') (hkeep : e.keep label = true)
    (hlabel : e.move label = label') : e.Follows atStart (s.deepen label) (s'.deepen label') := by
  have hdescend := h.descend hkeep hlabel
  constructor
  · exact hdescend.tree
  · exact hdescend.level
  · exact forall₂_stays h.outer (stays_add e s.tree label (some s.level.node))
  · exact h.header
  · exact h.blank
  · exact h.headerStart
  · exact h.pending

/-- The headers may be replaced by two that mean the same. -/
theorem withHeader (h : e.Follows atStart s s') {header header' : List Char}
    {start start' : Option Nat} {atStart' : Bool} (hheader : SameHeader header header')
    (hblank : atStart' = true → header' = [] ∨ header'.head? = some ' ')
    (hstart : Option.Rel e.At start start') :
    e.Follows atStart' { s with header, headerStart := start }
      { s' with header := header', headerStart := start' } :=
  ⟨h.tree, h.level, h.outer, hheader, hblank, hstart, h.pending⟩

/-- An ended header is the same everywhere. -/
theorem endHeader (h : e.Follows atStart s s') (atStart' : Bool) :
    e.Follows atStart' s.endHeader s'.endHeader :=
  h.withHeader (SameHeader.refl []) (fun _ => .inl rfl) .none

theorem addBlank (h : e.Follows atStart s s') (atStart' : Bool) :
    e.Follows atStart' s.addBlank s'.addBlank :=
  h.withHeader (h.header.append [' ']) (fun _ => .inr rfl) h.headerStart

theorem addText (h : e.Follows atStart s s') (hplace : e.At pos pos') (text : List Char) :
    e.Follows false (s.addText pos text) (s'.addText pos' text) :=
  h.withHeader (h.header.append text.reverse) nofun (rel_orElse h.headerStart hplace)

theorem setParens (h : e.Follows atStart s s') (parens : Nat) :
    e.Follows atStart { s with level := { s.level with parens } }
      { s' with level := { s'.level with parens } } := by
  obtain ⟨hnode, hlevel⟩ := h.level
  have hopen : e.OpenAt s.tree { s.level with parens } { s'.level with parens } :=
    ⟨hnode, by rw [hlevel]⟩
  exact ⟨h.tree, hopen, h.outer, h.header, h.blank, h.headerStart, h.pending⟩

theorem parens_eq (h : e.Follows atStart s s') : s'.level.parens = s.level.parens := by
  rw [h.level.2]

theorem countParen (h : e.Follows atStart s s') (c : Char) :
    e.Follows atStart (s.countParen c) (s'.countParen c) := by
  unfold Outline.countParen
  rw [h.parens_eq]
  split
  · exact h.setParens _
  · split
    · exact h.setParens _
    · exact h

theorem addCode (h : e.Follows atStart s s') (hplace : e.At pos pos') (c : Char) :
    e.Follows false (s.addCode pos c) (s'.addCode pos' c) := by
  unfold Outline.addCode
  rw [h.parens_eq]
  split
  · exact h.endHeader false
  · exact (h.countParen c).addText hplace [c]

theorem closeBrace (h : e.Follows atStart s s') :
    e.Follows false s.closeBrace s'.closeBrace := by
  have houter := h.outer
  unfold Outline.closeBrace
  generalize hs : s.outer = outer at houter
  generalize hs' : s'.outer = outer' at houter
  cases houter with
  | nil => exact h.endHeader false
  | cons hlevel houter =>
    apply @Follows.endHeader _ atStart
    exact ⟨h.tree, hlevel, houter, h.header, h.blank, h.headerStart, h.pending⟩

theorem openBrace (h : e.Follows atStart s s') (hplace : e.At pos pos') :
    e.Follows false (s.openBrace e.lines pos) (s'.openBrace e.lines' pos') := by
  have howner : e.move (s.owner e.lines pos) = s'.owner e.lines' pos' := by
    unfold Outline.owner ownerLabel
    rw [h.context_eq, ← h.header.normalHeader]
    exact at_getD h.headerStart hplace _ _
  have hblock : e.move (blockLabel e.lines pos) = blockLabel e.lines' pos' := hplace _ _
  -- the kind decides whether a block is opened, and is the same
  have hkind : (s'.owner e.lines' pos').kind = (s.owner e.lines pos).kind := by
    rw [← howner, e.kind_move]
  have hkeepOwner : e.keep (s.owner e.lines pos) = true := by
    apply e.keep_of_isDirective
    exact Kind.isDirective_of_mayHold (mayHold_headerKind s.context _)
  have hkeepBlock : e.keep (blockLabel e.lines pos) = true := e.keep_of_isDirective _ rfl
  rw [Outline.openBrace_eq, Outline.openBrace_eq]
  apply @Follows.endHeader _ atStart
  apply Follows.flush
  unfold Outline.enter
  rw [hkind]
  split
  · exact (h.descend hkeepOwner howner).deepen hkeepBlock hblock
  · exact h.descend hkeepOwner howner

/-- A directive waits in the pass over the edited text too, if it is kept. -/
theorem wait (h : e.Follows atStart s s') {ds ds' : List PendingDirective}
    (hwaits : e.Waits ds ds') : e.Follows atStart { s with pending := s.pending ++ ds }
      { s' with pending := s'.pending ++ ds' } :=
  ⟨h.tree, h.level, h.outer, h.header, h.blank, h.headerStart, h.pending.append hwaits⟩

/-- Nothing is known of the header if no directive may begin. -/
theorem close (h : e.Follows atStart s s') : e.Follows false s s' :=
  h.withHeader h.header nofun h.headerStart

/-- A token at its new place keeps the states in step. -/
theorem step (h : e.Follows atStart s s') {token token' : Token}
    (hlexeme : token'.lexeme = token.lexeme) (hplace : e.At token.start token'.start)
    (hkept : ∀ d, token.directive? = some d → e.keeps d = true) :
    e.Follows (token.lexeme.leavesAtStart atStart) (s.step e.lines token)
      (s'.step e.lines' token') := by
  obtain ⟨pos, lexeme⟩ := token
  obtain ⟨pos', lexeme'⟩ := token'
  obtain rfl : lexeme' = lexeme := hlexeme
  cases lexeme' with
  | newline => exact h.addBlank true
  | blank => exact h.addBlank atStart
  | directive line => exact h.wait (.kept (hkept ⟨pos, line⟩ rfl) rfl hplace .nil)
  | lineComment => exact h.close
  | blockComment => exact h.addBlank false
  | stringLiteral => exact h.flush.addText hplace _
  | charLiteral => exact h.flush.addText hplace _
  | code c =>
    by_cases hopen : c = '\x7b'
    · subst hopen
      exact h.openBrace hplace
    by_cases hclose : c = '\x7d'
    · subst hclose
      exact h.flush.closeBrace
    rw [Outline.step_other hopen hclose, Outline.step_other hopen hclose]
    exact h.flush.addCode hplace c

/-- Blanks where a directive may begin make no difference. -/
theorem blanks (h : e.Follows true s s') {blanks : List Token}
    (hblank : ∀ token ∈ blanks, token.lexeme = .blank) :
    e.Follows true s (blanks.foldl (Outline.step e.lines') s') := by
  induction blanks generalizing s' with
  | nil => exact h
  | cons token blanks ih =>
    have hstep : s'.step e.lines' token = s'.addBlank := by
      unfold Outline.step
      rw [hblank token List.mem_cons_self]
    apply ih
    · rw [hstep]
      have hheader := h.header.trans (SameHeader.space (h.blank rfl))
      exact h.withHeader hheader (fun _ => .inr rfl) h.headerStart
    · exact fun token hmem => hblank token (List.mem_cons_of_mem _ hmem)

/-- Two passes over the tokens of a text and of the edited text stay in step. -/
theorem run {tokens tokens' : List Token} (htokens : e.Tokens atStart tokens tokens')
    (h : e.Follows atStart s s') : ∃ atEnd, e.Follows atEnd
      (tokens.foldl (Outline.step e.lines) s) (tokens'.foldl (Outline.step e.lines') s') := by
  induction htokens generalizing s s' with
  | nil atStart => exact ⟨atStart, h⟩
  | token lexeme place kept _ ih => exact ih (h.step lexeme place kept)
  | @blanks d token blanks tokens tokens' directive gone blank _ ih =>
    have hstep : s.step e.lines token = { s with pending := s.pending ++ [d] } := by
      obtain ⟨hstart, hline⟩ := Token.directive?_eq_some.1 directive
      unfold Outline.step
      rw [hline, hstart]
    -- the directive waits in the one pass, while the other takes the blanks
    rw [List.foldl_append]
    apply ih
    rw [hstep]
    apply Follows.blanks _ blank
    have hwait := h.wait (.gone gone .nil)
    rwa [List.append_nil] at hwait

end Follows

/-- Before the first token the states are in step. -/
theorem follows_start (hmove : e.move ⟨.compilationUnit, 0, 1, ""⟩ = ⟨.compilationUnit, 0, 1, ""⟩) :
    e.Follows true Outline.start Outline.start := by
  have hkeep : e.keep ⟨.compilationUnit, 0, 1, ""⟩ = true := e.keep_of_isDirective _ rfl
  have hroot : (Tree.empty.add ⟨.compilationUnit, 0, 1, ""⟩ none).keeps e.keep 0 = true := by
    rw [show 0 = Tree.empty.size from rfl, keeps_add_self, hkeep]
  constructor
  · have hself : (Tree.empty.add ⟨.compilationUnit, 0, 1, ""⟩ none).keeps e.keep Tree.empty.size =
        true := hroot
    have hnone : ∀ p ∈ (none : Option Nat), p < Tree.empty.size ∧
        (Tree.empty.add ⟨.compilationUnit, 0, 1, ""⟩ none).keeps e.keep p = true := nofun
    have := (Thins.empty _ e.move).add hself ⟨.compilationUnit, 0, 1, ""⟩ hnone
    rwa [hmove] at this
  · exact ⟨hroot, rfl⟩
  · exact .nil
  · exact SameHeader.refl []
  · intro _
    exact .inl rfl
  · exact .none
  · exact .nil

/-- The outline follows the edit: it is thinned by the directives that are gone, and its labels
read as they do at their new places. -/
theorem thins_outlineWith {text text' : List Char} (htokens : e.Tokens true (lex text) (lex text'))
    (hmove : e.move ⟨.compilationUnit, 0, 1, ""⟩ = ⟨.compilationUnit, 0, 1, ""⟩) :
    Thins ((outlineWith e.lines text).keeps e.keep) e.move (outlineWith e.lines text)
      (outlineWith e.lines' text') := by
  obtain ⟨atEnd, hrun⟩ := (follows_start hmove).run htokens
  exact hrun.flush.tree

end Edit

end RegionScope.Source
