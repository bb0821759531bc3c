import RegionScope.Proofs.Source.Enclosures

/-!
# Where directives are placed

The owners of an outline stand for the pairs of braces of the text, one for each pair and in the
same order. They nest as the pairs do, and a directive lies in those pairs that the first
significant offset behind it lies in (`directive_placement`).

The pass keeps the open nodes equal to the open pairs, and the ancestors of every owner and of
every directive equal to what the pairs seen so far say (`Placement`). Directives that wait are
placed at the next significant token, so all of them agree on the offset that decides.
-/

namespace RegionScope.Source

open RegionScope.Text RegionScope.Tree

/-- What the pass keeps true of its tree and its open nodes. The directives in the tree are those
that are decided by an offset below `bound`. -/
structure Placement (text : List Char) (placed opened : List Enclosure) (bound : Nat) (t : Tree)
    (node : Nat) (around : List Nat) : Prop where
  kinds : WellKinded t node around
  stacked : Stacked t opened (node :: around)
  fits : ∀ e ∈ placed, e.Fits t
  located : Located text placed bound t

namespace Placement

variable {text : List Char} {lines : LineIndex} {placed opened : List Enclosure} {bound : Nat}
  {f : Frontier}

theorem mono {t : Tree} {node : Nat} {around : List Nat}
    (h : Placement text placed opened bound t node around) {bound' : Nat} (hle : bound ≤ bound') :
    Placement text placed opened bound' t node around :=
  ⟨h.kinds, h.stacked, h.fits, h.located.mono hle⟩

theorem start (text : List Char) (line : Int) :
    Placement text [] [] 0 (Tree.empty.add ⟨.compilationUnit, 0, line, ""⟩ none) 0 [] := by
  have hlabel : (Tree.empty.add ⟨.compilationUnit, 0, line, ""⟩ none).label? 0 =
      some ⟨.compilationUnit, 0, line, ""⟩ := label?_add_self
  have hsize : (Tree.empty.add ⟨.compilationUnit, 0, line, ""⟩ none).size = 1 := size_add ..
  refine ⟨WellKinded.start line, Stacked.root, List.forall_mem_nil _, ?_⟩
  refine ⟨?_, List.forall_mem_nil _, ?_⟩
  · rw [hsize, List.range_one, List.filter_cons, isOwner_zero]
    rfl
  · intro i label hi
    have hlt := Located.lt_size_of_directiveLabel? hi
    obtain rfl : i = 0 := by omega
    rw [directiveLabel?, hlabel] at hi
    cases hi

/-- The waiting directives are placed in what the offset lies in that decides them. -/
theorem flush (lines : LineIndex)
    (h : Placement text placed opened bound f.tree f.current f.around) {pos : Nat}
    (hopened : enclosing placed pos = opened) (hbound : pos < bound)
    (hpending : ∀ d ∈ f.pending, nextSignificant text d.start = pos) :
    Placement text placed opened bound (f.flush lines).tree (f.flush lines).current
      (f.flush lines).around := by
  refine (Frontier.flush_induction (P := fun g =>
    Placement text placed opened bound g.tree g.current g.around ∧
      ∀ d ∈ g.pending, nextSignificant text d.start = pos) ?_ ⟨h, hpending⟩).1
  intro g d rest hwaiting ⟨h, hpending⟩
  rw [hwaiting] at hpending
  -- all that wait go to one place, so placing the first changes nothing for the rest
  obtain ⟨hd, hrest⟩ := List.forall_mem_cons.1 hpending
  obtain ⟨kind, hkind, -⟩ := h.kinds.isOpen g.current List.mem_cons_self
  have hstart : (directiveLabel lines d).start.toNat = d.start := Int.toNat_natCast d.start
  refine ⟨⟨?_, h.stacked.add _ _, fun e he => (h.fits e he).add _ _, ?_⟩, hrest⟩
  · exact (WellKinded.treeInvariant lines).place _ _ _ d h.kinds
  · refine h.located.directive hkind rfl ?_ ?_
    · rw [hstart, hd, hopened, h.stacked.lineage]
    · rw [hstart, hd]
      exact hbound

/-- With nothing open but the root nothing is left. -/
theorem leave_nil (h : Placement text placed [] bound f.tree f.current f.around) :
    Placement text placed [] bound f.leave.tree f.leave.current f.leave.around := by
  obtain ⟨tree, current, around, pending, headerStart⟩ := f
  cases around with
  | nil => exact h
  | cons next around =>
    obtain ⟨e, outer, heq, -⟩ := h.stacked.pop
    cases heq

/-- The innermost open enclosure is left. -/
theorem leave_cons {e : Enclosure}
    (h : Placement text placed (e :: opened) bound f.tree f.current f.around) :
    Placement text placed opened bound f.leave.tree f.leave.current f.leave.around := by
  have hkinds := (WellKinded.treeInvariant (.ofText text)).leave h.kinds
  obtain ⟨tree, current, around, pending, headerStart⟩ := f
  obtain ⟨-, hstacked, hfits, hlocated⟩ := h
  cases around with
  | nil => cases hstacked.eq_nil
  | cons next around =>
    obtain ⟨e', outer, heq, hinner⟩ := hstacked.pop
    obtain ⟨rfl, rfl⟩ := List.cons.inj heq
    exact ⟨hkinds, hinner, hfits, hlocated⟩

section Enter

variable {label : Label} {pair : BracePair}
  (h : Placement text placed opened bound f.tree f.current f.around)
  (hlabel : label.kind.isDirective = false)
  (hopened : strictlyEnclosing placed pair.opening = opened)
  (hbefore : ∀ e ∈ placed, e.pair.opening < pair.opening) (hbound : bound ≤ pair.opening)

include h

/-- The current node is open, and its lineage is what the next brace lies strictly in. -/
theorem current_open (hopened : strictlyEnclosing placed pair.opening = opened) :
    ∃ kind, f.tree.kind? f.current = some kind ∧ kind.ownsBlock = false ∧
      f.tree.lineage f.current = nodesOf (strictlyEnclosing placed pair.opening) := by
  obtain ⟨kind, hkind, hopen⟩ := h.kinds.isOpen f.current List.mem_cons_self
  refine ⟨kind, hkind, (Kind.isOpen_iff.1 hopen).1, ?_⟩
  rw [hopened, h.stacked.lineage]

include hlabel hopened hbefore hbound

/-- An owner that owns no block opens its pair alone. -/
theorem descend (howns : label.kind.ownsBlock = false)
    (hkinds : WellKinded (f.descend label).tree (f.descend label).current
      (f.descend label).around) :
    ∃ e, e.pair = pair ∧ Placement text (placed ++ [e]) (e :: opened) bound
      (f.descend label).tree (f.descend label).current (f.descend label).around := by
  obtain ⟨kind, hkind, hnot, hlineage⟩ := h.current_open hopened
  have hparent : (f.tree.add label (some f.current)).parent? f.tree.size = some f.current :=
    parent?_add_self (lt_size_of_kind? hkind)
  refine ⟨⟨f.tree.size, none, pair⟩, rfl, hkinds, ?_, ?_, ?_⟩
  · exact .push (h.stacked.add _ _) hparent fun b hb => by cases hb
  · intro e he
    rcases List.mem_append.1 he with hold | hnew
    · exact (h.fits e hold).add _ _
    · obtain rfl := List.mem_singleton.1 hnew
      exact ⟨⟨label.kind, kind?_add_self, howns⟩, fun b hb => by cases hb⟩
  · exact h.located.owner hkind hnot hlabel rfl hlineage hbefore hbound

/-- An owner of a block opens its pair together with the block. -/
theorem descend_block (howns : label.kind.ownsBlock = true)
    (hkinds : let g := (f.descend label).deepen (blockLabel lines pair.opening)
      WellKinded g.tree g.current g.around) :
    let g := (f.descend label).deepen (blockLabel lines pair.opening)
    ∃ e, e.pair = pair ∧
      Placement text (placed ++ [e]) (e :: opened) bound g.tree g.current g.around := by
  obtain ⟨kind, hkind, hnot, hlineage⟩ := h.current_open hopened
  have howner : (f.tree.add label (some f.current)).kind? f.tree.size = some label.kind :=
    kind?_add_self
  have hparent : (f.tree.add label (some f.current)).parent? f.tree.size = some f.current :=
    parent?_add_self (lt_size_of_kind? hkind)
  have hsize := size_add f.tree label (some f.current)
  have hlt : f.tree.size < (f.tree.add label (some f.current)).size := by omega
  -- the block stands below the owner, and both are in the tree
  have hblock : (((f.descend label).deepen (blockLabel lines pair.opening)).tree).parent?
      (f.tree.size + 1) = some f.tree.size := by
    rw [← hsize]
    exact parent?_add_self hlt
  have hfits : Enclosure.Fits ((f.descend label).deepen (blockLabel lines pair.opening)).tree
      ⟨f.tree.size, some (f.tree.size + 1), pair⟩ := by
    refine ⟨⟨label.kind, (kind?_add_of_lt hlt).trans howner, howns⟩, fun b hb => ?_⟩
    obtain rfl := Option.some.inj hb
    exact hblock
  refine ⟨⟨f.tree.size, some (f.tree.size + 1), pair⟩, rfl, hkinds, ?_, ?_, ?_⟩
  · show Stacked _ _ ((f.tree.add label (some f.current)).size :: f.current :: f.around)
    rw [hsize]
    refine .push ((h.stacked.add _ _).add _ _) ?_ hfits.parent
    exact (parent?_add_of_lt hlt).trans hparent
  · intro e he
    rcases List.mem_append.1 he with hold | hnew
    · exact ((h.fits e hold).add _ _).add _ _
    · obtain rfl := List.mem_singleton.1 hnew
      exact hfits
  · have hlocated := h.located.owner (e := ⟨f.tree.size, some (f.tree.size + 1), pair⟩) hkind hnot
      hlabel rfl hlineage hbefore hbound
    exact hlocated.block howner howns rfl

variable (pair) in
/-- A brace enters the pair that it opens, with a block if the kind of the owner asks for it. -/
theorem enter
    (hkinds : let g := f.enter lines label pair.opening; WellKinded g.tree g.current g.around) :
    let g := f.enter lines label pair.opening
    ∃ e, e.pair = pair ∧
      Placement text (placed ++ [e]) (e :: opened) bound g.tree g.current g.around := by
  by_cases howns : label.kind.ownsBlock = true
  · rw [Frontier.enter_of_ownsBlock howns] at hkinds ⊢
    exact h.descend_block hlabel hopened hbefore hbound howns hkinds
  · rw [Bool.not_eq_true] at howns
    rw [Frontier.enter_of_not_ownsBlock howns] at hkinds ⊢
    exact h.descend hlabel hopened hbefore hbound howns hkinds

end Enter

end Placement

/-! ## The pass places every directive -/

/-- What is true between two tokens of a pass over a text. -/
def Placing (text : List Char) (rest : List Token) (f : Frontier) : Prop :=
  ∃ placed opened, Scan text.length rest placed opened ∧
    placed.map (·.pair) ++ bracePairsOf text.length rest = bracePairs text ∧
    Placement text placed opened (startOr text.length rest) f.tree f.current f.around ∧
    ∀ d ∈ f.pending, nextSignificant text d.start = significantOr text.length rest

namespace Placing

variable {text : List Char} {lines : LineIndex} {before rest : List Token} {token : Token}
  {f : Frontier}

theorem start (text : List Char) : Placing text (lex text) Outline.start.frontier := by
  refine ⟨[], [], Scan.start _ (ordered_lex text), rfl, ?_, List.forall_mem_nil _⟩
  exact (Placement.start text 1).mono (Nat.zero_le _)

/-- A token that is not significant decides about no directive. -/
theorem skip (h : Placing text (token :: rest) f) (hsig : token.lexeme.isSignificant = false) :
    Placing text rest f := by
  obtain ⟨placed, opened, hscan, hpairs, hplacement, hpending⟩ := h
  -- braces are significant, so the token is none
  have hopens : token.opensBrace = false := by
    apply Bool.eq_false_iff.2
    intro hopens
    rw [Token.isSignificant_of_opensBrace hopens] at hsig
    cases hsig
  have hcloses : token.closesBrace = false := by
    apply Bool.eq_false_iff.2
    intro hcloses
    rw [Token.isSignificant_of_closesBrace hcloses] at hsig
    cases hsig
  refine ⟨placed, opened, hscan.pass hopens hcloses, ?_, ?_, ?_⟩
  · rw [← hpairs, bracePairsOf_cons_of_not_opensBrace hopens]
  · exact hplacement.mono (Nat.le_of_lt hscan.ordered.start_lt_startOr)
  · intro d hd
    rw [hpending d hd, significantOr_cons_of_not_isSignificant hsig]

/-- A directive waits for the first significant token behind it. -/
theorem wait (h : Placing text (token :: rest) f) (hsplit : before ++ token :: rest = lex text)
    {d : PendingDirective} (hd : token.directive? = some d) :
    Placing text rest { f with pending := f.pending ++ [d] } := by
  obtain ⟨hstart, hline⟩ := Token.directive?_eq_some.1 hd
  have hsig : token.lexeme.isSignificant = false := by
    rw [hline]
    rfl
  obtain ⟨placed, opened, hscan, hpairs, hplacement, hpending⟩ := h.skip hsig
  refine ⟨placed, opened, hscan, hpairs, hplacement, ?_⟩
  intro d' hd'
  rcases List.mem_append.1 hd' with hold | hnew
  · exact hpending d' hold
  · obtain rfl := List.mem_singleton.1 hnew
    rw [← hstart, nextSignificant_eq hsplit]

/-- A significant token decides about the directives that wait for it. -/
theorem flush (lines : LineIndex) {placed opened : List Enclosure}
    (hscan : Scan text.length (token :: rest) placed opened)
    (hplacement : Placement text placed opened (startOr text.length (token :: rest)) f.tree
      f.current f.around)
    (hpending : ∀ d ∈ f.pending,
      nextSignificant text d.start = significantOr text.length (token :: rest))
    (hsig : token.lexeme.isSignificant = true) :
    Placement text placed opened (startOr text.length rest) (f.flush lines).tree
      (f.flush lines).current (f.flush lines).around := by
  have hlt := hscan.ordered.start_lt_startOr
  apply (hplacement.mono (Nat.le_of_lt hlt)).flush lines hscan.enclosing_startOr hlt
  intro d hd
  rw [hpending d hd, significantOr_cons_of_isSignificant hsig, startOr_cons]

theorem pass (h : Placing text (token :: rest) f) (hsig : token.lexeme.isSignificant = true)
    (hopens : token.opensBrace = false) (hcloses : token.closesBrace = false)
    (start : Option Nat) : Placing text rest ((f.flush lines).withHeaderStart start) := by
  obtain ⟨placed, opened, hscan, hpairs, hplacement, hpending⟩ := h
  refine ⟨placed, opened, hscan.pass hopens hcloses, ?_, flush lines hscan hplacement hpending hsig,
    List.forall_mem_nil _⟩
  rw [← hpairs, bracePairsOf_cons_of_not_opensBrace hopens]

theorem close (h : Placing text (token :: rest) f) (hcloses : token.closesBrace = true)
    (start : Option Nat) : Placing text rest ((f.flush lines).leave.withHeaderStart start) := by
  obtain ⟨placed, opened, hscan, hpairs, hplacement, hpending⟩ := h
  have hopens := Token.opensBrace_of_closesBrace hcloses
  have hsig := Token.isSignificant_of_closesBrace hcloses
  have hflush := flush lines hscan hplacement hpending hsig
  have hpending' : ∀ d ∈ (f.flush lines).leave.pending,
      nextSignificant text d.start = significantOr text.length rest := by
    rw [Frontier.pending_leave]
    exact List.forall_mem_nil _
  rw [bracePairsOf_cons_of_not_opensBrace hopens] at hpairs
  -- a brace with nothing open is passed over
  cases opened with
  | nil => exact ⟨placed, [], hscan.close_nil, hpairs, hflush.leave_nil, hpending'⟩
  | cons e opened =>
    exact ⟨placed, opened, hscan.close hopens hcloses, hpairs, hflush.leave_cons, hpending'⟩

theorem openOwner (h : Placing text (token :: rest) f) (hopens : token.opensBrace = true)
    (header : List Char) (start : Nat) (headerStart : Option Nat) :
    Placing text rest (((f.enter lines (ownerLabel lines f.context header start)
      token.start).flush lines).withHeaderStart headerStart) := by
  obtain ⟨placed, opened, hscan, hpairs, hplacement, hpending⟩ := h
  have hsig := Token.isSignificant_of_opensBrace hopens
  have hlt := hscan.ordered.start_lt_startOr
  have hkinds := (WellKinded.treeInvariant lines).enter hplacement.kinds header start token.start
  have hlabel : (ownerLabel lines f.context header start).kind.isDirective = false :=
    Kind.isDirective_of_mayHold (mayHold_headerKind f.context header)
  obtain ⟨e, hpair, henter⟩ := hplacement.enter
    ⟨token.start, closingOffset text.length 0 rest⟩ hlabel
    (hscan.strictlyEnclosing_start hopens) hscan.opening_lt (Nat.le_refl _) hkinds
  have hscan' := hscan.descend hopens hpair
  -- the directives that wait in front of the brace stand in the pair that it opens
  have hopened : enclosing (placed ++ [e]) token.start = e :: opened := by
    have hstart : token.start = e.pair.opening := by rw [hpair]
    have hnext := hscan'.startOr_le_closing List.mem_cons_self
    have hle : e.pair.opening ≤ e.pair.closing :=
      Nat.le_of_lt (Nat.lt_of_lt_of_le (hstart ▸ hlt) hnext)
    rw [hstart, enclosing_append_opening hle, ← hstart]
    exact congrArg (e :: ·) hscan.enclosing_startOr
  refine ⟨placed ++ [e], e :: opened, hscan', ?_, ?_, List.forall_mem_nil _⟩
  · rw [← hpairs, bracePairsOf_cons_of_opensBrace hopens, List.map_append, List.append_assoc,
      List.map_singleton, hpair, List.singleton_append]
  · apply (henter.mono (Nat.le_of_lt hlt)).flush lines hopened hlt
    intro d hd
    rw [Frontier.pending_enter] at hd
    rw [hpending d hd, significantOr_cons_of_isSignificant hsig]

theorem move (hsplit : before ++ token :: rest = lex text) (h : Placing text (token :: rest) f)
    {g : Frontier} (hmove : Frontier.Move lines token f g) : Placing text rest g := by
  cases hmove with
  | skip hsig => exact h.skip hsig
  | wait hd => exact h.wait hsplit hd
  | pass hsig hopens hcloses => exact h.pass hsig hopens hcloses _
  | close hcloses => exact h.close hcloses none
  | openOwner header hopens => exact h.openOwner hopens header _ none

theorem run (text : List Char) (lines : LineIndex) :
    Placing text [] (Outline.run lines (lex text)).frontier :=
  Frontier.run_induction (P := fun _ rest f => Placing text rest f) (lex text) (start text)
    fun _ _ _ _ _ hsplit h hmove => h.move hsplit hmove

end Placing

/-- What is known about the enclosures of a whole text at the end of the pass. -/
structure Encloses (text : List Char) (placed : List Enclosure) : Prop where
  pairs : placed.map (·.pair) = bracePairs text
  fits : ∀ e ∈ placed, e.Fits (outline text)
  located : Located text placed (text.length + 1) (outline text)

theorem exists_encloses (text : List Char) : ∃ placed, Encloses text placed := by
  obtain ⟨placed, opened, hscan, hpairs, hplacement, hpending⟩ := Placing.run text (.ofText text)
  have hend := (hplacement.mono (Nat.le_succ _)).flush (.ofText text) hscan.enclosing_startOr
    (Nat.lt_succ_self _) hpending
  -- the directives that still wait at the end are decided by the end of the text
  rw [bracePairsOf_nil, List.append_nil] at hpairs
  refine ⟨placed, hpairs, ?_, ?_⟩
  · rw [outline_eq_tree]
    exact hend.fits
  · rw [outline_eq_tree]
    exact hend.located

/-! ## Reading the enclosures off the outline -/

namespace Enclosure

/-- The nodes of an enclosure are the owner and its block. -/
theorem Fits.ownNodes_eq {t : Tree} {e : Enclosure} (h : e.Fits t) (hbodied : t.Bodied) :
    t.ownNodes e.owner = e.nodes := by
  obtain ⟨⟨kind, hkind, howns⟩, hparent⟩ := h
  cases hb : e.block? with
  | none =>
    rw [hb] at howns
    simp [ownNodes, nodes, hkind, hb, howns]
  | some b =>
    rw [hb] at howns
    obtain ⟨b', label, hchildren, -⟩ := hbodied e.owner kind hkind howns
    have hmem : b ∈ t.children e.owner := mem_children.2 (hparent b hb)
    rw [hchildren] at hmem
    obtain rfl := List.mem_singleton.1 hmem
    simp [ownNodes, nodes, hkind, hb, howns, hchildren]

end Enclosure

namespace Located

variable {text : List Char} {placed : List Enclosure} {bound : Nat} {t : Tree} {e : Enclosure}

theorem owners_eq (h : Located text placed bound (outline text)) :
    (outline text).owners = placed.map (·.owner) := by
  rw [← h.owners, range_size_outline, List.filter_cons, isOwner_zero]
  rfl

theorem isOwner (h : Located text placed bound t) (he : e ∈ placed) : t.isOwner e.owner = true := by
  have hmem : e.owner ∈ placed.map (·.owner) := List.mem_map_of_mem he
  rw [← h.owners] at hmem
  exact (List.mem_filter.1 hmem).2

theorem eq_of_owner_eq (h : Located text placed bound t) {e' : Enclosure} (he : e ∈ placed)
    (he' : e' ∈ placed) (heq : e.owner = e'.owner) : e = e' := by
  have hnodup : (placed.map (·.owner)).Nodup := by
    rw [← h.owners]
    exact List.nodup_range.filter _
  exact List.inj_on_of_nodup_map hnodup he he' heq

/-- An owner is among the nodes of some enclosures when its own enclosure is one of them. -/
theorem owner_mem_nodesOf (h : Located text placed bound t) (hfits : ∀ e ∈ placed, e.Fits t)
    {chosen : List Enclosure} (hsub : ∀ e ∈ chosen, e ∈ placed) (he : e ∈ placed) :
    e.owner ∈ nodesOf chosen ↔ e ∈ chosen := by
  have howner := h.isOwner he
  rw [nodesOf, List.mem_append, List.mem_flatMap, List.mem_singleton]
  constructor
  · rintro (⟨x, hx, hmem⟩ | hroot)
    · -- a block is no owner, so it is the owner of an enclosure that is chosen
      rcases List.mem_append.1 hmem with hblock | hself
      · obtain ⟨⟨kind, hkind, howns⟩, hparent⟩ := hfits x (hsub x hx)
        rw [Option.mem_toList] at hblock
        rw [Option.mem_def.1 hblock] at howns
        rw [isOwner_of_ownsBlock (hparent _ hblock) hkind howns] at howner
        cases howner
      · rw [h.eq_of_owner_eq he (hsub x hx) (List.mem_singleton.1 hself)]
        exact hx
    · rw [hroot, isOwner_zero] at howner
      cases howner
  · intro hmem
    exact .inl ⟨e, hmem, List.mem_append_right _ (List.mem_singleton_self e.owner)⟩

end Located

/-- Of the enclosures that a place lies in the last one opened comes first. -/
theorem nodes_prefix {front back : List Enclosure} {e : Enclosure} {pos : Nat}
    (hopening : e.pair.opening ≤ pos) (hclosing : pos ≤ e.pair.closing)
    (hback : ∀ x ∈ back, ¬ (x.pair.opening ≤ pos ∧ pos ≤ x.pair.closing)) :
    e.nodes <+: nodesOf (enclosing (front ++ e :: back) pos) := by
  have hnone : back.filter (fun x => x.pair.opening ≤ pos ∧ pos ≤ x.pair.closing) = [] := by
    rw [List.filter_eq_nil_iff]
    intro x hx
    simpa using hback x hx
  have hhead : enclosing (front ++ e :: back) pos = e :: enclosing front pos := by
    rw [enclosing, List.filter_append, List.filter_cons_of_pos (by simp [hopening, hclosing]),
      hnone]
    simp [enclosing]
  rw [hhead, nodesOf, List.flatMap_cons, List.append_assoc]
  exact List.prefix_append _ _

/-- The owners of the outline of a text, each with the pair of braces at the same place. -/
def ownedPairs (text : List Char) : List (Nat × BracePair) :=
  (outline text).owners.zip (bracePairs text)

/-- The nodes above a place that lies in the pairs that `inside` selects. -/
def nodesWithin (text : List Char) (inside : BracePair → Bool) : List Nat :=
  ((ownedPairs text).filter fun u => inside u.2).reverse.flatMap
    (fun u => (outline text).ownNodes u.1) ++ [0]

namespace Encloses

variable {text : List Char} {placed : List Enclosure} {e e' : Enclosure}

theorem ownedPairs_eq_map (h : Encloses text placed) :
    ownedPairs text = placed.map fun e => (e.owner, e.pair) := by
  rw [ownedPairs, h.located.owners_eq, ← h.pairs, List.zip_map']

theorem ownNodes_eq (h : Encloses text placed) (he : e ∈ placed) :
    (outline text).ownNodes e.owner = e.nodes :=
  (h.fits e he).ownNodes_eq (outline_nested text).bodied

theorem nodesWithin_eq (h : Encloses text placed) (inside : BracePair → Bool) :
    nodesWithin text inside = nodesOf (placed.filter fun e => inside e.pair).reverse := by
  rw [nodesWithin, h.ownedPairs_eq_map, List.filter_map, ← List.map_reverse, List.flatMap_map,
    nodesOf]
  congr 1
  apply List.flatMap_congr
  intro e he
  exact h.ownNodes_eq (List.mem_filter.1 (List.mem_reverse.1 he)).1

/-- Owners nest as their pairs do. -/
theorem owner_mem_ancestors_iff (h : Encloses text placed) (he : e ∈ placed) (he' : e' ∈ placed) :
    e.owner ∈ (outline text).ancestors e'.owner ↔
      e.pair.opening < e'.pair.opening ∧ e'.pair.opening < e.pair.closing := by
  have hsub : ∀ x ∈ strictlyEnclosing placed e'.pair.opening, x ∈ placed := by
    intro x hx
    exact (List.mem_filter.1 (List.mem_reverse.1 hx)).1
  rw [h.located.ofOwner e' he', h.located.owner_mem_nodesOf h.fits hsub he, strictlyEnclosing,
    List.mem_reverse, List.mem_filter, decide_eq_true_iff]
  exact and_iff_right he

theorem pair_mem_bracePairs (h : Encloses text placed) (he : e ∈ placed) :
    e.pair ∈ bracePairs text := by
  rw [← h.pairs]
  exact List.mem_map_of_mem he

/-- A place at one of the braces of a pair lies in no pair that is opened behind it. -/
theorem ownNodes_prefix (h : Encloses text placed) (he : e ∈ placed) {pos : Nat}
    (hpos : pos = e.pair.opening ∨ pos = e.pair.closing ∧ pos < text.length) :
    (outline text).ownNodes e.owner <+: nodesOf (enclosing placed pos) := by
  have hlaminar := bracePairs_laminar text
  obtain ⟨hlt, -⟩ := (ordered_lex text).bounds_of_mem (h.pair_mem_bracePairs he)
  rw [h.ownNodes_eq he]
  -- the pairs that are opened behind this one are those behind it in the list
  rw [← h.pairs] at hlaminar
  obtain ⟨front, back, rfl⟩ := List.append_of_mem he
  rw [List.pairwise_map, List.pairwise_append] at hlaminar
  have hback := (List.pairwise_cons.1 hlaminar.2.1).1
  apply nodes_prefix (by omega) (by omega)
  intro x hx
  obtain ⟨hopening, hcases⟩ := hback x hx
  omega

/-- A place at the end of the text lies in the pairs that are never closed. -/
theorem enclosing_length (h : Encloses text placed) :
    enclosing placed text.length =
      (placed.filter fun e => e.pair.closing = text.length).reverse := by
  rw [enclosing]
  congr 1
  apply List.filter_congr
  intro e he
  have hbounds := (ordered_lex text).bounds_of_mem (h.pair_mem_bracePairs he)
  exact decide_eq_decide.2 (by omega)

end Encloses

/-- The owners of an outline stand for the significant opening braces, one for each and in their
order. One owner lies below another exactly if its brace lies strictly within the pair of the other.
Above a directive there are the root and the owners, with their blocks, of the pairs that the first
significant offset behind the directive lies in. So a directive in front of a brace lies in what the
brace opens or closes, and one behind which nothing is significant in all that is never closed. -/
theorem directive_placement (text : List Char) :
    (outline text).owners.length = (bracePairs text).length ∧
      (∀ u ∈ ownedPairs text, ∀ v ∈ ownedPairs text, u.1 ∈ (outline text).ancestors v.1 ↔
        u.2.opening < v.2.opening ∧ v.2.opening < u.2.closing) ∧
      (∀ u ∈ ownedPairs text, ∀ kind, (outline text).kind? u.1 = some kind →
        kind.ownsBlock = true → ∃ b, (outline text).ownNodes u.1 = [b, u.1] ∧
          (outline text).kind? b = some .block) ∧
      (∀ u ∈ ownedPairs text, ∀ kind, (outline text).kind? u.1 = some kind →
        kind.ownsBlock = false → (outline text).ownNodes u.1 = [u.1]) ∧
      ∀ d label, (outline text).directiveLabel? d = some label →
        let pos := nextSignificant text label.start.toNat
        (outline text).ancestors d =
            nodesWithin text (fun pair => pair.opening ≤ pos ∧ pos ≤ pair.closing) ∧
          (∀ u ∈ ownedPairs text, pos = u.2.opening ∨ pos = u.2.closing ∧ pos < text.length →
            (outline text).ownNodes u.1 <+: (outline text).ancestors d) ∧
          (pos = text.length → (outline text).ancestors d =
            nodesWithin text (fun pair => pair.closing = text.length)) := by
  obtain ⟨placed, h⟩ := exists_encloses text
  have howned := h.ownedPairs_eq_map
  refine ⟨?_, ?_, ?_, ?_, ?_⟩
  · rw [h.located.owners_eq, ← h.pairs, List.length_map, List.length_map]
  · rw [howned]
    intro u hu v hv
    obtain ⟨e, he, rfl⟩ := List.mem_map.1 hu
    obtain ⟨e', he', rfl⟩ := List.mem_map.1 hv
    exact h.owner_mem_ancestors_iff he he'
  · intro u _ kind hkind howns
    obtain ⟨b, label, hchildren, hlabel, hblock, -⟩ :=
      (outline_nested text).bodied u.1 kind hkind howns
    refine ⟨b, ?_, ?_⟩
    · simp [ownNodes, hkind, howns, hchildren]
    · rw [kind?, hlabel, Option.map_some, hblock]
  · intro u _ kind hkind hnot
    simp [ownNodes, hkind, hnot]
  · intro d label hd pos
    obtain ⟨-, hancestors⟩ := h.located.ofDirective d label hd
    refine ⟨?_, ?_, ?_⟩
    · rw [hancestors, h.nodesWithin_eq, enclosing]
    · rw [howned]
      intro u hu hpos
      obtain ⟨e, he, rfl⟩ := List.mem_map.1 hu
      rw [hancestors]
      exact h.ownNodes_prefix he hpos
    · intro hend
      rw [hancestors, h.nodesWithin_eq, ← h.enclosing_length, ← hend]

end RegionScope.Source
