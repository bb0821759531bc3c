import RegionScope.Proofs.Source.Nesting
import RegionScope.Proofs.Source.OpenNodes

/-!
# Places for a statement

Lines of a text may be put into a statement if they begin and end between tokens and headers, if the
same nodes are open before and behind them and stay open in between, and if all this is in a block
(`NestingSite`). Then the directives of the text stay in the bodies that they were in, on lines that
are moved by the braces before them (`markers_nest`).
-/

namespace RegionScope.Source

open RegionScope.Text RegionScope.Tree

/-- Lines `mid` between `pre` and `post` that a statement may be put around: before and behind them
a token starts at the head of a line, with the same open nodes, no open parenthesis and no header.
No node that is open before them is closed among them, and one of them is a block or below one. -/
structure NestingSite (pre mid post : List Char) : Prop where
  pre_newline : pre.getLast? = some '\n'
  mid_newline : mid.getLast? = some '\n'
  mid_starts : ∃ token ∈ lex (pre ++ mid ++ post), token.start = pre.length
  post_starts : ∃ token ∈ lex (pre ++ mid ++ post), token.start = pre.length + mid.length
  same_nodes : (Outline.upTo (pre ++ mid ++ post) (pre.length + mid.length)).openNodes =
    (Outline.upTo (pre ++ mid ++ post) pre.length).openNodes
  idle_before : (Outline.upTo (pre ++ mid ++ post) pre.length).isIdle = true
  idle_behind : (Outline.upTo (pre ++ mid ++ post) (pre.length + mid.length)).isIdle = true
  stays_open : ∀ pos ≤ pre.length + mid.length, pre.length ≤ pos →
    (Outline.upTo (pre ++ mid ++ post) pre.length).openNodes.length ≤
      (Outline.upTo (pre ++ mid ++ post) pos).openNodes.length
  in_block : ∃ b ∈ (Outline.upTo (pre ++ mid ++ post) pre.length).tree.lineage
      (Outline.upTo (pre ++ mid ++ post) pre.length).level.node,
    (Outline.upTo (pre ++ mid ++ post) pre.length).tree.kind? b = some .block

variable {pre mid post : List Char} {n pos : Nat}

/-! ## Where things are moved -/

/-- Where an offset is moved when `mid` is nested. -/
def nestedStart (pre mid : List Char) (n : Nat) (start : Int) : Int :=
  if start < pre.length then start
  else if start < pre.length + mid.length then start + 9 * n
  else start + 11 * n

/-- Where a line is moved when `mid` is nested. -/
def nestedLine (pre mid : List Char) (n : Nat) (line : Int) : Int :=
  if line ≤ newlines pre then line
  else if line ≤ newlines pre + newlines mid then line + 2 * n
  else line + 3 * n

/-- Lines keep their order. -/
theorem nestedLine_lt_iff (pre mid : List Char) (n : Nat) (line line' : Int) :
    nestedLine pre mid n line < nestedLine pre mid n line' ↔ line < line' := by
  unfold nestedLine
  split_ifs <;> omega

/-- The edit that nests `mid`. -/
def Edit.nesting (pre mid post : List Char) (n : Nat) : Edit where
  lines := .ofText (pre ++ mid ++ post)
  lines' := .ofText (pre ++ nest n mid ++ post)
  keep := fun _ => true
  move := fun label =>
    { label with
      start := nestedStart pre mid n label.start
      line := nestedLine pre mid n label.line }
  keep_of_isDirective := fun _ _ => rfl
  kind_move := fun _ => rfl

/-- An offset and its line are moved together. -/
theorem at_nesting {pos' : Nat} (hstart : nestedStart pre mid n pos = pos')
    (hline : nestedLine pre mid n (newlines ((pre ++ mid ++ post).take pos) + 1 : Nat) =
      (newlines ((pre ++ nest n mid ++ post).take pos') + 1 : Nat)) :
    (Edit.nesting pre mid post n).At pos pos' := by
  intro kind name
  simp only [Edit.nesting, LineIndex.line_ofText_natCast, hstart, hline]

/-- In front of a place in some lines stand fewer newlines than in all of them. -/
theorem newlines_take_lt {lines : List Char} (hlast : lines.getLast? = some '\n')
    (h : pos < lines.length) : newlines (lines.take pos) < newlines lines := by
  -- the last newline stands behind the place
  have hdrop : '\n' ∈ lines.drop pos := by
    apply List.mem_of_getLast?
    rwa [List.getLast?_drop, if_neg (by omega)]
  have hpos : 0 < newlines (lines.drop pos) := List.count_pos_iff.2 hdrop
  have hsplit := newlines_append (lines.take pos) (lines.drop pos)
  rw [List.take_append_drop] at hsplit
  omega

theorem at_nesting_front (hpre : pre.getLast? = some '\n') (h : pos < pre.length) :
    (Edit.nesting pre mid post n).At pos pos := by
  have htake : ∀ rest, (pre ++ rest).take pos = pre.take pos :=
    fun rest => List.take_append_of_le_length (Nat.le_of_lt h)
  have hlt := newlines_take_lt hpre h
  apply at_nesting
  · rw [nestedStart, if_pos (by omega)]
  · rw [List.append_assoc, List.append_assoc, htake, htake, nestedLine, if_pos (by omega)]

theorem at_nesting_mid (hmid : mid.getLast? = some '\n') (h : pos < mid.length) :
    (Edit.nesting pre mid post n).At (pre.length + pos) (pre.length + pos + 9 * n) := by
  have hlt := newlines_take_lt hmid h
  have hlength := length_nest n mid
  have htake : (pre ++ mid ++ post).take (pre.length + pos) = pre ++ mid.take pos := by
    rw [List.append_assoc, List.take_length_add_append,
      List.take_append_of_le_length (Nat.le_of_lt h)]
  have htake' : (pre ++ nest n mid ++ post).take (pre.length + pos + 9 * n) =
      pre ++ (nest n mid).take (pos + 9 * n) := by
    rw [List.append_assoc, Nat.add_assoc, List.take_length_add_append,
      List.take_append_of_le_length (by omega)]
  apply at_nesting
  · rw [nestedStart, if_neg (by omega), if_pos (by omega)]
    omega
  · rw [htake, htake', newlines_append, newlines_append, newlines_take_nest n (Nat.le_of_lt h),
      nestedLine, if_neg (by omega), if_pos (by omega)]
    omega

theorem at_nesting_back (pos : Nat) :
    (Edit.nesting pre mid post n).At (pos + (pre.length + mid.length))
      (pos + (pre.length + mid.length) + 11 * n) := by
  have hlength := length_nest n mid
  have htake : (pre ++ mid ++ post).take (pos + (pre.length + mid.length)) =
      pre ++ mid ++ post.take pos := by
    rw [Nat.add_comm, ← List.length_append, List.take_length_add_append]
  have htake' : (pre ++ nest n mid ++ post).take (pos + (pre.length + mid.length) + 11 * n) =
      pre ++ nest n mid ++ post.take pos := by
    rw [show pos + (pre.length + mid.length) + 11 * n = (pre ++ nest n mid).length + pos by
        rw [List.length_append]
        omega,
      List.take_length_add_append]
  apply at_nesting
  · rw [nestedStart, if_neg (by omega), if_neg (by omega)]
    omega
  · rw [htake, htake', newlines_append, newlines_append, newlines_append, newlines_append,
      newlines_nest, nestedLine, if_neg (by omega), if_neg (by omega)]
    omega

/-! ## What is scanned before and behind -/

namespace NestingSite

open Outline (upTo run)

/-- A literal is not the last token in front of a place without a header. -/
theorem last_of_isIdle {lines : LineIndex} {tokens : List Token}
    (h : (run lines tokens).isIdle = true) : ∀ token ∈ tokens.getLast?,
      token.lexeme ≠ .stringLiteral ∧ token.lexeme ≠ .charLiteral := by
  intro token htoken
  obtain ⟨before, rfl⟩ := List.getLast?_eq_some_iff.1 htoken
  have hnone : ((run lines before).step lines token).headerStart = none := by
    rw [run, List.foldl_append] at h
    exact (Outline.isIdle_iff.1 h).2
  constructor
  · intro hlexeme
    exact Outline.headerStart_step_ne_none (.inl hlexeme) hnone
  · intro hlexeme
    exact Outline.headerStart_step_ne_none (.inr hlexeme) hnone

/-- A part that ends with a newline, with a token and no header behind it, is scanned alike in front
of every text. -/
theorem exists_scans {front part back : List Char} {before : List Token}
    (hfront : ∀ after, Scans after 0 true front before true) (hpart : part.getLast? = some '\n')
    (hstarts : ∃ token ∈ lex (front ++ part ++ back), token.start = front.length + part.length)
    (hidle : (upTo (front ++ part ++ back) (front.length + part.length)).isIdle = true) :
    ∃ tokens, (∀ after, Scans after front.length true part tokens true) ∧
      upTo (front ++ part ++ back) (front.length + part.length) =
        run (.ofText (front ++ part ++ back)) (before ++ tokens) := by
  obtain ⟨token, htoken, hstart⟩ := hstarts
  have hback : back ≠ [] := by
    have hlt := start_lt_of_mem_lex htoken
    rintro rfl
    rw [List.append_nil, List.length_append] at hlt
    omega
  have hlex : lex (front ++ part ++ back) = before ++ lexFrom front.length true (part ++ back) := by
    rw [List.append_assoc, lex, (hfront (part ++ back)).lexFrom_append, Nat.zero_add]
  -- the token behind the part is one of those behind the front
  have hmem : token ∈ lexFrom front.length true (part ++ back) := by
    rw [hlex] at htoken
    rcases List.mem_append.1 htoken with hbefore | hmem
    · have := ((hfront []).start_bounds hbefore).2
      omega
    · exact hmem
  obtain ⟨tokens, atEnd, hscan⟩ := Scans.of_mem hmem hstart
  rw [hscan.lexFrom_append] at hlex
  obtain ⟨c, rest, hcons⟩ := List.exists_cons_of_ne_nil hback
  have hupTo : upTo (front ++ part ++ back) (front.length + part.length) =
      run (.ofText (front ++ part ++ back)) (before ++ tokens) := by
    rw [hcons, lexFrom_cons, ← List.append_assoc before, ← hcons] at hlex
    exact Outline.upTo_start hlex
  -- a literal that takes the last newline would have started a header
  have hlast : ∀ token ∈ tokens.getLast?,
      token.lexeme ≠ .stringLiteral ∧ token.lexeme ≠ .charLiteral := by
    intro token htoken
    rw [hupTo] at hidle
    apply last_of_isIdle hidle
    rw [List.getLast?_append, Option.mem_def.1 htoken]
    rfl
  obtain ⟨line, hline⟩ := List.getLast?_eq_some_iff.1 hpart
  refine ⟨tokens, ?_, hupTo⟩
  rw [hline] at hscan ⊢
  exact (hscan.newline hback hlast).2

/-- The tokens before some lines of a text and those of the lines, where both parts are scanned
alike in front of every text, with the states of the pass behind them. -/
structure Cut (pre mid post : List Char) (before tokens : List Token) : Prop where
  scans_before : ∀ after, Scans after 0 true pre before true
  scans_lines : ∀ after, Scans after pre.length true mid tokens true
  upTo_before : upTo (pre ++ mid ++ post) pre.length = run (.ofText (pre ++ mid ++ post)) before
  upTo_lines : upTo (pre ++ mid ++ post) (pre.length + mid.length) =
    run (.ofText (pre ++ mid ++ post)) (before ++ tokens)

theorem exists_cut (site : NestingSite pre mid post) :
    ∃ before tokens, Cut pre mid post before tokens := by
  -- the part before the lines has nothing in front of it
  have htext : [] ++ pre ++ (mid ++ post) = pre ++ mid ++ post := (List.append_assoc ..).symm
  have hnil : ∀ after, Scans after 0 true [] [] true := fun after => .nil 0 true
  have hscans := @exists_scans [] pre (mid ++ post) [] hnil site.pre_newline
  rw [htext, List.length_nil, Nat.zero_add] at hscans
  obtain ⟨before, hpre, hbefore⟩ := hscans site.mid_starts site.idle_before
  obtain ⟨tokens, hmid, hbehind⟩ :=
    exists_scans hpre site.mid_newline site.post_starts site.idle_behind
  exact ⟨before, tokens, hpre, hmid, hbefore, hbehind⟩

namespace Cut

variable {before tokens : List Token} (cut : Cut pre mid post before tokens)

include cut

theorem lex_eq : lex (pre ++ mid ++ post) =
    before ++ (tokens ++ lexFrom (pre.length + mid.length) true post) := by
  rw [lex, List.append_assoc, (cut.scans_before _).lexFrom_append, Nat.zero_add,
    (cut.scans_lines post).lexFrom_append]

/-- The tokens of the text with nested lines. -/
theorem lex_nest (n : Nat) : lex (pre ++ nest n mid ++ post) =
    before ++ (nestTokens mid n pre.length tokens ++
      (lexFrom (pre.length + mid.length) true post).map (Token.shift (11 * n))) := by
  rw [lex, List.append_assoc, (cut.scans_before _).lexFrom_append, Nat.zero_add,
    (scans_nest cut.scans_lines n post).lexFrom_append, length_nest, ← Nat.add_assoc, lexFrom_add]

/-- Behind each part at the head of the tokens of the lines, the next token starts within the lines,
or the lines end. -/
theorem exists_upTo {front back : List Token} (h : tokens = front ++ back) :
    ∃ pos ≤ pre.length + mid.length, pre.length ≤ pos ∧
      upTo (pre ++ mid ++ post) pos = run (.ofText (pre ++ mid ++ post)) (before ++ front) := by
  cases back with
  | nil =>
    rw [List.append_nil] at h
    exact ⟨_, Nat.le_refl _, Nat.le_add_right _ _, h ▸ cut.upTo_lines⟩
  | cons token back =>
    have hmem : token ∈ tokens := by
      rw [h]
      exact List.mem_append_right front List.mem_cons_self
    have hnext : lex (pre ++ mid ++ post) = (before ++ front) ++
        token :: (back ++ lexFrom (pre.length + mid.length) true post) := by
      rw [cut.lex_eq, h]
      simp
    obtain ⟨hle, hlt⟩ := (cut.scans_lines []).start_bounds hmem
    exact ⟨token.start, Nat.le_of_lt hlt, hle, Outline.upTo_start hnext⟩

/-- The braces of the lines match. -/
theorem balanced (site : NestingSite pre mid post) :
    Brackets.BalancedFrom Token.opensBrace Token.closesBrace 0 tokens := by
  have hfold : ∀ front, run (.ofText (pre ++ mid ++ post)) (before ++ front) =
      front.foldl (Outline.step (.ofText (pre ++ mid ++ post)))
        (run (.ofText (pre ++ mid ++ post)) before) := fun front => List.foldl_append
  apply @Outline.balanced_of_outer (.ofText (pre ++ mid ++ post))
    (run (.ofText (pre ++ mid ++ post)) before)
  · obtain ⟨b, hmem, hblock⟩ := site.in_block
    rw [cut.upTo_before] at hmem hblock
    exact Outline.outer_pos_of_block hmem hblock
  · intro front back hsplit
    obtain ⟨pos, hpos, hle, hupTo⟩ := cut.exists_upTo hsplit
    have hstays := site.stays_open pos hpos hle
    rw [hupTo, cut.upTo_before, Outline.length_openNodes, Outline.length_openNodes, hfold] at hstays
    exact Nat.le_of_succ_le_succ hstays
  · have hlength := congrArg List.length site.same_nodes
    rw [cut.upTo_lines, cut.upTo_before, Outline.length_openNodes, Outline.length_openNodes,
      hfold] at hlength
    exact Nat.succ.inj hlength

/-- In front of the lines the pass is inside of a body. -/
theorem exists_inside (site : NestingSite pre mid post) : ∃ g known,
    Sketch.Inside g 0 known (Sketch.run (.ofText (pre ++ mid ++ post)) before) := by
  obtain ⟨b, hmem, hblock⟩ := site.in_block
  rw [cut.upTo_before] at hmem hblock
  obtain ⟨number, hnumber⟩ : ∃ number, (run (.ofText (pre ++ mid ++ post)) before).tree.bodyNumber?
      (run (.ofText (pre ++ mid ++ post)) before).level.node = some number := by
    apply Option.ne_none_iff_exists'.1
    intro hnone
    exact body?_eq_none_iff.1 (bodyNumber?_eq_none_iff.1 hnone) b hmem hblock
  have hinside := Sketch.inside_sketch (.ofText (pre ++ mid ++ post)) hnumber
  rw [Outline.sketch_run] at hinside
  exact ⟨_, _, hinside⟩

/-! ### Tokens at their new places -/

variable {n : Nat}

theorem moves_before (hpre : pre.getLast? = some '\n') :
    List.Forall₂ (Edit.nesting pre mid post n).Moves before before := by
  apply List.forall₂_same.2
  intro token htoken
  have hlt := ((cut.scans_before []).start_bounds htoken).2
  rw [Nat.zero_add] at hlt
  exact ⟨rfl, at_nesting_front hpre hlt⟩

theorem moves_lines (hmid : mid.getLast? = some '\n') :
    List.Forall₂ (Edit.nesting pre mid post n).Moves tokens
      (tokens.map (Token.shift (9 * n))) := by
  rw [List.forall₂_map_right_iff]
  apply List.forall₂_same.2
  intro token htoken
  obtain ⟨hle, hlt⟩ := (cut.scans_lines []).start_bounds htoken
  obtain ⟨pos, hpos⟩ := Nat.exists_eq_add_of_le hle
  refine ⟨rfl, ?_⟩
  rw [Token.shift, hpos]
  exact at_nesting_mid hmid (by omega)

omit cut in
theorem moves_behind : List.Forall₂ (Edit.nesting pre mid post n).Moves
    (lexFrom (pre.length + mid.length) true post)
    ((lexFrom (pre.length + mid.length) true post).map (Token.shift (11 * n))) := by
  rw [List.forall₂_map_right_iff]
  apply List.forall₂_same.2
  intro token htoken
  obtain ⟨pos, hpos⟩ := Nat.exists_eq_add_of_le (start_bounds_of_mem_lexFrom htoken).1
  refine ⟨rfl, ?_⟩
  rw [Token.shift, hpos, Nat.add_comm _ pos]
  exact at_nesting_back pos

end Cut

/-- In front of a place without parentheses and header the sketch holds none. -/
theorem idle_sketch {lines : LineIndex} {tokens : List Token}
    (h : (run lines tokens).isIdle = true) : (Sketch.run lines tokens).scope.parens = 0 ∧
      ∀ c ∈ (Sketch.run lines tokens).header, c = ' ' := by
  obtain ⟨hparens, hnone⟩ := Outline.isIdle_iff.1 h
  rw [← Outline.sketch_run]
  exact ⟨hparens, Outline.headerBlank_run lines tokens hnone⟩

/-- The directives of a text with nested lines are those of the text, in the bodies that they were
in, with their offsets and lines moved. -/
theorem markers_nest (site : NestingSite pre mid post) (n : Nat) :
    (outline (pre ++ nest n mid ++ post)).markers =
      (outline (pre ++ mid ++ post)).markers.map
        (Marker.move (Edit.nesting pre mid post n).move) := by
  obtain ⟨before, tokens, cut⟩ := site.exists_cut
  obtain ⟨g, known, hinside⟩ := cut.exists_inside site
  have hbefore := site.idle_before
  have hbehind := site.idle_behind
  rw [cut.upTo_before] at hbefore
  rw [cut.upTo_lines] at hbehind
  obtain ⟨hparens, -⟩ := idle_sketch hbefore
  obtain ⟨hparens', hblank⟩ := idle_sketch hbehind
  rw [Sketch.run, List.foldl_append] at hparens' hblank
  -- the passes are in step before the lines, behind them, and at the end
  have hstart : Sketch.Agrees (Edit.nesting pre mid post n)
      (Sketch.run (.ofText (pre ++ mid ++ post)) before)
      (Sketch.run (.ofText (pre ++ nest n mid ++ post)) before) :=
    (Sketch.Agrees.start _).run (cut.moves_before site.pre_newline)
  have hlines := Sketch.agrees_nestTokens hstart hinside (cut.balanced site)
    (cut.moves_lines site.mid_newline) hparens hparens' hblank mid pre.length
  have hend := (hlines.run Cut.moves_behind).settle.known
  rw [outline, outline, markers_outlineWith, markers_outlineWith, cut.lex_eq, cut.lex_nest n,
    Sketch.run, Sketch.run]
  simp only [List.foldl_append]
  exact hend

end NestingSite

end RegionScope.Source
