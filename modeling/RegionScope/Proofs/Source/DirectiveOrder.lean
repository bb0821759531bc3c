import Mathlib.Data.List.Pairwise
import RegionScope.Proofs.Tree.DirectiveLabels
import RegionScope.Proofs.Source.HeaderNesting
import RegionScope.Proofs.Source.RightEdge
import RegionScope.Proofs.Source.Tokens

/-!
# The directives of an outline

A flat scan that knows blanks, comments, literals and hash signs finds the directive lines of a
text (`scanDirectives`). The directives of the outline, in document order, are these lines, one
node for each (`directives_outline`): no line is lost, none is taken twice, and their order is
that of the text, whatever braces stand between them and wherever they wait for the token that
places them.
-/

namespace RegionScope.Source

open RegionScope.Text RegionScope.Tree

/-! ## The flat scan -/

/-- How many characters behind `c` a comment or a literal at the head of `c :: cs` takes. -/
def skipExtent (c : Char) (cs : List Char) : Nat :=
  if c = '/' ∧ cs.head? = some '/' then (restOfLine cs).length
  else if c = '/' ∧ cs.head? = some '*' then 1 + commentTail (cs.drop 1)
  else if startsString (c :: cs) then stringExtent (c :: cs) - 1
  else if c = '\'' then charTail cs
  else 0

/-- The directive lines of a text that begins at offset `pos`: those that a hash sign begins with
nothing but blanks before it on its line. Comments and literals are passed over. -/
def scanDirectives (pos : Nat) (atStart : Bool) : List Char → List PendingDirective
  | [] => []
  | c :: cs =>
    if c = '\n' then scanDirectives (pos + 1) true cs
    else if isBlank c then scanDirectives (pos + 1) atStart cs
    else if atStart && c == '#' then
      ⟨pos, c :: restOfLine cs⟩ ::
        scanDirectives (pos + 1 + (restOfLine cs).length) true (cs.drop (restOfLine cs).length)
    else scanDirectives (pos + 1 + skipExtent c cs) false (cs.drop (skipExtent c cs))
termination_by cs => cs.length
decreasing_by all_goals simp only [List.length_cons, List.length_drop]; omega

/-- The directive lines of a text. -/
def directiveLines (text : List Char) : List PendingDirective := scanDirectives 0 true text

/-- A lexeme that is neither blank nor a directive takes what the flat scan passes over. -/
theorem nextLexeme_of_skip {atStart : Bool} {c : Char} {cs : List Char} (hnewline : c ≠ '\n')
    (hblank : ¬ isBlank c = true) (hhash : ¬ (atStart && c == '#') = true) :
    (nextLexeme atStart c cs).2 = skipExtent c cs ∧
      (nextLexeme atStart c cs).1.leavesAtStart atStart = false ∧
      ∀ pos, Token.directive? ⟨pos, (nextLexeme atStart c cs).1⟩ = none := by
  unfold nextLexeme skipExtent
  rw [if_neg hnewline, if_neg hblank, if_neg hhash]
  repeat' split
  all_goals exact ⟨rfl, rfl, fun _ => rfl⟩

theorem filterMap_directive?_lexFrom (pos : Nat) (atStart : Bool) (cs : List Char) :
    (lexFrom pos atStart cs).filterMap Token.directive? = scanDirectives pos atStart cs := by
  fun_induction scanDirectives pos atStart cs with
  | case1 pos atStart => rw [lexFrom_nil, List.filterMap_nil]
  | case2 pos atStart cs ih =>
    rw [lexFrom_cons]
    exact ih
  | case3 pos atStart c cs hnewline hblank ih =>
    have hnext : nextLexeme atStart c cs = (.blank, 0) := by
      rw [nextLexeme, if_neg hnewline, if_pos hblank]
    rw [lexFrom_cons, hnext]
    exact ih
  | case4 pos atStart c cs hnewline hblank hhash ih =>
    have hnext : nextLexeme atStart c cs =
        (.directive (c :: restOfLine cs), (restOfLine cs).length) := by
      rw [nextLexeme, if_neg hnewline, if_neg hblank, if_pos hhash]
    obtain rfl : atStart = true := (Bool.and_eq_true_iff.1 hhash).1
    rw [lexFrom_cons, hnext]
    exact congrArg _ ih
  | case5 pos atStart c cs hnewline hblank hhash ih =>
    obtain ⟨hextent, hstart, hnone⟩ := nextLexeme_of_skip hnewline hblank hhash
    rw [lexFrom_cons, List.filterMap_cons, hnone, hextent, hstart]
    exact ih

/-- The flat scan finds the directive tokens. -/
theorem filterMap_directive?_lex (text : List Char) :
    (lex text).filterMap Token.directive? = directiveLines text :=
  filterMap_directive?_lexFrom 0 true text

/-! ## Directives are announced in order -/

namespace Frontier

variable {lines : LineIndex}

/-- What the directives show that are in the tree, followed by what those will show that wait. -/
def announced (lines : LineIndex) (f : Frontier) : List Label :=
  f.tree.directiveLabels ++ f.pending.map (directiveLabel lines)

theorem announced_flush (f : Frontier) : (f.flush lines).announced lines = f.announced lines := by
  refine flush_induction (P := fun g => g.announced lines = f.announced lines) ?_ rfl
  intro g d rest hpending h
  rw [← h, announced, announced, hpending, place, directiveLabels_add]
  simp [directiveLabel, Kind.isDirective, Kind.directive?]

/-- An owner and its block are no directives. -/
theorem announced_enter (f : Frontier) (header : List Char) (start pos : Nat) :
    (f.enter lines (ownerLabel lines f.context header start) pos).announced lines =
      f.announced lines := by
  have howner : (ownerLabel lines f.context header start).kind.isDirective = false :=
    Kind.isDirective_of_mayHold (mayHold_headerKind f.context header)
  have hblock : (blockLabel lines pos).kind.isDirective = false := rfl
  unfold enter
  split <;>
    simp [announced, deepen, descend, place, directiveLabels_add, howner, hblock]

theorem announced_leave (f : Frontier) : f.leave.announced lines = f.announced lines := by
  unfold leave
  split <;> rfl

/-- A move announces the directive of its token. -/
theorem announced_move {token : Token} {f g : Frontier} (h : Move lines token f g) :
    g.announced lines =
      f.announced lines ++ token.directive?.toList.map (directiveLabel lines) := by
  cases h with
  | skip _ hnone => simp [hnone]
  | wait hd => simp [announced, hd]
  | pass hsig =>
    rw [token.directive?_of_isSignificant hsig, Option.toList_none, List.map_nil, List.append_nil]
    exact announced_flush f
  | close hclosing =>
    rw [token.directive?_of_isSignificant (Token.isSignificant_of_closesBrace hclosing),
      Option.toList_none, List.map_nil, List.append_nil]
    exact (announced_leave _).trans (announced_flush f)
  | openOwner header hopening =>
    rw [token.directive?_of_isSignificant (Token.isSignificant_of_opensBrace hopening),
      Option.toList_none, List.map_nil, List.append_nil]
    exact (announced_flush _).trans (announced_enter f header _ _)

/-- After a run all directives of its tokens are announced, in order. -/
theorem announced_run (lines : LineIndex) (tokens : List Token) :
    (Outline.run lines tokens).frontier.announced lines =
      (tokens.filterMap Token.directive?).map (directiveLabel lines) := by
  refine run_induction (P := fun before _ f => f.announced lines =
    (before.filterMap Token.directive?).map (directiveLabel lines)) tokens ?_ ?_
  · rw [announced, Outline.frontier, Outline.start, directiveLabels_add]
    rfl
  · intro before token after f g _ h hmove
    rw [announced_move hmove, h, List.filterMap_append, List.map_append]
    cases hd : token.directive? <;> simp [hd]

end Frontier

/-! ## The directives of an outline -/

theorem directiveLabels_outline (text : List Char) :
    (outline text).directiveLabels =
      (directiveLines text).map (directiveLabel (.ofText text)) := by
  rw [← filterMap_directive?_lex, ← Frontier.announced_run, ← Frontier.announced_flush,
    outline_eq_tree]
  exact (List.append_nil _).symm

/-- What the directives below the root show, in document order. -/
theorem map_label?_directivesBelow (text : List Char) :
    ((outline text).directivesBelow 0).map (outline text).label? =
      (directiveLines text).map fun d => some (directiveLabel (.ofText text) d) := by
  have hlabels := directiveLabels_outline text
  have hroot : (outline text).directiveLabel? 0 = none := by
    rw [directiveLabel?, label?_outline_zero]
    rfl
  rw [directiveLabels, range_size_outline, List.filterMap_cons_none hroot] at hlabels
  rw [directivesBelow, map_label?_filter_isDirective, hlabels, List.map_map]
  rfl

/-- A directive line begins with a hash sign behind blanks, within the text. -/
theorem directiveLine_of_mem {text : List Char} {d : PendingDirective}
    (h : d ∈ directiveLines text) :
    ∃ before after, text = before ++ '#' :: after ∧ before.length = d.start ∧
      EndsInIndent before := by
  rw [← filterMap_directive?_lex] at h
  obtain ⟨token, htoken, hd⟩ := List.mem_filterMap.1 h
  obtain ⟨hstart, hline⟩ := Token.directive?_eq_some.1 hd
  obtain ⟨hindent, rest, hrest, -⟩ := directive_of_mem_lex htoken hline
  refine ⟨text.take d.start, rest, ?_, ?_, hstart ▸ hindent⟩
  · rw [← hrest, hstart, List.take_append_drop]
  · have := start_lt_of_mem_lex htoken
    rw [List.length_take]
    omega

/-- Directive lines stand in increasing order, each on a line of its own. -/
theorem directiveLines_pairwise_lt (text : List Char) :
    (directiveLines text).Pairwise fun d e => d.start < e.start ∧
      newlines (text.take d.start) < newlines (text.take e.start) := by
  rw [← filterMap_directive?_lex, List.pairwise_filterMap]
  apply (lex_pairwise_lt text).imp_of_mem
  intro a b ha hb hab d hd e he
  obtain ⟨hstart, hline⟩ := Token.directive?_eq_some.1 hd
  obtain ⟨hstart', hline'⟩ := Token.directive?_eq_some.1 he
  rw [← hstart, ← hstart']
  exact ⟨hab, newlines_lt_of_directives ha hb hab hline hline'⟩

theorem directiveLabel_line (text : List Char) (d : PendingDirective) :
    (directiveLabel (.ofText text) d).line = newlines (text.take d.start) + 1 := by
  simp [directiveLabel, LineIndex.line_ofText]

/-- The lines of the directives below the root increase in document order. -/
theorem directivesBelow_pairwise_line (text : List Char) :
    ((outline text).directivesBelow 0).Pairwise fun i j => ∀ a b, (outline text).label? i = some a →
      (outline text).label? j = some b → a.line < b.line := by
  have hlabels : (((outline text).directivesBelow 0).map (outline text).label?).Pairwise
      fun x y => ∀ a b, x = some a → y = some b → a.line < b.line := by
    rw [map_label?_directivesBelow, List.pairwise_map]
    -- the line of a directive is the number of newlines before it, and one
    apply (directiveLines_pairwise_lt text).imp
    intro d e ⟨_, hline⟩ a b ha hb
    obtain rfl := Option.some.inj ha
    obtain rfl := Option.some.inj hb
    rw [directiveLabel_line, directiveLabel_line]
    omega
  exact List.pairwise_map.1 hlabels

/-- Directives on one line are one directive. -/
theorem eq_of_line_eq {text : List Char} {i j : Nat} {a b : Label}
    (hi : i ∈ (outline text).directivesBelow 0) (hj : j ∈ (outline text).directivesBelow 0)
    (ha : (outline text).label? i = some a) (hb : (outline text).label? j = some b)
    (hline : a.line = b.line) : i = j := by
  have hdiffer : ((outline text).directivesBelow 0).Pairwise fun i j => ∀ a b,
      (outline text).label? i = some a → (outline text).label? j = some b → a.line ≠ b.line :=
    (directivesBelow_pairwise_line text).imp fun h a b ha hb => Int.ne_of_lt (h a b ha hb)
  have : Std.Symm fun i j => ∀ a b, (outline text).label? i = some a →
      (outline text).label? j = some b → a.line ≠ b.line :=
    ⟨fun _ _ h a b ha hb heq => h b a hb ha heq.symm⟩
  by_contra hne
  exact hdiffer.forall hi hj hne a b ha hb hline

/-- What the directives of the outline of a text show, in document order. -/
def shownDirectives (text : List Char) : List Label :=
  ((outline text).directivesBelow 0).filterMap (outline text).label?

theorem shownDirectives_eq_map (text : List Char) :
    shownDirectives text = (directiveLines text).map (directiveLabel (.ofText text)) := by
  have h := congrArg (List.filterMap id) (map_label?_directivesBelow text)
  simpa [shownDirectives, List.filterMap_map, Function.comp_def] using h

/-- The directives of an outline are the directive lines that the flat scan finds, one node for
each line and in the order of the text: offsets and lines increase strictly, and only blanks
stand between a directive and the newline before it. -/
theorem directives_outline (text : List Char) :
    ((outline text).directivesBelow 0).map (outline text).label? =
        (directiveLines text).map (fun d => some (directiveLabel (.ofText text) d)) ∧
      (shownDirectives text).Pairwise (fun a b => a.start < b.start ∧ a.line < b.line) ∧
      ∀ a ∈ shownDirectives text, ∃ before after, text = before ++ '#' :: after ∧
        a.start = before.length ∧ EndsInIndent before := by
  refine ⟨map_label?_directivesBelow text, ?_, ?_⟩
  · rw [shownDirectives_eq_map, List.pairwise_map]
    refine (directiveLines_pairwise_lt text).imp fun {d e} ⟨hstart, hline⟩ => ⟨?_, ?_⟩
    · exact Int.ofNat_lt.2 hstart
    · rw [directiveLabel_line, directiveLabel_line]
      omega
  · intro a ha
    rw [shownDirectives_eq_map] at ha
    obtain ⟨d, hd, rfl⟩ := List.mem_map.1 ha
    obtain ⟨before, after, htext, hlength, hindent⟩ := directiveLine_of_mem hd
    exact ⟨before, after, htext, by simp [directiveLabel, hlength], hindent⟩

end RegionScope.Source
