import Mathlib.Data.List.Pairwise
import RegionScope.Proofs.Source.DirectiveOrder
import RegionScope.Proofs.Source.Edits
import RegionScope.Proofs.Source.Scans

/-!
# Directives overwritten by spaces

Where a directive is overwritten by spaces, blanks stand in place of its token and nothing else
changes (`lex_overwriteLine`), since what stands in front of a directive is scanned alike whatever
follows. So the outline of the overwritten text is that of the text without the nodes of the
overwritten directives (`thins_overwriteDirectives`).
-/

namespace RegionScope.Source

open RegionScope.Text RegionScope.Tree

/-- The text with the line from `pos` on overwritten by spaces, up to its newline or its end. -/
def overwriteLine (text : List Char) (pos : Nat) : List Char :=
  text.take pos ++ List.replicate (restOfLine (text.drop pos)).length ' ' ++
    text.drop (pos + (restOfLine (text.drop pos)).length)

/-- The tokens of the spaces in place of a directive line. -/
def blankTokens (d : PendingDirective) : List Token :=
  (List.range' d.start d.line.length).map fun pos => ⟨pos, .blank⟩

/-- The tokens in place of a token when the directives at some places are overwritten. -/
def overwrittenToken (places : List Nat) (token : Token) : List Token :=
  match token.directive? with
  | some d => if d.start ∈ places then blankTokens d else [token]
  | none => [token]

/-! ## One directive -/

/-- Spaces are blanks. -/
theorem lexFrom_spaces (pos n : Nat) (cs : List Char) :
    lexFrom pos true (List.replicate n ' ' ++ cs) =
      (List.range' pos n).map (fun pos => ⟨pos, .blank⟩) ++ lexFrom (pos + n) true cs := by
  induction n generalizing pos with
  | zero => rfl
  | succ n ih =>
    have hspace : nextLexeme true ' ' (List.replicate n ' ' ++ cs) = (.blank, 0) :=
      nextLexeme_of_isBlank (by decide) true _
    rw [List.replicate_succ, List.cons_append, lexFrom_cons, hspace, List.drop_zero,
      show pos + 1 + (Lexeme.blank, 0).2 = pos + 1 from rfl,
      show Lexeme.leavesAtStart true (Lexeme.blank, 0).1 = true from rfl, ih, List.range'_succ,
      List.map_cons, List.cons_append, Nat.add_assoc, Nat.add_comm 1 n]

theorem overwrittenToken_of_notMem {places : List Nat} {token : Token}
    (h : token.start ∉ places) : overwrittenToken places token = [token] := by
  unfold overwrittenToken
  cases hd : token.directive? with
  | none => rfl
  | some d =>
    rw [(Token.directive?_eq_some.1 hd).1] at h
    exact if_neg h

theorem flatMap_overwrittenToken_of_notMem {places : List Nat} {tokens : List Token}
    (h : ∀ token ∈ tokens, token.start ∉ places) :
    tokens.flatMap (overwrittenToken places) = tokens := by
  rw [List.flatMap_congr fun token htoken => overwrittenToken_of_notMem (h token htoken)]
  exact List.flatMap_singleton' tokens

/-- A token that stands where a scan ends is the token there. -/
theorem eq_of_mem_lexFrom_cons {pos : Nat} {atStart : Bool} {c : Char} {cs : List Char}
    {token : Token} (h : token ∈ lexFrom pos atStart (c :: cs)) (hstart : token.start = pos) :
    token.lexeme = (nextLexeme atStart c cs).1 := by
  rw [lexFrom_cons] at h
  rcases List.mem_cons.1 h with rfl | h
  · rfl
  · have := (start_bounds_of_mem_lexFrom h).1
    omega

/-- A text at a directive: what stands in front of it is scanned alike in front of every text, and
the directive is the next token. -/
theorem exists_scans_directive {text line : List Char} {pos : Nat}
    (h : ⟨pos, .directive line⟩ ∈ lex text) :
    ∃ before rest tokens, text = before ++ '#' :: rest ∧ before.length = pos ∧
      line = '#' :: restOfLine rest ∧ (∀ after, Scans after 0 true before tokens true) ∧
      nextLexeme true '#' rest = (.directive line, (restOfLine rest).length) := by
  obtain ⟨-, rest, hrest, hline⟩ := directive_of_mem_lex h rfl
  have htext : text = text.take pos ++ '#' :: rest := by
    rw [← hrest, List.take_append_drop]
  have hlength : (text.take pos).length = pos :=
    List.length_take_of_le (Nat.le_of_lt (start_lt_of_mem_lex h))
  have hmem := h
  rw [lex, htext] at hmem
  obtain ⟨tokens, atEnd, hscan⟩ := Scans.of_mem hmem (by simp [hlength])
  -- the token at the end of the scan is the directive
  rw [hscan.lexFrom_append, hlength, Nat.zero_add] at hmem
  have hlexeme : .directive line = (nextLexeme atEnd '#' rest).1 := by
    rcases List.mem_append.1 hmem with hbefore | hmem
    · have : pos < 0 + (text.take pos).length := (hscan.start_bounds hbefore).2
      omega
    · exact eq_of_mem_lexFrom_cons hmem rfl
  have hnext : nextLexeme atEnd '#' rest = (.directive line, (nextLexeme atEnd '#' rest).2) :=
    Prod.ext hlexeme.symm rfl
  obtain ⟨hopen, -, -, hextent⟩ := nextLexeme_directive hnext
  subst hopen
  rw [hextent] at hnext
  exact ⟨text.take pos, rest, tokens, htext, hlength, hline, hscan.directive hnext, hnext⟩

/-- Where one directive is overwritten, blanks stand in place of its token. -/
theorem lex_overwriteLine {text line : List Char} {pos : Nat}
    (h : ⟨pos, .directive line⟩ ∈ lex text) :
    lex (overwriteLine text pos) = (lex text).flatMap (overwrittenToken [pos]) := by
  obtain ⟨before, rest, tokens, rfl, rfl, hline, hscan, hnext⟩ := exists_scans_directive h
  have hlength : line.length = 1 + (restOfLine rest).length := by
    rw [hline, List.length_cons, Nat.add_comm]
  have hread : restOfLine ('#' :: rest) = line := hline.symm
  have hover : overwriteLine (before ++ '#' :: rest) before.length =
      before ++ (List.replicate line.length ' ' ++ rest.drop (restOfLine rest).length) := by
    rw [overwriteLine, List.take_left, List.drop_left, hread, List.append_assoc,
      List.drop_length_add_append, hlength, Nat.add_comm 1, List.drop_succ_cons]
  have hlex : lex (before ++ '#' :: rest) = tokens ++ ⟨before.length, .directive line⟩ ::
      lexFrom (before.length + line.length) true (rest.drop (restOfLine rest).length) := by
    rw [lex, (hscan _).lexFrom_append, Nat.zero_add, lexFrom_cons, hnext, hlength, Nat.add_assoc]
    rfl
  rw [hover, hlex, lex, (hscan _).lexFrom_append, Nat.zero_add, lexFrom_spaces,
    List.flatMap_append, List.flatMap_cons]
  -- the tokens before the directive and behind it stand at other offsets, and stay
  congr 1
  · rw [flatMap_overwrittenToken_of_notMem]
    intro token htoken
    have := (hscan []).start_bounds htoken
    rw [List.mem_singleton]
    omega
  · have hself : overwrittenToken [before.length] ⟨before.length, .directive line⟩ =
        blankTokens ⟨before.length, line⟩ := if_pos List.mem_cons_self
    rw [hself, flatMap_overwrittenToken_of_notMem]
    · rfl
    · intro token htoken
      have := (start_bounds_of_mem_lexFrom htoken).1
      rw [List.mem_singleton]
      omega

/-! ## Several directives -/

/-- The text with the lines from some places on overwritten by spaces. -/
def overwriteLines (text : List Char) (places : List Nat) : List Char :=
  places.foldl overwriteLine text

/-- Blanks are no directives, so nothing comes in their place. -/
theorem flatMap_blankTokens (places : List Nat) (d : PendingDirective) :
    (blankTokens d).flatMap (overwrittenToken places) = blankTokens d := by
  have hblank : ∀ token ∈ blankTokens d, overwrittenToken places token = [token] := by
    intro token htoken
    obtain ⟨pos, -, rfl⟩ := List.mem_map.1 htoken
    rfl
  rw [List.flatMap_congr hblank]
  exact List.flatMap_singleton' _

/-- Directives may be overwritten one after another. -/
theorem flatMap_overwrittenToken (pos : Nat) (places : List Nat) (token : Token) :
    (overwrittenToken [pos] token).flatMap (overwrittenToken places) =
      overwrittenToken (pos :: places) token := by
  cases hd : token.directive? with
  | none =>
    have hkeep : ∀ places, overwrittenToken places token = [token] := by
      intro places
      simp only [overwrittenToken, hd]
    rw [hkeep, hkeep, List.flatMap_cons, List.flatMap_nil, hkeep, List.append_nil]
  | some d =>
    have hread : ∀ places, overwrittenToken places token =
        if d.start ∈ places then blankTokens d else [token] := by
      intro places
      simp only [overwrittenToken, hd]
    -- either the directive is overwritten first, or it is left to the others
    by_cases hpos : d.start = pos
    · rw [hread, hread, if_pos (by simp [hpos]), if_pos (by simp [hpos]), flatMap_blankTokens]
    · rw [hread, if_neg (by simp [hpos]), List.flatMap_cons, List.flatMap_nil, List.append_nil,
        hread, hread]
      simp only [List.mem_cons, hpos, false_or]

/-- Where some directives are overwritten, blanks stand in place of their tokens. -/
theorem lex_overwriteLines {text : List Char} {places : List Nat} (hnodup : places.Nodup)
    (h : ∀ pos ∈ places, ∃ line, ⟨pos, .directive line⟩ ∈ lex text) :
    lex (overwriteLines text places) = (lex text).flatMap (overwrittenToken places) := by
  induction places generalizing text with
  | nil =>
    rw [flatMap_overwrittenToken_of_notMem]
    · rfl
    · intro token _
      exact List.not_mem_nil
  | cons pos places ih =>
    obtain ⟨line, hline⟩ := h pos List.mem_cons_self
    obtain ⟨hpos, hnodup⟩ := List.nodup_cons.1 hnodup
    have hlex := lex_overwriteLine hline
    -- the other directives are still there
    have hrest : ∀ pos' ∈ places,
        ∃ line, ⟨pos', .directive line⟩ ∈ lex (overwriteLine text pos) := by
      intro pos' hpos'
      obtain ⟨line', hline'⟩ := h pos' (List.mem_cons_of_mem _ hpos')
      refine ⟨line', ?_⟩
      rw [hlex, List.mem_flatMap]
      refine ⟨_, hline', ?_⟩
      rw [overwrittenToken_of_notMem]
      · exact List.mem_singleton_self _
      · rw [List.mem_singleton]
        rintro rfl
        exact hpos hpos'
    show lex (overwriteLines (overwriteLine text pos) places) = _
    rw [ih hnodup hrest, hlex, List.flatMap_assoc]
    exact List.flatMap_congr fun token _ => flatMap_overwrittenToken pos places token

/-! ## Lines -/

theorem breaksFrom_append (pos : Nat) (front back : List Char) :
    LineIndex.breaksFrom pos (front ++ back) =
      LineIndex.breaksFrom pos front ++ LineIndex.breaksFrom (pos + front.length) back := by
  induction front generalizing pos with
  | nil => rfl
  | cons c front ih =>
    have hpos : pos + 1 + front.length = pos + (c :: front).length := by
      rw [List.length_cons]
      omega
    rw [List.cons_append, LineIndex.breaksFrom, LineIndex.breaksFrom, ih, hpos]
    split <;> rfl

theorem breaksFrom_of_oneLine {line : List Char} (h : '\n' ∉ line) (pos : Nat) :
    LineIndex.breaksFrom pos line = [] := by
  induction line generalizing pos with
  | nil => rfl
  | cons c line ih =>
    obtain ⟨hc, hline⟩ := not_or.1 (List.mem_cons.not.1 h)
    rw [LineIndex.breaksFrom, if_neg fun heq => hc heq.symm, ih hline]

theorem restOfLine_append_drop (cs : List Char) :
    restOfLine cs ++ cs.drop (restOfLine cs).length = cs := by
  have hline : restOfLine cs = cs.take (restOfLine cs).length :=
    List.prefix_iff_eq_take.1 (List.takeWhile_prefix _)
  calc restOfLine cs ++ cs.drop (restOfLine cs).length
      = cs.take (restOfLine cs).length ++ cs.drop (restOfLine cs).length := by rw [← hline]
    _ = cs := List.take_append_drop _ _

/-- Spaces in place of a line keep the newlines where they are. -/
theorem ofText_overwriteLine (text : List Char) (pos : Nat) :
    LineIndex.ofText (overwriteLine text pos) = LineIndex.ofText text := by
  obtain ⟨line, hline⟩ : ∃ line, restOfLine (text.drop pos) = line := ⟨_, rfl⟩
  have hsplit : text = text.take pos ++ line ++ text.drop (pos + line.length) := by
    rw [← List.drop_drop, List.append_assoc, ← hline, restOfLine_append_drop,
      List.take_append_drop]
  have hnone : '\n' ∉ line := by
    intro hmem
    rw [← hline] at hmem
    exact ne_newline_of_mem_restOfLine hmem rfl
  have hspaces : '\n' ∉ List.replicate line.length ' ' := by simp
  rw [overwriteLine, hline]
  conv_rhs => rw [hsplit]
  unfold LineIndex.ofText
  rw [breaksFrom_append, breaksFrom_append, breaksFrom_append, breaksFrom_append,
    breaksFrom_of_oneLine hnone, breaksFrom_of_oneLine hspaces, List.length_append,
    List.length_append, List.length_replicate]

theorem ofText_overwriteLines (text : List Char) (places : List Nat) :
    LineIndex.ofText (overwriteLines text places) = LineIndex.ofText text := by
  induction places generalizing text with
  | nil => rfl
  | cons pos places ih => exact (ih (overwriteLine text pos)).trans (ofText_overwriteLine text pos)

/-! ## The outline -/

/-- The offsets of the directives below the root that are to be dropped. -/
def directivePlaces (drop : Nat → Bool) (text : List Char) : List Nat :=
  (((outline text).directivesBelow 0).filter drop).filterMap fun i =>
    ((outline text).label? i).map (·.start.toNat)

/-- The text with the directives overwritten by spaces whose nodes are to be dropped. -/
def overwriteDirectives (drop : Nat → Bool) (text : List Char) : List Char :=
  overwriteLines text (directivePlaces drop text)

/-- Whether node `i` is no directive that is to be dropped. -/
def isSpared (drop : Nat → Bool) (text : List Char) (i : Nat) : Bool :=
  !(drop i && (outline text).isDirective i)

/-- What is left of the labels of a text when the directives at some places are overwritten. -/
def Edit.overwrite (places : List Nat) (text : List Char) : Edit where
  lines := .ofText text
  lines' := .ofText text
  keep := fun label => !(label.kind.isDirective && decide (label.start.toNat ∈ places))
  move := id
  keep_of_isDirective := by
    intro label hlabel
    rw [hlabel]
    rfl
  kind_move := kind_id

theorem tokens_overwrite (places : List Nat) (text : List Char) (pos : Nat) (atStart : Bool)
    (cs : List Char) : (Edit.overwrite places text).Tokens atStart (lexFrom pos atStart cs)
      ((lexFrom pos atStart cs).flatMap (overwrittenToken places)) := by
  have hkeeps : ∀ d, (Edit.overwrite places text).keeps d = !decide (d.start ∈ places) := by
    intro d
    simp [Edit.keeps, Edit.overwrite, directiveLabel, Kind.isDirective, Kind.directive?]
  fun_induction lexFrom pos atStart cs with
  | case1 pos atStart => exact .nil atStart
  | case2 pos atStart c cs next ih =>
    rw [List.flatMap_cons]
    by_cases hdrop : ∃ d, Token.directive? ⟨pos, next.1⟩ = some d ∧ d.start ∈ places
    · obtain ⟨d, hd, hmem⟩ := hdrop
      have hblanks : overwrittenToken places ⟨pos, next.1⟩ = blankTokens d := by
        simp only [overwrittenToken, hd, if_pos hmem]
      have hgone : (Edit.overwrite places text).keeps d = false := by
        rw [hkeeps, decide_eq_true hmem]
        rfl
      have hblank : ∀ token ∈ blankTokens d, token.lexeme = .blank := by
        intro token htoken
        obtain ⟨pos, -, rfl⟩ := List.mem_map.1 htoken
        rfl
      -- a directive begins only where one may, and another may begin behind it
      have hline := (Token.directive?_eq_some.1 hd).2
      obtain ⟨rfl, -⟩ : atStart = true ∧ c = '#' ∧ d.line = c :: restOfLine cs ∧
          next.2 = (restOfLine cs).length := nextLexeme_directive (Prod.ext hline rfl)
      have hrest : next.1.leavesAtStart true = true := by
        rw [show next.1 = .directive d.line from hline]
        rfl
      rw [hrest] at ih
      rw [hblanks, hrest]
      exact .blanks hd hgone hblank ih
    · have hkept : ∀ d, Token.directive? ⟨pos, next.1⟩ = some d → d.start ∉ places :=
        fun d hd hmem => hdrop ⟨d, hd, hmem⟩
      have hself : overwrittenToken places ⟨pos, next.1⟩ = [⟨pos, next.1⟩] := by
        cases hd : Token.directive? ⟨pos, next.1⟩ with
        | none => simp only [overwrittenToken, hd]
        | some d => simp only [overwrittenToken, hd, if_neg (hkept d hd)]
      rw [hself]
      refine .token rfl (fun _ _ => rfl) ?_ ih
      intro d hd
      rw [hkeeps, decide_eq_false (hkept d hd)]
      rfl

/-- The offsets of directives increase in document order. -/
theorem directivesBelow_pairwise_start (text : List Char) :
    ((outline text).directivesBelow 0).Pairwise fun i j => ∀ a b, (outline text).label? i = some a →
      (outline text).label? j = some b → a.start.toNat < b.start.toNat := by
  have hlabels : (((outline text).directivesBelow 0).map (outline text).label?).Pairwise
      fun x y => ∀ a b, x = some a → y = some b → a.start.toNat < b.start.toNat := by
    rw [map_label?_directivesBelow, List.pairwise_map]
    apply (directiveLines_pairwise_lt text).imp
    intro d e ⟨hstart, _⟩ a b ha hb
    obtain rfl := Option.some.inj ha
    obtain rfl := Option.some.inj hb
    exact hstart
  exact List.pairwise_map.1 hlabels

theorem directivePlaces_pairwise_lt (drop : Nat → Bool) (text : List Char) :
    (directivePlaces drop text).Pairwise (· < ·) := by
  rw [directivePlaces, List.pairwise_filterMap]
  apply ((directivesBelow_pairwise_start text).filter drop).imp
  intro i j hlt pos hpos pos' hpos'
  obtain ⟨a, ha, rfl⟩ := Option.map_eq_some_iff.1 hpos
  obtain ⟨b, hb, rfl⟩ := Option.map_eq_some_iff.1 hpos'
  exact hlt a b ha hb

/-- At the offset of a directive stands its token. -/
theorem exists_directive_of_mem_directivePlaces {drop : Nat → Bool} {text : List Char} {pos : Nat}
    (h : pos ∈ directivePlaces drop text) : ∃ line, ⟨pos, .directive line⟩ ∈ lex text := by
  obtain ⟨i, hi, hpos⟩ := List.mem_filterMap.1 h
  obtain ⟨label, hlabel, rfl⟩ := Option.map_eq_some_iff.1 hpos
  have hmem : some label ∈ ((outline text).directivesBelow 0).map (outline text).label? :=
    List.mem_map.2 ⟨i, (List.mem_filter.1 hi).1, hlabel⟩
  rw [map_label?_directivesBelow] at hmem
  obtain ⟨d, hd, hlabel'⟩ := List.mem_map.1 hmem
  obtain rfl := Option.some.inj hlabel'
  rw [← filterMap_directive?_lex] at hd
  obtain ⟨⟨start, lexeme⟩, htoken, hdirective⟩ := List.mem_filterMap.1 hd
  obtain ⟨rfl, rfl⟩ := Token.directive?_eq_some.1 hdirective
  exact ⟨d.line, htoken⟩

/-- A directive node stands at one of the places exactly if it is to be dropped. -/
theorem mem_directivePlaces_iff {drop : Nat → Bool} {text : List Char} {i : Nat} {label : Label}
    (hi : i ∈ (outline text).directivesBelow 0) (hlabel : (outline text).label? i = some label) :
    label.start.toNat ∈ directivePlaces drop text ↔ drop i = true := by
  constructor
  · intro h
    obtain ⟨j, hj, hpos⟩ := List.mem_filterMap.1 h
    obtain ⟨hj, hdrop⟩ := List.mem_filter.1 hj
    obtain ⟨label', hlabel', hstart⟩ := Option.map_eq_some_iff.1 hpos
    -- directives at one offset are one directive
    have hne : ((outline text).directivesBelow 0).Pairwise fun i j => ∀ a b,
        (outline text).label? i = some a → (outline text).label? j = some b →
          a.start.toNat ≠ b.start.toNat :=
      (directivesBelow_pairwise_start text).imp fun h a b ha hb => Nat.ne_of_lt (h a b ha hb)
    have : Std.Symm fun i j => ∀ a b, (outline text).label? i = some a →
        (outline text).label? j = some b → a.start.toNat ≠ b.start.toNat :=
      ⟨fun _ _ h a b ha hb heq => h b a hb ha heq.symm⟩
    by_cases hij : i = j
    · rw [hij, hdrop]
    · exact absurd hstart.symm (hne.forall hi hj hij label label' hlabel hlabel')
  · intro hdrop
    refine List.mem_filterMap.2 ⟨i, List.mem_filter.2 ⟨hi, hdrop⟩, ?_⟩
    rw [hlabel, Option.map_some]

/-- The tokens of a text with some directives overwritten. -/
theorem tokens_overwriteDirectives (drop : Nat → Bool) (text : List Char) :
    (Edit.overwrite (directivePlaces drop text) text).Tokens true (lex text)
      (lex (overwriteDirectives drop text)) := by
  have hlex := lex_overwriteLines ((directivePlaces_pairwise_lt drop text).imp Nat.ne_of_lt)
    fun _ => exists_directive_of_mem_directivePlaces
  rw [overwriteDirectives, hlex]
  exact tokens_overwrite (directivePlaces drop text) text 0 true text

theorem ofText_overwriteDirectives (drop : Nat → Bool) (text : List Char) :
    LineIndex.ofText (overwriteDirectives drop text) = .ofText text :=
  ofText_overwriteLines text _

/-- The outline of a text with some directives overwritten is the outline of the text without
their nodes. -/
theorem thins_overwriteDirectives (drop : Nat → Bool) (text : List Char) :
    Thins (isSpared drop text) id (outline text) (outline (overwriteDirectives drop text)) := by
  have hthins : Thins ((outline text).keeps (Edit.overwrite (directivePlaces drop text) text).keep)
      id (outline text) (outline (overwriteDirectives drop text)) := by
    have := Edit.thins_outlineWith (tokens_overwriteDirectives drop text) rfl
    rwa [show (Edit.overwrite (directivePlaces drop text) text).lines' =
      .ofText (overwriteDirectives drop text) from (ofText_overwriteDirectives drop text).symm]
      at this
  apply Thins.congr hthins
  intro i hi
  obtain ⟨label, hlabel⟩ := exists_label?_of_lt hi
  have hdirective : (outline text).isDirective i = label.kind.isDirective := by
    rw [isDirective, directive?, kind?, hlabel]
    rfl
  show _ = ((outline text).label? i).any _
  rw [hlabel, isSpared, hdirective]
  cases hkind : label.kind.isDirective with
  | false => simp [Edit.overwrite, hkind]
  | true =>
    have hmem := mem_directivesBelow_iff.2 (hdirective.trans hkind)
    have hplace : decide (label.start.toNat ∈ directivePlaces drop text) = drop i := by
      rw [Bool.eq_iff_iff, decide_eq_true_iff]
      exact mem_directivePlaces_iff hmem hlabel
    simp [Edit.overwrite, hkind, hplace]

end RegionScope.Source
