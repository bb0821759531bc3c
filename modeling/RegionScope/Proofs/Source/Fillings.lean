import RegionScope.Proofs.Source.DirectiveOrder
import RegionScope.Proofs.Source.Edits
import RegionScope.Proofs.Source.Scans

/-!
# What stands within comments and literals

A comment or a literal is one lexeme, whatever stands within it (`Filling.nextLexeme_eq`). The pass
over the tokens sees that it is there, so only its length and its newlines matter, and these only to
offsets and lines. Two texts that differ in what stands within one comment or literal, with as many
newlines, have one outline but for the offsets behind that place (`outline_filling`).
-/

namespace RegionScope.Source

open RegionScope.Text RegionScope.Tree

/-! ## Well-formed comments and literals -/

/-- What may stand between two quotes: backslashes, each with a character that it takes along, and
any other characters but newlines and the quote. -/
inductive LiteralBody (quote : Char) : List Char → Prop
  | nil : LiteralBody quote []
  | plain {c : Char} {cs : List Char} (notBackslash : c ≠ '\\') (notQuote : c ≠ quote)
      (notNewline : c ≠ '\n') (rest : LiteralBody quote cs) : LiteralBody quote (c :: cs)
  | escape {c : Char} {cs : List Char} (rest : LiteralBody quote cs) :
      LiteralBody quote ('\\' :: c :: cs)

/-- A whole comment, regular string or character literal of a kind of lexeme, with the text `post`
behind it: a line comment goes up to the end of its line, and no further quote follows a string. -/
inductive Filling (post : List Char) : Lexeme → List Char → Prop
  | lineComment {body : List Char} (oneLine : '\n' ∉ body)
      (lineEnds : post = [] ∨ post.head? = some '\n') :
      Filling post .lineComment ('/' :: '/' :: body)
  | blockComment {body : List Char} (notClosed : ¬ ['*', '/'] <:+: body) :
      Filling post .blockComment ('/' :: '*' :: (body ++ ['*', '/']))
  | stringLiteral {body : List Char} (wellFormed : LiteralBody '"' body)
      (noQuote : post.head? ≠ some '"') : Filling post .stringLiteral ('"' :: (body ++ ['"']))
  | charLiteral {body : List Char} (wellFormed : LiteralBody '\'' body) :
      Filling post .charLiteral ('\'' :: (body ++ ['\'']))

/-- The character that a comment or a literal begins with. -/
def Lexeme.opening : Lexeme → Char
  | .stringLiteral => '"'
  | .charLiteral => '\''
  | _ => '/'

/-! ## A filling is one lexeme -/

variable {post body : List Char}

theorem restOfLine_of_oneLine (hbody : '\n' ∉ body) (hpost : post = [] ∨ post.head? = some '\n') :
    restOfLine (body ++ post) = body := by
  induction body with
  | nil =>
    rcases hpost with rfl | hpost
    · rfl
    · cases post with
      | nil => rfl
      | cons c post =>
        obtain rfl := Option.some.inj hpost
        rfl
  | cons c body ih =>
    have hc : c ≠ '\n' := fun heq => hbody (heq ▸ List.mem_cons_self)
    have hrest := ih fun hmem => hbody (List.mem_cons_of_mem c hmem)
    rw [restOfLine] at hrest ⊢
    rw [List.cons_append, List.takeWhile_cons_of_pos (by simpa using hc), hrest]

theorem commentTail_of_notClosed (hbody : ¬ ['*', '/'] <:+: body) (post : List Char) :
    commentTail (body ++ '*' :: '/' :: post) = body.length + 2 := by
  induction body with
  | nil => rfl
  | cons c body ih =>
    have hrest := ih fun hinside => hbody (hinside.trans (List.suffix_cons c body).isInfix)
    rw [List.cons_append, commentTail, hrest, if_neg, List.length_cons]
    · omega
    · -- a closing mark here would stand in the body, or need two slashes
      rintro ⟨rfl, hhead⟩
      cases body with
      | nil => exact absurd (Option.some.inj hhead) (by decide)
      | cons d body =>
        obtain rfl : d = '/' := by simpa using hhead
        exact hbody ⟨[], body, rfl⟩

theorem charTail_of_literalBody (hbody : LiteralBody '\'' body) (post : List Char) :
    charTail (body ++ '\'' :: post) = body.length + 1 := by
  induction hbody with
  | nil => rw [List.nil_append, charTail_cons]; rfl
  | @plain c cs notBackslash notQuote notNewline _ ih =>
    rw [List.cons_append, charTail_cons, if_neg notBackslash, if_neg notQuote, if_neg notNewline,
      ih, List.length_cons]
    omega
  | @escape c cs _ ih =>
    rw [List.cons_append, charTail_cons, if_pos rfl, List.cons_append, List.drop_succ_cons,
      List.drop_zero, ih, List.length_cons, List.length_cons]
    omega

theorem stringTail_of_literalBody (hbody : LiteralBody '"' body) (post : List Char) :
    stringTail ⟨false, false⟩ 0 (body ++ '"' :: post) = body.length + 1 := by
  induction hbody with
  | nil => exact stringTail_of_last_move rfl
  | @plain c cs notBackslash notQuote notNewline _ ih =>
    have hmove : stringMove ⟨false, false⟩ 0 c (cs ++ '"' :: post) = (0 + 1, some 0) := by
      simp [stringMove, notBackslash, notQuote, notNewline]
    rw [List.cons_append, stringTail_of_move hmove, List.drop_zero, ih, List.length_cons]
    omega
  | @escape c cs _ ih =>
    have hmove : stringMove ⟨false, false⟩ 0 '\\' (c :: cs ++ '"' :: post) = (1 + 1, some 0) := rfl
    rw [List.cons_append, stringTail_of_move hmove, List.cons_append, List.drop_succ_cons,
      List.drop_zero, ih, List.length_cons, List.length_cons]
    omega

/-- A string is no raw one where neither its body begins with a quote nor a quote follows it. -/
theorem startsRaw_eq_false {body : List Char} (hbody : body.head? ≠ some '"')
    (hpost : post.head? ≠ some '"') : startsRaw ('"' :: (body ++ '"' :: post)) = false := by
  cases body with
  | nil =>
    cases post with
    | nil => rfl
    | cons c post =>
      have hc : (c == '"') = false := by simpa using hpost
      simp [startsRaw, leadingQuotes, hc]
  | cons c body =>
    have hc : (c == '"') = false := by simpa using hbody
    simp [startsRaw, leadingQuotes, hc]

theorem LiteralBody.head?_ne {quote : Char} (hquote : quote ≠ '\\') {body : List Char}
    (h : LiteralBody quote body) : body.head? ≠ some quote := by
  cases h with
  | nil => nofun
  | plain _ notQuote => exact fun h => notQuote (Option.some.inj h)
  | escape => exact fun h => hquote (Option.some.inj h).symm

theorem stringExtent_of_literalBody (hbody : LiteralBody '"' body)
    (hpost : post.head? ≠ some '"') :
    stringExtent ('"' :: (body ++ '"' :: post)) = body.length + 2 := by
  have hsigils : sigils ('"' :: (body ++ '"' :: post)) = [] := rfl
  have hafter : afterSigils ('"' :: (body ++ '"' :: post)) = '"' :: (body ++ '"' :: post) := rfl
  -- the quotes at the head are too few for a raw string: no further one follows an empty body
  have hregular : startsRaw ('"' :: (body ++ '"' :: post)) = false :=
    startsRaw_eq_false (hbody.head?_ne (by decide)) hpost
  have hstyle : StringStyle.ofSigils [] = ⟨false, false⟩ := rfl
  rw [stringExtent, hsigils, hafter, quotedExtent, hregular, hstyle]
  rw [if_neg (by decide), List.drop_succ_cons, List.drop_zero, stringTail_of_literalBody hbody,
    List.length_nil]
  omega

/-- A filling is one lexeme, whether or not a directive may begin in front of it. -/
theorem Filling.nextLexeme_eq {lexeme : Lexeme} {x : List Char} (h : Filling post lexeme x)
    (atStart : Bool) : ∃ rest, x = lexeme.opening :: rest ∧
      nextLexeme atStart lexeme.opening (rest ++ post) = (lexeme, rest.length) := by
  have hhash : ∀ c : Char, c ≠ '#' → ¬ (atStart && c == '#') = true := by
    intro c hc
    simp [hc]
  cases h with
  | @lineComment body oneLine lineEnds =>
    refine ⟨'/' :: body, rfl, ?_⟩
    have hline : restOfLine ('/' :: body ++ post) = '/' :: body := by
      apply restOfLine_of_oneLine _ lineEnds
      simpa using oneLine
    rw [show Lexeme.opening .lineComment = '/' from rfl, nextLexeme, if_neg (by decide),
      if_neg (by decide), if_neg (hhash '/' (by decide)), if_pos ⟨rfl, rfl⟩, hline]
  | @blockComment body notClosed =>
    refine ⟨'*' :: (body ++ ['*', '/']), rfl, ?_⟩
    have htail : commentTail (body ++ ['*', '/'] ++ post) = body.length + 2 := by
      rw [List.append_assoc]
      exact commentTail_of_notClosed notClosed post
    rw [show Lexeme.opening .blockComment = '/' from rfl, nextLexeme, if_neg (by decide),
      if_neg (by decide), if_neg (hhash '/' (by decide)), if_neg (by simp), if_pos ⟨rfl, rfl⟩,
      List.cons_append, List.drop_succ_cons, List.drop_zero, htail]
    simp only [List.length_cons, List.length_append, List.length_nil, Prod.mk.injEq, true_and]
    omega
  | @stringLiteral body hbody noQuote =>
    refine ⟨body ++ ['"'], rfl, ?_⟩
    have hextent : stringExtent ('"' :: (body ++ ['"'] ++ post)) = body.length + 2 := by
      rw [List.append_assoc]
      exact stringExtent_of_literalBody hbody noQuote
    have hstring : startsString ('"' :: (body ++ ['"'] ++ post)) = true := rfl
    rw [show Lexeme.opening .stringLiteral = '"' from rfl, nextLexeme, if_neg (by decide),
      if_neg (by decide), if_neg (hhash '"' (by decide)), if_neg (by simp), if_neg (by simp),
      if_pos hstring, hextent]
    simp
  | @charLiteral body hbody =>
    refine ⟨body ++ ['\''], rfl, ?_⟩
    have htail : charTail (body ++ ['\''] ++ post) = body.length + 1 := by
      rw [List.append_assoc]
      exact charTail_of_literalBody hbody post
    have hstring : startsString ('\'' :: (body ++ ['\''] ++ post)) = false := rfl
    rw [show Lexeme.opening .charLiteral = '\'' from rfl, nextLexeme, if_neg (by decide),
      if_neg (by decide), if_neg (hhash '\'' (by decide)), if_neg (by simp), if_neg (by simp),
      hstring, if_neg (by decide), if_pos rfl, htail]
    simp

theorem Filling.length_pos {lexeme : Lexeme} {x : List Char} (h : Filling post lexeme x) :
    0 < x.length := by
  obtain ⟨rest, rfl, -⟩ := h.nextLexeme_eq true
  exact Nat.succ_pos _

/-! ## Texts that differ within one filling -/

/-- What a label reads when what stands behind `place` is moved. -/
def moveBehind (place : Nat) (distance : Int) (label : Label) : Label :=
  if (place : Int) < label.start then { label with start := label.start + distance } else label

/-- The edit that puts `x'` in place of `x` between `pre` and `post`. -/
def Edit.replace (pre x x' post : List Char) : Edit where
  lines := .ofText (pre ++ x ++ post)
  lines' := .ofText (pre ++ x' ++ post)
  keep := fun _ => true
  move := moveBehind pre.length ((x'.length : Int) - x.length)
  keep_of_isDirective := fun _ _ => rfl
  kind_move := by
    intro label
    unfold moveBehind
    split <;> rfl

variable {pre x x' : List Char}

/-- Offsets up to the replaced part stay. -/
theorem at_replace_of_le {pos : Nat} (h : pos ≤ pre.length) :
    (Edit.replace pre x x' post).At pos pos := by
  have hline : ∀ y,
      (LineIndex.ofText (pre ++ y ++ post)).line pos = newlines (pre.take pos) + 1 := by
    intro y
    rw [LineIndex.line_ofText_natCast, List.append_assoc, List.take_append_of_le_length h]
  intro kind name
  have hstart : ¬ (pre.length : Int) < pos := by omega
  simp only [Edit.replace, moveBehind, if_neg hstart, hline]

/-- Offsets behind the replaced part are moved by as much as its length changes. -/
theorem at_replace_behind (hx : 0 < x.length) (hlines : newlines x = newlines x') (pos : Nat) :
    (Edit.replace pre x x' post).At (pos + (pre.length + x.length))
      (pos + (pre.length + x'.length)) := by
  have hline : ∀ y : List Char, (LineIndex.ofText (pre ++ y ++ post)).line
      ((pos + (pre.length + y.length) : Nat) : Int) =
        newlines pre + newlines y + newlines (post.take pos) + 1 := by
    intro y
    have htake : (pre ++ y ++ post).take (pos + (pre.length + y.length)) =
        pre ++ y ++ post.take pos := by
      rw [Nat.add_comm, ← List.length_append, List.take_length_add_append]
    rw [LineIndex.line_ofText_natCast, htake, newlines_append, newlines_append]
  intro kind name
  have hstart : (pre.length : Int) < (pos + (pre.length + x.length) : Nat) := by omega
  have hmoved : ((pos + (pre.length + x.length) : Nat) : Int) + ((x'.length : Int) - x.length) =
      (pos + (pre.length + x'.length) : Nat) := by omega
  simp only [Edit.replace, moveBehind, if_pos hstart, hline, hmoved, hlines]

/-- The tokens of the two texts are the same but for the offsets behind the replaced part. -/
theorem tokens_replace {lexeme : Lexeme} (hx : Filling post lexeme x)
    (hx' : Filling post lexeme x') (hlines : newlines x = newlines x')
    (hstart : ∃ token ∈ lex (pre ++ x ++ post), token.start = pre.length) :
    (Edit.replace pre x x' post).Tokens true (lex (pre ++ x ++ post))
      (lex (pre ++ x' ++ post)) := by
  obtain ⟨token, htoken, hstart⟩ := hstart
  rw [List.append_assoc, lex] at htoken
  obtain ⟨before, atMid, hbefore⟩ := Scans.of_mem htoken (by rwa [Nat.zero_add])
  obtain ⟨rest, hrest, hlexeme⟩ := hx.nextLexeme_eq atMid
  obtain ⟨rest', hrest', hlexeme'⟩ := hx'.nextLexeme_eq atMid
  have hopening : isSigil lexeme.opening = false := by cases lexeme <;> rfl
  -- both texts are scanned alike up to the replaced part, which is one token
  have hsplit : ∀ y r, y = lexeme.opening :: r →
      nextLexeme atMid lexeme.opening (r ++ post) = (lexeme, r.length) →
      lex (pre ++ y ++ post) = before ++ ⟨pre.length, lexeme⟩ ::
        (lexFrom 0 (lexeme.leavesAtStart atMid) post).map
          (Token.shift (pre.length + y.length)) := by
    intro y r hy hlexeme
    subst hy
    rw [hrest] at hbefore
    have hscan := (hbefore.congr hopening (r ++ post)).append (.single hlexeme)
    rw [lex, hscan.lexFrom_append, ← lexFrom_add, List.length_append]
    simp
  rw [hsplit x rest hrest hlexeme, hsplit x' rest' hrest' hlexeme']
  -- before it, at it and behind it each token is moved to its place
  apply Edit.Tokens.of_forall₂ (fun _ => rfl)
  apply List.rel_append
  · apply List.forall₂_same.2
    intro token htoken
    have hlt := (hbefore.start_bounds htoken).2
    exact ⟨rfl, at_replace_of_le (by omega)⟩
  apply List.Forall₂.cons ⟨rfl, at_replace_of_le (Nat.le_refl _)⟩
  rw [List.forall₂_map_left_iff, List.forall₂_map_right_iff]
  apply List.forall₂_same.2
  intro token _
  exact ⟨rfl, at_replace_behind hx.length_pos hlines token.start⟩

/-- What stands within a comment, a regular string or a character literal never changes the outline:
if a token starts at a comment or literal `x` of a text, then with another one `x'` of its kind, and
of as many newlines, in its place the outline has the same nodes with the same ancestors and
children, of the same kinds, lines and names, and with the same offsets but behind that place, where
they are moved by as much as the length changes. -/
theorem outline_filling {lexeme : Lexeme} (hx : Filling post lexeme x)
    (hx' : Filling post lexeme x') (hlines : newlines x = newlines x')
    (hstart : ∃ token ∈ lex (pre ++ x ++ post), token.start = pre.length) :
    (outline (pre ++ x' ++ post)).size = (outline (pre ++ x ++ post)).size ∧
      ∀ i, (outline (pre ++ x' ++ post)).ancestors i = (outline (pre ++ x ++ post)).ancestors i ∧
        (outline (pre ++ x' ++ post)).children i = (outline (pre ++ x ++ post)).children i ∧
        (outline (pre ++ x' ++ post)).label? i = ((outline (pre ++ x ++ post)).label? i).map
          (moveBehind pre.length ((x'.length : Int) - x.length)) := by
  have hroot : moveBehind pre.length ((x'.length : Int) - x.length)
      ⟨.compilationUnit, 0, 1, ""⟩ = ⟨.compilationUnit, 0, 1, ""⟩ :=
    if_neg (Int.not_lt.2 (Int.natCast_nonneg _))
  have hthins := Edit.thins_outlineWith (tokens_replace hx hx' hlines hstart) hroot
  apply hthins.of_forall_kept
  intro i hi
  obtain ⟨label, hlabel⟩ := exists_label?_of_lt hi
  rw [keeps, hlabel]
  rfl

/-- A brace in a string is as good as a closing one with a semicolon, a hash sign and a quote. -/
theorem outline_filling_braces_in_string :
    Filling ";\x7d".toList .stringLiteral "\"\x7b\"".toList ∧
      Filling ";\x7d".toList .stringLiteral "\"\x7d;#\\\"\"".toList ∧
      newlines "\"\x7b\"".toList = newlines "\"\x7d;#\\\"\"".toList ∧
      (∃ token ∈ lex ("M()\x7bs=".toList ++ "\"\x7b\"".toList ++ ";\x7d".toList), token.start = 6) ∧
      (outline ("M()\x7bs=".toList ++ "\"\x7d;#\\\"\"".toList ++ ";\x7d".toList)).size =
        (outline ("M()\x7bs=".toList ++ "\"\x7b\"".toList ++ ";\x7d".toList)).size := by
  have hx : Filling ";\x7d".toList .stringLiteral "\"\x7b\"".toList := by
    apply @Filling.stringLiteral _ ['\x7b']
    · exact .plain (by decide) (by decide) (by decide) .nil
    · decide
  have hx' : Filling ";\x7d".toList .stringLiteral "\"\x7d;#\\\"\"".toList := by
    apply @Filling.stringLiteral _ ['\x7d', ';', '#', '\\', '"']
    · apply LiteralBody.plain (by decide) (by decide) (by decide)
      apply LiteralBody.plain (by decide) (by decide) (by decide)
      apply LiteralBody.plain (by decide) (by decide) (by decide)
      exact .escape .nil
    · decide
  have hstart : ∃ token ∈ lex ("M()\x7bs=".toList ++ "\"\x7b\"".toList ++ ";\x7d".toList),
      token.start = 6 := ⟨⟨6, .stringLiteral⟩, by decide +kernel, rfl⟩
  exact ⟨hx, hx', rfl, hstart, (outline_filling hx hx' rfl hstart).1⟩

end RegionScope.Source
