import RegionScope.Proofs.Source.Fillings

/-!
# Literals within literals

An interpolated string has holes, a hole may hold strings and character literals, and a string in a
hole may have holes of its own, to any depth. `StringLiteral` says which texts are whole strings, by
rules that know nothing of a scanner: no offsets, no depth of open braces, no look behind. The scan
of a string ends exactly behind every such text, whatever stands before it and whatever follows but
a further quote (`literal_extents`).

The parts of a literal are taken one after the other: a body up to its closing quote
(`InterpolatedBody.stringTail_eq`), a hole up to its closing brace (`HoleText.stringTail_eq`).
-/

namespace RegionScope.Source

/-! ## Well-formed literals -/

mutual

/-- A whole string, regular or interpolated. -/
inductive StringLiteral : List Char → Prop
  | regular {body : List Char} (wellFormed : LiteralBody '"' body) :
      StringLiteral ('"' :: (body ++ ['"']))
  | interpolated {body : List Char} (wellFormed : InterpolatedBody body) :
      StringLiteral ('$' :: '"' :: (body ++ ['"']))

/-- What may stand between the quotes of an interpolated string: what may stand in a regular one,
where an opening brace is written twice or begins a hole. -/
inductive InterpolatedBody : List Char → Prop
  | nil : InterpolatedBody []
  | plain {c : Char} {cs : List Char} (notBackslash : c ≠ '\\') (notQuote : c ≠ '"')
      (notNewline : c ≠ '\n') (notBrace : c ≠ '\x7b') (rest : InterpolatedBody cs) :
      InterpolatedBody (c :: cs)
  | escape {c : Char} {cs : List Char} (rest : InterpolatedBody cs) :
      InterpolatedBody ('\\' :: c :: cs)
  | brace {cs : List Char} (rest : InterpolatedBody cs) :
      InterpolatedBody ('\x7b' :: '\x7b' :: cs)
  | hole {inner cs : List Char} (content : HoleText inner) (single : inner.head? ≠ some '\x7b')
      (rest : InterpolatedBody cs) : InterpolatedBody ('\x7b' :: (inner ++ '\x7d' :: cs))

/-- What may stand in a hole: whole literals, no further quote behind a string, groups in braces,
and other characters, where a mark stands in front of neither a mark nor a quote. -/
inductive HoleText : List Char → Prop
  | nil : HoleText []
  | string {literal cs : List Char} (whole : StringLiteral literal) (noQuote : cs.head? ≠ some '"')
      (rest : HoleText cs) : HoleText (literal ++ cs)
  | character {body cs : List Char} (wellFormed : LiteralBody '\'' body) (rest : HoleText cs) :
      HoleText ('\'' :: (body ++ '\'' :: cs))
  | group {inner cs : List Char} (content : HoleText inner) (rest : HoleText cs) :
      HoleText ('\x7b' :: (inner ++ '\x7d' :: cs))
  | other {c : Char} {cs : List Char} (notQuote : c ≠ '"' ∧ c ≠ '\'')
      (notBrace : c ≠ '\x7b' ∧ c ≠ '\x7d')
      (mark : c = '$' ∨ c = '@' → ∀ d ∈ cs.head?, d ≠ '$' ∧ d ≠ '@' ∧ d ≠ '"')
      (rest : HoleText cs) : HoleText (c :: cs)

end

/-- A whole character literal. -/
inductive CharLiteral : List Char → Prop
  | intro {body : List Char} (wellFormed : LiteralBody '\'' body) :
      CharLiteral ('\'' :: (body ++ ['\'']))

/-! ## Moves -/

variable {c : Char} {cs post : List Char}

/-- A closing brace ends a group. -/
theorem stringTail_close (style : StringStyle) (depth : Nat) (cs : List Char) :
    stringTail style (depth + 1) ('\x7d' :: cs) = 1 + stringTail style depth cs := by
  have hmove : stringMove style (depth + 1) '\x7d' cs = (0 + 1, some depth) := rfl
  rw [stringTail_of_move hmove, List.drop_zero]

/-- An opening brace in a hole begins a group. -/
theorem stringTail_open (style : StringStyle) (depth : Nat) (cs : List Char) :
    stringTail style (depth + 1) ('\x7b' :: cs) = 1 + stringTail style (depth + 2) cs := by
  have hmove : stringMove style (depth + 1) '\x7b' cs = (0 + 1, some (depth + 2)) := rfl
  rw [stringTail_of_move hmove, List.drop_zero]

/-- A string in a hole is taken as a whole. -/
theorem stringTail_of_string {literal : List Char} (hstring : startsString (literal ++ cs) = true)
    (hextent : stringExtent (literal ++ cs) = literal.length) (style : StringStyle) (depth : Nat) :
    stringTail style (depth + 1) (literal ++ cs) =
      literal.length + stringTail style (depth + 1) cs := by
  have hpos := stringExtent_pos (literal ++ cs)
  cases literal with
  | nil =>
    rw [hextent] at hpos
    exact absurd hpos (Nat.lt_irrefl 0)
  | cons c literal =>
    rw [List.cons_append] at hstring hextent ⊢
    have hmove : stringMove style (depth + 1) c (literal ++ cs) =
        (literal.length + 1, some (depth + 1)) := by
      rw [stringMove, if_neg (Nat.succ_ne_zero depth), if_pos hstring, hextent, List.length_cons]
    rw [stringTail_of_move hmove, List.drop_left, List.length_cons]

/-- A character literal in a hole is taken as a whole. -/
theorem stringTail_of_character {body : List Char} (hbody : LiteralBody '\'' body)
    (style : StringStyle) (depth : Nat) (cs : List Char) :
    stringTail style (depth + 1) ('\'' :: (body ++ '\'' :: cs)) =
      body.length + 2 + stringTail style (depth + 1) cs := by
  have hmove : stringMove style (depth + 1) '\'' (body ++ '\'' :: cs) =
      (body.length + 1 + 1, some (depth + 1)) := by
    have hstring : startsString ('\'' :: (body ++ '\'' :: cs)) = false := rfl
    rw [stringMove, if_neg (Nat.succ_ne_zero depth), hstring, if_neg Bool.false_ne_true, if_pos rfl,
      charTail_of_literalBody hbody, Nat.add_comm]
  have hdrop : (body ++ '\'' :: cs).drop (body.length + 1) = cs := by
    rw [← List.drop_drop, List.drop_left, List.drop_succ_cons, List.drop_zero]
  rw [stringTail_of_move hmove, hdrop]

/-- Where no quote follows a character but behind marks, no string begins at it. -/
theorem startsString_eq_false (hquote : c ≠ '"')
    (hmark : c = '$' ∨ c = '@' → ∀ d ∈ cs.head?, d ≠ '$' ∧ d ≠ '@' ∧ d ≠ '"') :
    startsString (c :: cs) = false := by
  by_cases hc : isSigil c = true
  · have hsigil : c = '$' ∨ c = '@' := by simpa [isSigil] using hc
    have hafter : afterSigils (c :: cs) = cs := by
      rw [afterSigils, List.dropWhile_cons_of_pos hc]
      cases cs with
      | nil => rfl
      | cons d cs =>
        obtain ⟨hdollar, hat, -⟩ := hmark hsigil d rfl
        exact List.dropWhile_cons_of_neg (by simp [isSigil, hdollar, hat])
    have hhead : cs.head? ≠ some '"' := fun h => (hmark hsigil '"' h).2.2 rfl
    rw [startsString, hafter, beq_false_of_ne hhead, Bool.and_false]
  · have hafter : afterSigils (c :: cs) = c :: cs := List.dropWhile_cons_of_neg hc
    have hhead : (c :: cs).head? ≠ some '"' := fun h => hquote (Option.some.inj h)
    rw [startsString, hafter, beq_false_of_ne hhead, Bool.and_false]

/-! ## Whole literals -/

theorem InterpolatedBody.head?_ne {body : List Char} (h : InterpolatedBody body) :
    body.head? ≠ some '"' := by
  cases h with
  | plain _ notQuote => exact fun h => notQuote (Option.some.inj h)
  | _ => simp

mutual

/-- A string is taken up to its closing quote. -/
theorem StringLiteral.extent_eq {literal : List Char} (h : StringLiteral literal)
    {post : List Char} (hpost : post.head? ≠ some '"') : startsString (literal ++ post) = true ∧
      stringExtent (literal ++ post) = literal.length := by
  match h with
  | @StringLiteral.regular body wellFormed =>
    refine ⟨rfl, ?_⟩
    rw [List.cons_append, List.append_assoc, List.singleton_append,
      stringExtent_of_literalBody wellFormed hpost]
    simp
  | @StringLiteral.interpolated body wellFormed =>
    have hsigils : sigils ('$' :: '"' :: (body ++ '"' :: post)) = ['$'] := rfl
    have hafter : afterSigils ('$' :: '"' :: (body ++ '"' :: post)) =
      '"' :: (body ++ '"' :: post) := rfl
    have hstyle : StringStyle.ofSigils ['$'] = ⟨true, false⟩ := rfl
    refine ⟨rfl, ?_⟩
    rw [List.cons_append, List.cons_append, List.append_assoc, List.singleton_append, stringExtent,
      hsigils, hafter, hstyle, quotedExtent, startsRaw_eq_false wellFormed.head?_ne hpost,
      if_neg Bool.false_ne_true, List.drop_succ_cons, List.drop_zero,
      InterpolatedBody.stringTail_eq wellFormed]
    simp only [List.length_cons, List.length_append, List.length_nil]
    omega

/-- What stands between the quotes of an interpolated string is taken up to the closing one. -/
theorem InterpolatedBody.stringTail_eq {body : List Char} (h : InterpolatedBody body)
    (post : List Char) :
    stringTail ⟨true, false⟩ 0 (body ++ '"' :: post) = body.length + 1 := by
  match h with
  | .nil => exact stringTail_of_last_move rfl
  | @InterpolatedBody.plain c cs notBackslash notQuote notNewline notBrace rest =>
    have hmove : stringMove ⟨true, false⟩ 0 c (cs ++ '"' :: post) = (0 + 1, some 0) := by
      simp [stringMove, notBackslash, notQuote, notNewline, notBrace]
    rw [List.cons_append, stringTail_of_move hmove, List.drop_zero,
      InterpolatedBody.stringTail_eq rest, List.length_cons]
    omega
  | @InterpolatedBody.escape c cs rest =>
    have hmove : stringMove ⟨true, false⟩ 0 '\\' (c :: cs ++ '"' :: post) = (1 + 1, some 0) := rfl
    rw [List.cons_append, stringTail_of_move hmove, List.cons_append, List.drop_succ_cons,
      List.drop_zero, InterpolatedBody.stringTail_eq rest, List.length_cons, List.length_cons]
    omega
  | @InterpolatedBody.brace cs rest =>
    have hmove : stringMove ⟨true, false⟩ 0 '\x7b' ('\x7b' :: cs ++ '"' :: post) =
      (1 + 1, some 0) := rfl
    rw [List.cons_append, stringTail_of_move hmove, List.cons_append, List.drop_succ_cons,
      List.drop_zero, InterpolatedBody.stringTail_eq rest, List.length_cons, List.length_cons]
    omega
  | @InterpolatedBody.hole inner cs content single rest =>
    have hbehind : inner ++ '\x7d' :: cs ++ '"' :: post =
        inner ++ '\x7d' :: (cs ++ '"' :: post) := by
      rw [List.append_assoc, List.cons_append]
    have hsingle : (inner ++ '\x7d' :: (cs ++ '"' :: post)).head? ≠ some '\x7b' := by
      cases inner with
      | nil => simp
      | cons d inner => exact single
    have hmove : stringMove ⟨true, false⟩ 0 '\x7b' (inner ++ '\x7d' :: (cs ++ '"' :: post)) =
        (0 + 1, some 1) := by
      rw [stringMove, if_pos rfl, if_pos (by rfl), if_neg hsingle]
    rw [List.cons_append, hbehind, stringTail_of_move hmove, List.drop_zero,
      HoleText.stringTail_eq content, stringTail_close, InterpolatedBody.stringTail_eq rest]
    simp only [List.length_cons, List.length_append]
    omega

/-- What stands in a hole or a group of it is taken up to the closing brace. -/
theorem HoleText.stringTail_eq {inner : List Char} (h : HoleText inner) (style : StringStyle)
    (depth : Nat) (post : List Char) :
    stringTail style (depth + 1) (inner ++ '\x7d' :: post) =
      inner.length + stringTail style (depth + 1) ('\x7d' :: post) := by
  match h with
  | .nil => rw [List.nil_append, List.length_nil, Nat.zero_add]
  | @HoleText.string literal cs whole noQuote rest =>
    have hquote : (cs ++ '\x7d' :: post).head? ≠ some '"' := by
      cases cs with
      | nil => simp
      | cons d cs => exact noQuote
    obtain ⟨hstring, hextent⟩ := StringLiteral.extent_eq whole hquote
    rw [List.append_assoc, stringTail_of_string hstring hextent, HoleText.stringTail_eq rest,
      List.length_append, Nat.add_assoc]
  | @HoleText.character body cs wellFormed rest =>
    rw [List.cons_append, List.append_assoc, List.cons_append, stringTail_of_character wellFormed,
      HoleText.stringTail_eq rest]
    simp only [List.length_cons, List.length_append]
    omega
  | @HoleText.group inner cs content rest =>
    rw [List.cons_append, List.append_assoc, List.cons_append, stringTail_open,
      HoleText.stringTail_eq content, stringTail_close, HoleText.stringTail_eq rest]
    simp only [List.length_cons, List.length_append]
    omega
  | @HoleText.other c cs notQuote notBrace mark rest =>
    have hmark : c = '$' ∨ c = '@' → ∀ d ∈ (cs ++ '\x7d' :: post).head?,
        d ≠ '$' ∧ d ≠ '@' ∧ d ≠ '"' := by
      cases cs with
      | nil => simp
      | cons d cs => exact mark
    have hstring := startsString_eq_false notQuote.1 hmark
    have hmove : stringMove style (depth + 1) c (cs ++ '\x7d' :: post) =
        (0 + 1, some (depth + 1)) := by
      simp [stringMove, hstring, notQuote.2, notBrace.1, notBrace.2]
    rw [List.cons_append, stringTail_of_move hmove, List.drop_zero, HoleText.stringTail_eq rest,
      List.length_cons]
    omega

end

/-- The scan of a string goes exactly to behind it, for regular strings and for interpolated ones
with whatever nested literals in their holes, in every text in which no further quote follows. The
scan of a character literal goes exactly to behind it in every text. -/
theorem literal_extents (pre post : List Char) :
    (∀ literal, StringLiteral literal → post.head? ≠ some '"' →
      stringExtent? ((pre ++ literal ++ post).drop pre.length) = some literal.length) ∧
    ∀ literal, CharLiteral literal →
      charExtent ((pre ++ literal ++ post).drop pre.length) = literal.length := by
  constructor
  · intro literal h hpost
    obtain ⟨hstring, hextent⟩ := h.extent_eq hpost
    rw [List.append_assoc, List.drop_left, stringExtent?, if_neg, hextent]
    rw [List.isEmpty_iff]
    exact afterSigils_ne_nil hstring
  · rintro _ ⟨wellFormed⟩
    rw [List.append_assoc, List.drop_left, List.cons_append, List.append_assoc,
      List.singleton_append, charExtent, List.drop_succ_cons, List.drop_zero,
      charTail_of_literalBody wellFormed]
    simp only [List.length_cons, List.length_append, List.length_nil]
    omega

/-- An interpolated string whose hole holds another one, with a closing brace in a character literal
in its hole, and a regular string with a closing brace. -/
theorem literal_extents_nested_holes :
    let nested := "$\"\x7bf($\"\x7b'\x7d'\x7d\",\"\x7d\")\x7d\x7b\x7b\"".toList
    let quote := "'\\''".toList
    StringLiteral nested ∧ CharLiteral quote ∧ ";\x7d".toList.head? ≠ some '"' ∧
      stringExtent? (("s=".toList ++ nested ++ ";\x7d".toList).drop 2) = some 22 ∧
      charExtent (("s=".toList ++ quote ++ ";\x7d".toList).drop 2) = 4 := by
  intro nested quote
  have hinner : StringLiteral "$\"\x7b'\x7d'\x7d\"".toList := by
    apply @StringLiteral.interpolated "\x7b'\x7d'\x7d".toList
    apply @InterpolatedBody.hole "'\x7d'".toList []
    · exact @HoleText.character ['\x7d'] [] (.plain (by decide) (by decide) (by decide) .nil) .nil
    · decide
    · exact .nil
  have hregular : StringLiteral "\"\x7d\"".toList :=
    @StringLiteral.regular ['\x7d'] (.plain (by decide) (by decide) (by decide) .nil)
  have hhole : HoleText "f($\"\x7b'\x7d'\x7d\",\"\x7d\")".toList := by
    apply HoleText.other (by decide) (by decide) (by decide)
    apply HoleText.other (by decide) (by decide) (by decide)
    apply @HoleText.string _ ",\"\x7d\")".toList hinner (by decide)
    apply HoleText.other (by decide) (by decide) (by decide)
    apply @HoleText.string _ ")".toList hregular (by decide)
    exact .other (by decide) (by decide) (by decide) .nil
  have hnested : StringLiteral nested := by
    apply @StringLiteral.interpolated
      "\x7bf($\"\x7b'\x7d'\x7d\",\"\x7d\")\x7d\x7b\x7b".toList
    exact @InterpolatedBody.hole _ "\x7b\x7b".toList hhole (by decide) (.brace .nil)
  have hquote : CharLiteral quote := @CharLiteral.intro ['\\', '\''] (.escape .nil)
  have hpost : ";\x7d".toList.head? ≠ some '"' := by decide
  exact ⟨hnested, hquote, hpost, (literal_extents "s=".toList _).1 nested hnested hpost,
    (literal_extents "s=".toList _).2 quote hquote⟩

end RegionScope.Source
