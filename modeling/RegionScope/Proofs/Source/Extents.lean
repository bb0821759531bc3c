import Mathlib.Tactic.Common
import RegionScope.Source.Lexeme

/-!
# Extents depend on what they take

Whatever stands at the head of a text is taken without a look at what comes behind it, but for one
character: where a lexeme ends in front of a character, it ends there in every text that goes on
with this character (`nextLexeme_append`). The marks in front of a string are passed over when the
lexeme is chosen, so the character must be none of them.

What a string takes next, and the depth at which it goes on, is one function of the text there
(`stringMove`). The extent of a string is then a sum over its moves (`stringTail_cons`).
-/

namespace RegionScope.Source

open RegionScope.Text

variable {front back back' : List Char} {next : Char}

/-! ## Lines, comments and character literals -/

theorem restOfLine_append (h : (restOfLine (front ++ next :: back)).length ≤ front.length) :
    restOfLine (front ++ next :: back') = restOfLine (front ++ next :: back) := by
  induction front with
  | nil =>
    -- nothing is taken, so the line ends here
    have hend : next = '\n' := by
      by_contra hne
      simp [restOfLine, hne] at h
    simp [restOfLine, hend]
  | cons c front ih =>
    by_cases hc : c = '\n'
    · simp [restOfLine, hc]
    · have hcons : ∀ cs, restOfLine (c :: cs) = c :: restOfLine cs := by
        intro cs
        simp [restOfLine, hc]
      rw [List.cons_append, List.cons_append, hcons, hcons]
      rw [List.cons_append, hcons] at h
      rw [ih (Nat.le_of_succ_le_succ h)]

theorem head?_append_cons (front : List Char) (next : Char) (back back' : List Char) :
    (front ++ next :: back').head? = (front ++ next :: back).head? := by
  cases front <;> rfl

theorem commentTail_append (h : commentTail (front ++ next :: back) ≤ front.length) :
    commentTail (front ++ next :: back') = commentTail (front ++ next :: back) := by
  induction front with
  | nil =>
    -- a comment takes a character at least, even to end at once
    have hpos : 1 ≤ commentTail (next :: back) := by
      rw [commentTail]
      split <;> omega
    rw [List.nil_append, List.length_nil] at h
    omega
  | cons c front ih =>
    rw [List.cons_append, commentTail, List.length_cons] at h
    rw [List.cons_append, List.cons_append, commentTail, commentTail,
      head?_append_cons front next back back']
    split
    · rfl
    · next hnot =>
      rw [if_neg hnot] at h
      rw [ih (by omega)]

theorem charTail_cons (c : Char) (cs : List Char) : charTail (c :: cs) =
    if c = '\\' then 2 + charTail (cs.drop 1)
    else if c = '\'' then 1 else if c = '\n' then 0 else 1 + charTail cs := by
  rw [charTail.eq_def]
  cases cs <;> simp [charTail]

theorem charTail_append (h : charTail (front ++ next :: back) ≤ front.length) :
    charTail (front ++ next :: back') = charTail (front ++ next :: back) := by
  -- on the length, as a backslash takes the character behind it along
  induction hlength : front.length using Nat.strongRecOn generalizing front with
  | ind n ih =>
    cases front with
    | nil =>
      -- nothing is taken, which only a newline does
      rw [List.nil_append, charTail_cons] at h
      rw [List.nil_append, List.nil_append, charTail_cons, charTail_cons]
      rw [List.length_nil] at h
      split at h
      · omega
      split at h
      · omega
      split at h
      · next hescape hquote hnewline =>
        simp only [if_neg hescape, if_neg hquote, if_pos hnewline]
      · omega
    | cons c front =>
      rw [List.length_cons] at hlength
      rw [List.cons_append, charTail_cons, List.length_cons] at h
      rw [List.cons_append, List.cons_append, charTail_cons, charTail_cons]
      split
      · next hescape =>
        rw [if_pos hescape] at h
        cases front with
        | nil =>
          rw [List.length_nil] at h
          omega
        | cons d front =>
          simp only [List.cons_append, List.drop_succ_cons, List.drop_zero, List.length_cons]
            at h hlength ⊢
          rw [ih front.length (by omega) (by omega) rfl]
      · next hescape =>
        rw [if_neg hescape] at h
        split
        · rfl
        · next hquote =>
          rw [if_neg hquote] at h
          split
          · rfl
          · next hnewline =>
            rw [if_neg hnewline] at h
            rw [ih front.length (by omega) (by omega) rfl]

/-! ## Raw strings -/

/-- A fence that is found is taken as a whole. -/
theorem le_fenceTail {n : Nat} {cs : List Char} (h : fenceTail n cs < cs.length) :
    n ≤ fenceTail n cs := by
  induction cs with
  | nil => exact absurd h (Nat.not_lt_zero _)
  | cons c cs ih =>
    rw [fenceTail] at h ⊢
    split
    · exact Nat.le_refl n
    · next hnot =>
      rw [if_neg hnot, List.length_cons] at h
      have := ih (by omega)
      omega

theorem leadingQuotes_le_length (cs : List Char) : leadingQuotes cs ≤ cs.length :=
  (List.takeWhile_sublist _).length_le

/-- Whether a fence stands at the head of a text depends on as many characters as it has. -/
theorem fence_prefix_append {n : Nat} (hn : n ≤ front.length) :
    (List.replicate n '"').isPrefixOf (front ++ back') =
      (List.replicate n '"').isPrefixOf (front ++ back) := by
  have key : ∀ rest, List.replicate n '"' <+: front ++ rest ↔ List.replicate n '"' <+: front := by
    intro rest
    constructor
    · intro h
      exact List.prefix_of_prefix_length_le h (List.prefix_append front rest) (by simpa using hn)
    · exact fun h => h.trans (List.prefix_append front rest)
  rw [Bool.eq_iff_iff, List.isPrefixOf_iff_prefix, List.isPrefixOf_iff_prefix, key, key]

theorem fenceTail_append {n : Nat} (hn : 0 < n)
    (h : fenceTail n (front ++ next :: back) ≤ front.length) :
    fenceTail n (front ++ next :: back') = fenceTail n (front ++ next :: back) := by
  induction front with
  | nil =>
    -- a fence has a quote at least, and the search for it takes a character
    rw [List.nil_append, fenceTail, List.length_nil] at h
    split at h <;> omega
  | cons c front ih =>
    have hfence : ∀ back : List Char, n ≤ front.length + 1 →
        (List.replicate n '"').isPrefixOf (c :: (front ++ next :: back)) =
          (List.replicate n '"').isPrefixOf (c :: front) := by
      intro back hn
      have : (List.replicate n '"').isPrefixOf ((c :: front) ++ next :: back) =
          (List.replicate n '"').isPrefixOf ((c :: front) ++ []) := fence_prefix_append hn
      simpa using this
    rw [List.cons_append, fenceTail, List.length_cons] at h
    rw [List.cons_append, List.cons_append, fenceTail, fenceTail]
    split at h
    · next hprefix =>
      rw [if_pos hprefix, if_pos]
      rwa [hfence back' h, ← hfence back h]
    · next hprefix =>
      -- the fence is found further on, so it has its place in front
      have hlength : (front ++ next :: back).length = front.length + (back.length + 1) := by simp
      have hle : n ≤ fenceTail n (front ++ next :: back) := le_fenceTail (by omega)
      rw [if_neg hprefix, if_neg, ih (by omega)]
      rwa [hfence back' (by omega), ← hfence back (by omega)]

/-- The run of quotes at the head of a text ends in front of a character that is none. -/
theorem leadingQuotes_append (h : leadingQuotes (front ++ next :: back) ≤ front.length) :
    leadingQuotes (front ++ next :: back') = leadingQuotes (front ++ next :: back) := by
  unfold leadingQuotes at h ⊢
  rw [List.takeWhile_append] at h
  rw [List.takeWhile_append, List.takeWhile_append]
  split
  · next hall =>
    -- the quotes fill the front, so what follows them is no quote
    have hnext : (next == '"') = false := by
      by_contra hquote
      rw [if_pos hall, List.takeWhile_cons_of_pos (by simpa using hquote)] at h
      simp only [List.length_append, List.length_cons] at h
      omega
    simp [hnext]
  · rfl

theorem rawExtent_append (hquotes : 0 < leadingQuotes (front ++ next :: back))
    (h : rawExtent (front ++ next :: back) ≤ front.length) :
    rawExtent (front ++ next :: back') = rawExtent (front ++ next :: back) := by
  unfold rawExtent at h ⊢
  have hle : leadingQuotes (front ++ next :: back) ≤ front.length := by omega
  rw [List.drop_append_of_le_length hle] at h
  rw [leadingQuotes_append hle, List.drop_append_of_le_length hle,
    List.drop_append_of_le_length hle, fenceTail_append hquotes]
  rw [List.length_drop]
  omega

/-! ## How a string begins -/

theorem takeWhile_append_cons {p : Char → Bool} (hnext : p next = false) (front back : List Char) :
    (front ++ next :: back).takeWhile p = front.takeWhile p := by
  induction front with
  | nil => simp [hnext]
  | cons c front ih =>
    rw [List.cons_append, List.takeWhile_cons, List.takeWhile_cons, ih]

theorem dropWhile_append_cons {p : Char → Bool} (hnext : p next = false) (front back : List Char) :
    (front ++ next :: back).dropWhile p = front.dropWhile p ++ next :: back := by
  induction front with
  | nil => simp [hnext]
  | cons c front ih =>
    rw [List.cons_append, List.dropWhile_cons, List.dropWhile_cons, ih]
    split <;> rfl

/-- The marks of a string end in front of a character that is none. -/
theorem sigils_append (hnext : isSigil next = false) (front back : List Char) :
    sigils (front ++ next :: back) = sigils front := takeWhile_append_cons hnext front back

theorem afterSigils_append (hnext : isSigil next = false) (front back : List Char) :
    afterSigils (front ++ next :: back) = afterSigils front ++ next :: back :=
  dropWhile_append_cons hnext front back

theorem startsString_append (hnext : isSigil next = false) (front back back' : List Char) :
    startsString (front ++ next :: back') = startsString (front ++ next :: back) := by
  rw [startsString, startsString, sigils_append hnext, sigils_append hnext,
    afterSigils_append hnext, afterSigils_append hnext,
    head?_append_cons (afterSigils front) next back back']

/-- The quote behind the marks of a string. -/
theorem head?_afterSigils {cs : List Char} (h : startsString cs = true) :
    (afterSigils cs).head? = some '"' := by
  rw [startsString, Bool.and_eq_true] at h
  exact beq_iff_eq.1 h.2

theorem afterSigils_ne_nil {cs : List Char} (h : startsString cs = true) :
    afterSigils cs ≠ [] := by
  intro hnil
  have hquote := head?_afterSigils h
  rw [hnil] at hquote
  cases hquote

theorem length_sigils_add (cs : List Char) :
    (sigils cs).length + (afterSigils cs).length = cs.length := by
  rw [← List.length_append, sigils, afterSigils, List.takeWhile_append_dropWhile]

/-! ## Strings with holes -/

/-- The extent of a string is a sum over its moves. -/
theorem stringTail_cons (style : StringStyle) (depth : Nat) (c : Char) (cs : List Char) :
    stringTail style depth (c :: cs) =
      (stringMove style depth c cs).1 + ((stringMove style depth c cs).2.map fun depth' =>
        stringTail style depth' (cs.drop ((stringMove style depth c cs).1 - 1))).getD 0 := by
  have hnil : ∀ depth, stringTail style depth [] = 0 := by
    intro depth
    rw [stringTail]
  -- at depth 0 stands the text of the string itself, and in holes strings are taken as a whole
  by_cases hdepth : depth = 0
  · subst hdepth
    rw [stringTail.eq_def, stringMove]
    simp only [if_true]
    split
    · split <;> rfl
    · split
      · cases cs <;> simp [hnil]
      · split
        · split <;> rfl
        · split <;> rfl
  · by_cases hstring : startsString (c :: cs) = true
    · rw [stringTail_of_startsString style c cs hdepth hstring, stringMove, if_neg hdepth,
        if_pos hstring]
      rfl
    · rw [stringTail.eq_def, stringMove]
      simp only [if_neg hdepth, if_neg hstring]
      split
      · simp
      · split
        · rfl
        · split <;> rfl

/-- Behind a move the string goes on with what is left. -/
theorem stringTail_of_move {style : StringStyle} {depth depth' taken : Nat} {c : Char}
    {cs : List Char} (h : stringMove style depth c cs = (taken + 1, some depth')) :
    stringTail style depth (c :: cs) = taken + 1 + stringTail style depth' (cs.drop taken) := by
  rw [stringTail_cons, h]
  rfl

theorem stringTail_of_last_move {style : StringStyle} {depth taken : Nat} {c : Char}
    {cs : List Char} (h : stringMove style depth c cs = (taken, none)) :
    stringTail style depth (c :: cs) = taken := by
  rw [stringTail_cons, h]
  rfl

theorem quotedExtent_pos (style : StringStyle) (cs : List Char) : 0 < quotedExtent style cs := by
  unfold quotedExtent rawExtent
  split
  · next hraw =>
    have := of_decide_eq_true hraw
    omega
  · omega

theorem stringExtent_pos (cs : List Char) : 0 < stringExtent cs :=
  Nat.lt_of_lt_of_le (quotedExtent_pos _ _) (Nat.le_add_left _ _)

/-- A move that takes nothing is the last one. -/
theorem stringMove_pos_or_none (style : StringStyle) (depth : Nat) (c : Char) (cs : List Char) :
    0 < (stringMove style depth c cs).1 ∨ (stringMove style depth c cs).2 = none := by
  have hextent := stringExtent_pos (c :: cs)
  have hchar : 0 < 1 + charTail cs := Nat.lt_of_lt_of_le Nat.one_pos (Nat.le_add_right _ _)
  unfold stringMove
  repeat' split
  all_goals first
    | exact .inr rfl
    | exact .inl Nat.one_pos
    | exact .inl Nat.two_pos
    | exact .inl hextent
    | exact .inl hchar

/-- A string takes nothing exactly from a newline that ends it. -/
theorem stringTail_cons_eq_zero_iff {style : StringStyle} {depth : Nat} {c : Char}
    {cs : List Char} : stringTail style depth (c :: cs) = 0 ↔
      depth = 0 ∧ c = '\n' ∧ style.verbatim = false := by
  rw [stringTail_cons, Nat.add_eq_zero_iff, stringMove]
  by_cases hdepth : depth = 0
  · rw [if_pos hdepth]
    by_cases hc : c = '\n'
    · subst hc
      cases style.verbatim <;> simp [hdepth]
    · simp only [hc, false_and, and_false, iff_false]
      repeat' split
      all_goals simp_all
  · have hextent := Nat.ne_of_gt (stringExtent_pos (c :: cs))
    rw [if_neg hdepth]
    simp only [hdepth, false_and, iff_false]
    repeat' split
    all_goals simp [hextent]

/-- The quotes that a text begins with belong to the string that begins with them. -/
theorem leadingQuotes_le_quotedExtent (style : StringStyle) {cs : List Char} :
    leadingQuotes ('"' :: cs) ≤ quotedExtent style ('"' :: cs) := by
  unfold quotedExtent
  split
  · exact Nat.le_add_right _ _
  · next hraw =>
    -- two quotes at most, of which the first begins the string and the second would end it
    have hle : leadingQuotes ('"' :: cs) ≤ 2 := by
      simpa [startsRaw, Nat.lt_succ_iff] using hraw
    rw [List.drop_succ_cons, List.drop_zero]
    by_cases hzero : stringTail style 0 cs = 0
    · -- the string ends at once, so no second quote stands here
      have hcs : cs.head? ≠ some '"' := by
        cases cs with
        | nil => simp
        | cons d cs =>
          obtain ⟨-, rfl, -⟩ := stringTail_cons_eq_zero_iff.1 hzero
          simp
      have hone : leadingQuotes ('"' :: cs) = 1 := by
        cases cs with
        | nil => rfl
        | cons d cs =>
          have hd : (d == '"') = false := by simpa using hcs
          simp [leadingQuotes, hd]
      omega
    · omega

/-- Strings that are shorter than `n` end alike in front of `next`. -/
def EndsAlike (n : Nat) (next : Char) (back back' : List Char) : Prop :=
  ∀ (style : StringStyle) (depth : Nat) (front : List Char), front.length < n →
    stringTail style depth (front ++ next :: back) ≤ front.length →
      stringTail style depth (front ++ next :: back') =
        stringTail style depth (front ++ next :: back)

theorem quotedExtent_append {style : StringStyle} (ih : EndsAlike front.length next back back')
    (hquote : (front ++ next :: back).head? = some '"')
    (h : quotedExtent style (front ++ next :: back) ≤ front.length) :
    quotedExtent style (front ++ next :: back') = quotedExtent style (front ++ next :: back) := by
  cases front with
  | nil =>
    have := quotedExtent_pos style (next :: back)
    rw [List.nil_append, List.length_nil] at h
    omega
  | cons c front =>
    obtain rfl : c = '"' := Option.some.inj hquote
    have hquotes : leadingQuotes ('"' :: front ++ next :: back') =
        leadingQuotes ('"' :: front ++ next :: back) :=
      leadingQuotes_append (Nat.le_trans (leadingQuotes_le_quotedExtent style) h)
    unfold quotedExtent startsRaw at h ⊢
    rw [hquotes]
    split
    · next hraw =>
      rw [if_pos hraw] at h
      exact rawExtent_append (Nat.lt_of_lt_of_le (by decide) (of_decide_eq_true hraw)) h
    · next hraw =>
      rw [if_neg hraw, List.length_cons] at h
      rw [List.cons_append, List.drop_succ_cons, List.drop_zero] at h ⊢
      rw [List.cons_append, List.drop_succ_cons, List.drop_zero,
        ih style 0 front (by simp) (by omega)]

theorem stringExtent_append (hnext : isSigil next = false)
    (ih : EndsAlike front.length next back back')
    (hstring : startsString (front ++ next :: back) = true)
    (h : stringExtent (front ++ next :: back) ≤ front.length) :
    stringExtent (front ++ next :: back') = stringExtent (front ++ next :: back) := by
  have hlength := length_sigils_add front
  unfold stringExtent at h ⊢
  rw [sigils_append hnext, afterSigils_append hnext] at h
  rw [sigils_append hnext, sigils_append hnext, afterSigils_append hnext, afterSigils_append hnext,
    quotedExtent_append]
  · intro style depth rest hrest
    exact ih style depth rest (by omega)
  · rw [← afterSigils_append hnext]
    exact head?_afterSigils hstring
  · omega

theorem stringMove_append {style : StringStyle} {depth : Nat} {c : Char}
    (hnext : isSigil next = false) (ih : EndsAlike (front.length + 1) next back back')
    (h : (stringMove style depth c (front ++ next :: back)).1 ≤ front.length + 1) :
    stringMove style depth c (front ++ next :: back') =
      stringMove style depth c (front ++ next :: back) := by
  unfold stringMove at h ⊢
  rw [head?_append_cons front next back back']
  split
  · rfl
  · next hdepth =>
    rw [if_neg hdepth] at h
    have hstarts : startsString (c :: (front ++ next :: back')) =
        startsString (c :: (front ++ next :: back)) :=
      startsString_append hnext (c :: front) back back'
    rw [hstarts]
    split
    · next hstring =>
      rw [if_pos hstring] at h
      have hextent : stringExtent (c :: front ++ next :: back') =
          stringExtent (c :: front ++ next :: back) := stringExtent_append hnext ih hstring h
      rw [List.cons_append, List.cons_append] at hextent
      rw [hextent]
    · next hstring =>
      rw [if_neg hstring] at h
      split
      · next hquote =>
        rw [if_pos hquote] at h
        have hchar : charTail (front ++ next :: back) ≤ front.length := by
          have : 1 + charTail (front ++ next :: back) ≤ front.length + 1 := h
          omega
        rw [charTail_append hchar]
      · rfl

/-- A string that ends in front of `next` ends there in every text that goes on with `next`. -/
theorem endsAlike (hnext : isSigil next = false) (n : Nat) : EndsAlike n next back back' := by
  -- on a bound of the length: a move leaves less of the front, and a string in a hole has less
  induction n with
  | zero =>
    intro style depth front hlength
    exact absurd hlength (Nat.not_lt_zero _)
  | succ n ih =>
    intro style depth front hlength h
    cases front with
    | nil =>
      -- a string that takes nothing ends at a newline, whatever stands behind it
      have hzero := stringTail_cons_eq_zero_iff.1 (Nat.le_zero.1 h)
      rw [List.nil_append, List.nil_append, stringTail_cons_eq_zero_iff.2 hzero,
        stringTail_cons_eq_zero_iff.2 hzero]
    | cons c front =>
      rw [List.length_cons] at hlength h
      have hih : EndsAlike (front.length + 1) next back back' :=
        fun style depth rest hrest => ih style depth rest (by omega)
      rw [List.cons_append, stringTail_cons] at h
      rw [List.cons_append, List.cons_append, stringTail_cons, stringTail_cons,
        stringMove_append hnext hih (by omega)]
      cases hmove : (stringMove style depth c (front ++ next :: back)).2 with
      | none => rfl
      | some depth' =>
        rw [hmove, Option.map_some, Option.getD_some] at h
        rw [Option.map_some, Option.map_some, Option.getD_some, Option.getD_some]
        -- what is left of the front behind the move is shorter
        have htaken : (stringMove style depth c (front ++ next :: back)).1 - 1 ≤ front.length := by
          omega
        rw [List.drop_append_of_le_length htaken] at h ⊢
        rw [List.drop_append_of_le_length htaken, ih]
        · rw [List.length_drop]
          omega
        · have hpos := (stringMove_pos_or_none style depth c (front ++ next :: back)).resolve_right
            (by simp [hmove])
          rw [List.length_drop]
          omega

/-! ## Lexemes -/

/-- A lexeme that ends in front of `next` is the same in every text that goes on with `next`. -/
theorem nextLexeme_append {atStart : Bool} {c : Char} (hnext : isSigil next = false)
    (h : (nextLexeme atStart c (front ++ next :: back)).2 ≤ front.length) :
    nextLexeme atStart c (front ++ next :: back') =
      nextLexeme atStart c (front ++ next :: back) := by
  have hstarts : startsString (c :: (front ++ next :: back')) =
      startsString (c :: (front ++ next :: back)) :=
    startsString_append hnext (c :: front) back back'
  -- the alternatives are told by the character and the one behind it, which is in the front or
  -- `next`, so both texts take the same one
  unfold nextLexeme at h ⊢
  rw [hstarts, head?_append_cons front next back back']
  split
  · rfl
  next hnewline =>
  rw [if_neg hnewline] at h
  split
  · rfl
  next hblank =>
  rw [if_neg hblank] at h
  split
  · next hhash =>
    rw [if_pos hhash] at h
    rw [restOfLine_append h]
  next hhash =>
  rw [if_neg hhash] at h
  split
  · next hline =>
    rw [if_pos hline] at h
    rw [restOfLine_append h]
  next hline =>
  rw [if_neg hline] at h
  split
  · next hcomment =>
    rw [if_pos hcomment] at h
    cases front with
    | nil =>
      simp only [List.length_nil] at h
      omega
    | cons d front =>
      simp only [List.cons_append, List.drop_succ_cons, List.drop_zero, List.length_cons] at h ⊢
      have htail : commentTail (front ++ next :: back) ≤ front.length := by omega
      rw [commentTail_append htail]
  next hcomment =>
  rw [if_neg hcomment] at h
  split
  · next hstring =>
    rw [if_pos hstring] at h
    have hle : stringExtent (c :: front ++ next :: back) ≤ (c :: front).length := by
      rw [List.cons_append, List.length_cons]
      omega
    have hextent : stringExtent (c :: front ++ next :: back') =
        stringExtent (c :: front ++ next :: back) :=
      stringExtent_append hnext (endsAlike hnext _) hstring hle
    rw [List.cons_append, List.cons_append] at hextent
    rw [hextent]
  next hstring =>
  rw [if_neg hstring] at h
  split
  · next hquote =>
    rw [if_pos hquote] at h
    rw [charTail_append h]
  · rfl

end RegionScope.Source
