import RegionScope.Proofs.Source.Extents

/-!
# Texts that end and texts that go on

The end of a text is to what stands in it what a newline is. When the text goes on with a newline,
a literal or comment that ended within it ends at the same place, and one that took the rest of it
still takes that rest, however much it takes then (`min_stringTail`). So the tokens of a text are
the first tokens of every text that goes on with a newline (`lexFrom_append_newline`).
-/

namespace RegionScope.Source

open RegionScope.Text

/-! ## Lines, comments and character literals -/

theorem restOfLine_append_newline (cs back : List Char) :
    restOfLine (cs ++ '\n' :: back) = restOfLine cs :=
  takeWhile_append_cons rfl cs back

/-- A newline is no character that is looked for. -/
theorem head?_append_newline {c : Char} (hc : c ≠ '\n') (cs back : List Char) :
    (cs ++ '\n' :: back).head? = some c ↔ cs.head? = some c := by
  cases cs with
  | nil =>
    simp only [List.nil_append, List.head?_cons, List.head?_nil, Option.some.injEq]
    exact ⟨fun h => absurd h.symm hc, nofun⟩
  | cons d cs => rfl

theorem min_commentTail (cs back : List Char) :
    min (commentTail (cs ++ '\n' :: back)) cs.length = min (commentTail cs) cs.length := by
  induction cs with
  | nil => rw [List.length_nil, Nat.min_zero, Nat.min_zero]
  | cons c cs ih =>
    have hslash := head?_append_newline (c := '/') (by decide) cs back
    rw [List.cons_append, commentTail, commentTail, List.length_cons]
    simp only [hslash]
    split
    · rfl
    · omega

theorem min_charTail (cs back : List Char) :
    min (charTail (cs ++ '\n' :: back)) cs.length = min (charTail cs) cs.length := by
  -- on the length, as a backslash takes the character behind it along
  induction hlength : cs.length using Nat.strongRecOn generalizing cs with
  | ind n ih =>
    subst hlength
    cases cs with
    | nil => rw [List.length_nil, Nat.min_zero, Nat.min_zero]
    | cons c cs =>
      rw [List.cons_append, charTail_cons, charTail_cons, List.length_cons]
      rw [List.length_cons] at ih
      split
      · cases cs with
        | nil =>
          -- the backslash at the end takes all there is, and more
          rw [List.length_nil]
          omega
        | cons d cs =>
          have := ih cs.length (by rw [List.length_cons]; omega) cs rfl
          simp only [List.cons_append, List.drop_succ_cons, List.drop_zero, List.length_cons]
          omega
      · have := ih cs.length (Nat.lt_succ_self _) cs rfl
        split
        · rfl
        · split
          · rfl
          · omega

/-! ## Raw strings -/

theorem leadingQuotes_append_newline (cs back : List Char) :
    leadingQuotes (cs ++ '\n' :: back) = leadingQuotes cs :=
  congrArg List.length (takeWhile_append_cons rfl cs back)

/-- No fence reaches over a newline. -/
theorem fence_prefix_append_newline (n : Nat) (cs back : List Char) :
    (List.replicate n '"').isPrefixOf (cs ++ '\n' :: back) =
      (List.replicate n '"').isPrefixOf cs := by
  rw [Bool.eq_iff_iff, List.isPrefixOf_iff_prefix, List.isPrefixOf_iff_prefix]
  constructor
  · intro h
    rcases Nat.lt_or_ge cs.length n with hlt | hle
    · -- otherwise the newline is one of the quotes
      have hfront : cs ++ ['\n'] <+: cs ++ '\n' :: back :=
        ⟨back, by rw [List.append_assoc, List.singleton_append]⟩
      have hnewline : cs ++ ['\n'] <+: List.replicate n '"' := by
        apply List.prefix_of_prefix_length_le hfront h
        rw [List.length_append, List.length_singleton, List.length_replicate]
        exact hlt
      have := List.eq_of_mem_replicate (hnewline.subset (List.mem_append_right cs (.head _)))
      exact absurd this (by decide)
    · apply List.prefix_of_prefix_length_le h (List.prefix_append cs _)
      rwa [List.length_replicate]
  · exact fun h => h.trans (List.prefix_append cs _)

theorem min_fenceTail (n : Nat) (cs back : List Char) :
    min (fenceTail n (cs ++ '\n' :: back)) cs.length = min (fenceTail n cs) cs.length := by
  induction cs with
  | nil => rw [List.length_nil, Nat.min_zero, Nat.min_zero]
  | cons c cs ih =>
    rw [List.cons_append, fenceTail, fenceTail, ← List.cons_append, fence_prefix_append_newline,
      List.length_cons]
    split
    · rfl
    · omega

theorem min_rawExtent (cs back : List Char) :
    min (rawExtent (cs ++ '\n' :: back)) cs.length = min (rawExtent cs) cs.length := by
  have hle := leadingQuotes_le_length cs
  have hfence := min_fenceTail (leadingQuotes cs) (cs.drop (leadingQuotes cs)) back
  rw [List.length_drop] at hfence
  rw [rawExtent, rawExtent, leadingQuotes_append_newline, List.drop_append_of_le_length hle]
  omega

/-! ## Strings with holes -/

theorem isSigil_newline : isSigil '\n' = false := rfl

theorem startsString_append_newline (cs back : List Char) :
    startsString (cs ++ '\n' :: back) = startsString cs := by
  have hquote : ((afterSigils cs ++ '\n' :: back).head? == some '"') =
      ((afterSigils cs).head? == some '"') := by
    rw [Bool.eq_iff_iff, beq_iff_eq, beq_iff_eq, head?_append_newline (by decide)]
  rw [startsString, startsString, sigils_append isSigil_newline,
    afterSigils_append isSigil_newline, hquote]

/-- The rest of a string that is shorter than `n` is taken alike whether the text ends or goes on
with a newline. -/
def GoesOnAlike (n : Nat) (back : List Char) : Prop :=
  ∀ (style : StringStyle) (depth : Nat) (cs : List Char), cs.length < n →
    min (stringTail style depth (cs ++ '\n' :: back)) cs.length =
      min (stringTail style depth cs) cs.length

variable {cs back : List Char}

theorem min_quotedExtent {style : StringStyle} (ih : GoesOnAlike cs.length back)
    (hquote : cs.head? = some '"') :
    min (quotedExtent style (cs ++ '\n' :: back)) cs.length =
      min (quotedExtent style cs) cs.length := by
  unfold quotedExtent startsRaw
  rw [leadingQuotes_append_newline]
  split
  · exact min_rawExtent cs back
  · cases cs with
    | nil => cases hquote
    | cons c cs =>
      have := ih style 0 cs (Nat.lt_succ_self _)
      rw [List.cons_append, List.drop_succ_cons, List.drop_zero, List.drop_succ_cons,
        List.drop_zero, List.length_cons]
      omega

theorem min_stringExtent (ih : GoesOnAlike cs.length back) (hstring : startsString cs = true) :
    min (stringExtent (cs ++ '\n' :: back)) cs.length = min (stringExtent cs) cs.length := by
  have hlength := length_sigils_add cs
  have hquoted := @min_quotedExtent (afterSigils cs) back (.ofSigils (sigils cs))
    (fun style depth rest hrest => ih style depth rest (by omega)) (head?_afterSigils hstring)
  rw [stringExtent, stringExtent, sigils_append isSigil_newline,
    afterSigils_append isSigil_newline]
  omega

/-- Where a string goes on is told by the text in front of the newline, and a move within this text
is the same. -/
theorem stringMove_append_newline {style : StringStyle} {depth : Nat} {c : Char}
    (ih : GoesOnAlike (cs.length + 1) back) :
    (stringMove style depth c (cs ++ '\n' :: back)).2 = (stringMove style depth c cs).2 ∧
      min (stringMove style depth c (cs ++ '\n' :: back)).1 (cs.length + 1) =
        min (stringMove style depth c cs).1 (cs.length + 1) := by
  have hbrace := head?_append_newline (c := '\x7b') (by decide) cs back
  have hquote : ((cs ++ '\n' :: back).head? == some '"') = (cs.head? == some '"') := by
    rw [Bool.eq_iff_iff, beq_iff_eq, beq_iff_eq, head?_append_newline (by decide)]
  have hstarts : startsString (c :: (cs ++ '\n' :: back)) = startsString (c :: cs) :=
    startsString_append_newline (c :: cs) back
  unfold stringMove
  simp only [hbrace, hquote, hstarts]
  split
  · exact ⟨rfl, rfl⟩
  · split
    · next hstring => exact ⟨rfl, @min_stringExtent (c :: cs) back ih hstring⟩
    · split
      · have := min_charTail cs back
        exact ⟨rfl, by dsimp only; omega⟩
      · exact ⟨rfl, rfl⟩

/-- A string takes the same of a text whether the text ends or goes on with a newline. -/
theorem min_stringTail (n : Nat) (back : List Char) : GoesOnAlike n back := by
  -- on a bound of the length: a move leaves less of the text, and a string in a hole has less
  induction n with
  | zero =>
    intro style depth cs hlength
    exact absurd hlength (Nat.not_lt_zero _)
  | succ n ih =>
    intro style depth cs hlength
    cases cs with
    | nil => rw [List.length_nil, Nat.min_zero, Nat.min_zero]
    | cons c cs =>
      rw [List.length_cons] at hlength
      obtain ⟨hnext, htaken⟩ := @stringMove_append_newline cs back style depth c
        fun style depth rest hrest => ih style depth rest (by omega)
      rw [List.cons_append, stringTail_cons, stringTail_cons, hnext, List.length_cons]
      cases hmove : (stringMove style depth c cs).2 with
      | none => exact htaken
      | some depth' =>
        rw [Option.map_some, Option.map_some, Option.getD_some, Option.getD_some]
        -- a move takes all of the text, or is the same and leaves a shorter text
        rcases Nat.lt_or_ge (stringMove style depth c cs).1 (cs.length + 1) with hlt | hge
        · have hpos := (stringMove_pos_or_none style depth c cs).resolve_right (by simp [hmove])
          have hsame : (stringMove style depth c (cs ++ '\n' :: back)).1 =
              (stringMove style depth c cs).1 := by omega
          have hrest := ih style depth' (cs.drop ((stringMove style depth c cs).1 - 1))
            (by rw [List.length_drop]; omega)
          rw [List.length_drop] at hrest
          rw [hsame, List.drop_append_of_le_length (by omega)]
          omega
        · omega

/-! ## Lexemes -/

/-- A lexeme is the same whether the text ends or goes on with a newline, and takes the same of the
text. -/
theorem nextLexeme_append_newline (atStart : Bool) (c : Char) (cs back : List Char) :
    (nextLexeme atStart c (cs ++ '\n' :: back)).1 = (nextLexeme atStart c cs).1 ∧
      min (nextLexeme atStart c (cs ++ '\n' :: back)).2 cs.length =
        min (nextLexeme atStart c cs).2 cs.length := by
  have hslash := head?_append_newline (c := '/') (by decide) cs back
  have hstar := head?_append_newline (c := '*') (by decide) cs back
  have hstarts : startsString (c :: (cs ++ '\n' :: back)) = startsString (c :: cs) :=
    startsString_append_newline (c :: cs) back
  unfold nextLexeme
  simp only [restOfLine_append_newline, hslash, hstar, hstarts]
  split
  · exact ⟨rfl, rfl⟩
  split
  · exact ⟨rfl, rfl⟩
  split
  · exact ⟨rfl, rfl⟩
  split
  · exact ⟨rfl, rfl⟩
  split
  · next hcomment =>
    cases cs with
    | nil => exact absurd hcomment.2 (by simp)
    | cons d cs =>
      have := min_commentTail cs back
      refine ⟨rfl, ?_⟩
      simp only [List.cons_append, List.drop_succ_cons, List.drop_zero, List.length_cons]
      omega
  split
  · next hstring =>
    have hextent : min (stringExtent (c :: (cs ++ '\n' :: back))) (cs.length + 1) =
        min (stringExtent (c :: cs)) (cs.length + 1) :=
      min_stringExtent (min_stringTail (c :: cs).length back) hstring
    exact ⟨rfl, by dsimp only; omega⟩
  split
  · exact ⟨rfl, min_charTail cs back⟩
  · exact ⟨rfl, rfl⟩

/-- The tokens of a text are the first tokens of every text that goes on with a newline. What is
left when the last of them is taken are the others. -/
theorem lexFrom_append_newline (pos : Nat) (atStart : Bool) (cs back : List Char) :
    ∃ pos' atEnd rest, rest <:+ '\n' :: back ∧
      lexFrom pos atStart (cs ++ '\n' :: back) =
        lexFrom pos atStart cs ++ lexFrom pos' atEnd rest := by
  -- on the length, as a lexeme may take any number of characters
  induction hlength : cs.length using Nat.strongRecOn generalizing pos atStart cs with
  | ind n ih =>
    subst hlength
    cases cs with
    | nil => exact ⟨pos, atStart, '\n' :: back, List.suffix_refl _, by rw [lexFrom_nil]; rfl⟩
    | cons c cs =>
      obtain ⟨hlexeme, htaken⟩ := nextLexeme_append_newline atStart c cs back
      rw [List.cons_append, lexFrom_cons, lexFrom_cons, hlexeme]
      rcases Nat.lt_or_ge (nextLexeme atStart c cs).2 cs.length with hlt | hge
      · have hsame : (nextLexeme atStart c (cs ++ '\n' :: back)).2 =
            (nextLexeme atStart c cs).2 := by omega
        obtain ⟨pos', atEnd, rest, hrest, htokens⟩ := ih _
          (by rw [List.length_drop, List.length_cons]; omega)
          (pos + 1 + (nextLexeme atStart c cs).2)
          ((nextLexeme atStart c cs).1.leavesAtStart atStart)
          (cs.drop (nextLexeme atStart c cs).2) rfl
        rw [hsame, List.drop_append_of_le_length (by omega), htokens]
        exact ⟨pos', atEnd, rest, hrest, rfl⟩
      · -- the lexeme is the last one of the text, and may take some of what comes behind
        rw [List.drop_eq_nil_of_le hge, lexFrom_nil, List.drop_append,
          List.drop_eq_nil_of_le (by omega), List.nil_append]
        exact ⟨_, _, _, List.drop_suffix _ _, rfl⟩

end RegionScope.Source
