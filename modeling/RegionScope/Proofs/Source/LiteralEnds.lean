import RegionScope.Proofs.Source.Extents

/-!
# Where literals end

A literal ends within the text, with one exception: a backslash takes the character behind it
along, so a literal whose text ends in a backslash ends one character behind the end. What a
literal takes is a sum of moves, and each move ends within what the moves before it left
(`EndsWithin.add`). So character literals end there (`endsWithin_charTail`), and strings too
(`endsWithin_stringExtent`), with what they hold in their holes.
-/

namespace RegionScope.Source

variable {cs : List Char} {c : Char} {m n : Nat}

/-- Whether what takes the first `n` characters of a text ends within the text, or one character
behind it because the text ends in a backslash. -/
def EndsWithin (cs : List Char) (n : Nat) : Prop :=
  n ≤ cs.length + 1 ∧ (n = cs.length + 1 → cs.getLast? = some '\\')

namespace EndsWithin

theorem of_le (h : n ≤ cs.length) : EndsWithin cs n :=
  ⟨by omega, fun _ => by omega⟩

/-- A backslash takes two characters, the last one of a text too. -/
theorem escape (cs : List Char) : EndsWithin ('\\' :: cs) 2 := by
  refine ⟨by simp, fun hlength => ?_⟩
  obtain rfl : cs = [] := List.eq_nil_of_length_eq_zero (by simpa using hlength.symm)
  rfl

/-- What ends within the text that is left ends within the text. -/
theorem add (hm : EndsWithin cs m) (hn : EndsWithin (cs.drop m) n) : EndsWithin cs (m + n) := by
  obtain ⟨hle, hlast⟩ := hn
  rw [List.length_drop] at hle hlast
  rw [List.getLast?_drop] at hlast
  rcases Nat.lt_or_ge m cs.length with hlt | hge
  · rw [if_neg (by omega)] at hlast
    exact ⟨by omega, fun h => hlast (by omega)⟩
  · -- nothing is left, so nothing more is taken
    rw [if_pos hge] at hlast
    obtain rfl : n = 0 := by
      by_contra hne
      exact absurd (hlast (by omega)) nofun
    exact hm

end EndsWithin

/-! ## Character literals -/

theorem endsWithin_charTail (cs : List Char) : EndsWithin cs (charTail cs) := by
  -- on the length, as a backslash takes the character behind it along
  induction hlength : cs.length using Nat.strongRecOn generalizing cs with
  | ind n ih =>
    subst hlength
    cases cs with
    | nil => exact .of_le (Nat.le_refl 0)
    | cons c cs =>
      rw [charTail_cons]
      rw [List.length_cons] at ih
      split
      · next hescape =>
        subst hescape
        exact (EndsWithin.escape cs).add
          (ih (cs.drop 1).length (by rw [List.length_drop]; omega) (cs.drop 1) rfl)
      · split
        · exact .of_le (Nat.le_add_left 1 _)
        · split
          · exact .of_le (Nat.zero_le _)
          · have hone : EndsWithin (c :: cs) 1 := .of_le (Nat.le_add_left 1 _)
            exact hone.add (ih cs.length (Nat.lt_succ_self _) cs rfl)

/-! ## Raw strings -/

theorem fenceTail_le (n : Nat) (cs : List Char) : fenceTail n cs ≤ cs.length := by
  induction cs with
  | nil => exact Nat.le_refl 0
  | cons c cs ih =>
    rw [fenceTail, List.length_cons]
    split
    · next hfence =>
      have := (List.isPrefixOf_iff_prefix.1 hfence).length_le
      rwa [List.length_replicate, List.length_cons] at this
    · omega

theorem rawExtent_le (cs : List Char) : rawExtent cs ≤ cs.length := by
  have hquotes := leadingQuotes_le_length cs
  have hfence := fenceTail_le (leadingQuotes cs) (cs.drop (leadingQuotes cs))
  rw [List.length_drop] at hfence
  rw [rawExtent]
  omega

/-! ## Strings with holes -/

theorem afterSigils_eq_drop (cs : List Char) : afterSigils cs = cs.drop (sigils cs).length := by
  have hsplit : sigils cs ++ afterSigils cs = cs := List.takeWhile_append_dropWhile
  calc afterSigils cs = (sigils cs ++ afterSigils cs).drop (sigils cs).length :=
        List.drop_left.symm
    _ = cs.drop (sigils cs).length := by rw [hsplit]

/-- The rest of every string that is shorter than `n` ends within the text, or behind a last
backslash. -/
def StringsEndWithin (n : Nat) : Prop :=
  ∀ (style : StringStyle) (depth : Nat) (cs : List Char), cs.length < n →
    EndsWithin cs (stringTail style depth cs)

theorem StringsEndWithin.stringExtent (ih : StringsEndWithin cs.length)
    (hstring : startsString cs = true) : EndsWithin cs (stringExtent cs) := by
  have hlength := length_sigils_add cs
  have hmarks : EndsWithin cs (sigils cs).length := .of_le (by omega)
  refine hmarks.add ?_
  rw [← afterSigils_eq_drop, quotedExtent]
  split
  · exact .of_le (rawExtent_le _)
  · cases hafter : afterSigils cs with
    | nil => exact absurd hafter (afterSigils_ne_nil hstring)
    | cons c rest =>
      rw [hafter, List.length_cons] at hlength
      have hone : EndsWithin (c :: rest) 1 := .of_le (Nat.le_add_left 1 _)
      exact hone.add (ih _ 0 rest (by omega))

/-- A move of a string ends where a string may end, if the strings in its holes do. -/
theorem StringsEndWithin.stringMove (ih : StringsEndWithin (c :: cs).length) (style : StringStyle)
    (depth : Nat) : EndsWithin (c :: cs) (stringMove style depth c cs).1 := by
  have hone : EndsWithin (c :: cs) 1 := .of_le (Nat.le_add_left 1 _)
  have htwo : ∀ d, cs.head? = some d → EndsWithin (c :: cs) 2 := by
    intro d hd
    cases cs with
    | nil => cases hd
    | cons d cs => exact .of_le (by simp)
  unfold Source.stringMove
  split
  · split
    · split
      · next hbrace => exact htwo _ hbrace
      · exact hone
    · split
      · next hescape =>
        obtain rfl : c = '\\' := beq_iff_eq.1 (Bool.and_eq_true_iff.1 hescape).1
        exact .escape cs
      · split
        · split
          · next hdouble => exact htwo _ (beq_iff_eq.1 (Bool.and_eq_true_iff.1 hdouble).2)
          · exact hone
        · split
          · exact .of_le (Nat.zero_le _)
          · exact hone
  · split
    · next hstring => exact ih.stringExtent hstring
    · split
      · exact hone.add (endsWithin_charTail cs)
      · split
        · exact hone
        · split <;> exact hone

theorem stringsEndWithin (n : Nat) : StringsEndWithin n := by
  -- on a bound of the length: a move leaves less of the text, and a string in a hole has less
  induction n with
  | zero =>
    intro style depth cs hlength
    exact absurd hlength (Nat.not_lt_zero _)
  | succ n ih =>
    intro style depth cs hlength
    have hshorter : StringsEndWithin cs.length :=
      fun style depth rest hrest => ih style depth rest (by omega)
    cases cs with
    | nil =>
      rw [stringTail]
      exact .of_le (Nat.le_refl 0)
    | cons c cs =>
      have hmove := hshorter.stringMove style depth
      rw [stringTail_cons]
      cases hnext : (stringMove style depth c cs).2 with
      | none => exact hmove
      | some depth' =>
        have hpos := (stringMove_pos_or_none style depth c cs).resolve_right (by simp [hnext])
        rw [Option.map_some, Option.getD_some, ← @List.drop_cons _ _ c cs hpos]
        refine hmove.add (ih style depth' _ ?_)
        rw [List.length_drop, List.length_cons]
        rw [List.length_cons] at hlength
        omega

/-- A string at the head of a text ends within it, or behind a last backslash. -/
theorem endsWithin_stringExtent (h : startsString cs = true) : EndsWithin cs (stringExtent cs) :=
  (stringsEndWithin cs.length).stringExtent h

/-! ## Lexemes -/

theorem nextLexeme_stringLiteral {atStart : Bool}
    (h : nextLexeme atStart c cs = (.stringLiteral, n)) :
    startsString (c :: cs) = true ∧ 1 + n = stringExtent (c :: cs) := by
  have hpos := stringExtent_pos (c :: cs)
  unfold nextLexeme at h
  repeat' split at h
  all_goals cases h
  next hstring => exact ⟨hstring, by omega⟩

theorem nextLexeme_charLiteral {atStart : Bool}
    (h : nextLexeme atStart c cs = (.charLiteral, n)) : n = charTail cs := by
  unfold nextLexeme at h
  repeat' split at h
  all_goals cases h
  rfl

end RegionScope.Source
