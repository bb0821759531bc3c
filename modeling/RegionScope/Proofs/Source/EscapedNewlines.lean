import RegionScope.Proofs.Source.Extents
import RegionScope.Source.Outline
import RegionScope.Tree.Traversal
import Mathlib.Data.List.Induction

/-!
# Literals at the end of their line

A literal that is neither raw nor verbatim and has no holes ends with its line at the latest, unless
a backslash takes the newline along. This is so when an odd number of backslashes stands in front of
the newline (`EscapesNext`) and no quote in front of it ends the literal, that is, an odd number of
backslashes stands in front of each of them too (`GoesOn`). The literal then goes on with the next
line.

Character literals and such strings differ in nothing but the quote that ends them, so what is said
here is said once, of every scan that follows the one rule (`LineScan`). The main statement is
`literal_line_iff`: for every line it says whether the two literals end with it.
-/

namespace RegionScope.Source

variable {cs line : List Char} {c d quote : Char}

/-! ## Escapes -/

/-- The backslashes that a text ends with. -/
def finalBackslashes (cs : List Char) : Nat := (cs.reverse.takeWhile (· == '\\')).length

/-- Whether a text ends in a backslash that takes the next character along. Of the backslashes that
it ends with every second one is taken along by the one in front of it. -/
def EscapesNext (cs : List Char) : Prop := finalBackslashes cs % 2 = 1

instance (cs : List Char) : Decidable (EscapesNext cs) :=
  inferInstanceAs (Decidable (finalBackslashes cs % 2 = 1))

theorem finalBackslashes_concat (cs : List Char) (c : Char) :
    finalBackslashes (cs ++ [c]) = if c = '\\' then finalBackslashes cs + 1 else 0 := by
  rw [finalBackslashes, List.reverse_concat, List.takeWhile_cons]
  by_cases hc : c = '\\'
  · simp [hc, finalBackslashes]
  · simp [hc]

theorem not_escapesNext_nil : ¬ EscapesNext [] := by decide

theorem escapesNext_concat : EscapesNext (cs ++ [c]) ↔ c = '\\' ∧ ¬ EscapesNext cs := by
  rw [EscapesNext, EscapesNext, finalBackslashes_concat]
  split
  · next hc =>
    rw [and_iff_right hc]
    omega
  · next hc => exact iff_of_false Nat.zero_ne_one fun h => hc h.1

/-- What stands in front of another character than a backslash has no part in what is escaped. -/
theorem escapesNext_cons (hc : c ≠ '\\') : EscapesNext (c :: cs) ↔ EscapesNext cs := by
  induction cs using List.reverseRecOn with
  | nil =>
    refine iff_of_false ?_ not_escapesNext_nil
    intro h
    exact hc ((@escapesNext_concat [] c).1 h).1
  | append_singleton cs d ih => rw [← List.cons_append, escapesNext_concat, escapesNext_concat, ih]

/-- Nor has an escape with what it takes along. -/
theorem escapesNext_escape : EscapesNext ('\\' :: d :: cs) ↔ EscapesNext cs := by
  induction cs using List.reverseRecOn with
  | nil =>
    refine iff_of_false ?_ not_escapesNext_nil
    intro h
    exact ((@escapesNext_concat ['\\'] d).1 h).2 (by decide)
  | append_singleton cs e ih =>
    rw [← List.cons_append, ← List.cons_append, escapesNext_concat, escapesNext_concat, ih]

/-! ## Lines that do not end a literal -/

/-- Whether a literal that `quote` ends goes on behind a line, of which `line` is what follows its
opening quote: the newline is escaped, and so is every quote in front of it. -/
structure GoesOn (quote : Char) (line : List Char) : Prop where
  newline : EscapesNext line
  quotes : ∀ front back, line = front ++ quote :: back → EscapesNext front

theorem not_goesOn_nil : ¬ GoesOn quote [] := fun h => not_escapesNext_nil h.newline

theorem not_goesOn_quote : ¬ GoesOn quote (quote :: line) :=
  fun h => not_escapesNext_nil (h.quotes [] line rfl)

/-- What another character than the two that matter is put in front of goes on as before. -/
theorem goesOn_cons (hc : c ≠ '\\') (hquote : c ≠ quote) :
    GoesOn quote (c :: line) ↔ GoesOn quote line := by
  constructor
  · rintro ⟨hnewline, hquotes⟩
    refine ⟨(escapesNext_cons hc).1 hnewline, ?_⟩
    intro front back hsplit
    exact (escapesNext_cons hc).1 (hquotes (c :: front) back (by rw [hsplit, List.cons_append]))
  · rintro ⟨hnewline, hquotes⟩
    refine ⟨(escapesNext_cons hc).2 hnewline, ?_⟩
    intro front back hsplit
    cases front with
    | nil => exact absurd (List.cons.inj hsplit).1 hquote
    | cons d front =>
      obtain ⟨rfl, hline⟩ := List.cons.inj hsplit
      exact (escapesNext_cons hc).2 (hquotes front back hline)

/-- An escape changes nothing, whatever it takes along. -/
theorem goesOn_escape (hquote : quote ≠ '\\') :
    GoesOn quote ('\\' :: d :: line) ↔ GoesOn quote line := by
  constructor
  · rintro ⟨hnewline, hquotes⟩
    refine ⟨escapesNext_escape.1 hnewline, ?_⟩
    intro front back hsplit
    exact escapesNext_escape.1
      (hquotes ('\\' :: d :: front) back (by rw [hsplit, List.cons_append, List.cons_append]))
  · rintro ⟨hnewline, hquotes⟩
    refine ⟨escapesNext_escape.2 hnewline, ?_⟩
    intro front back hsplit
    -- a quote is no backslash, so it is the character taken along or stands behind it
    match front, hsplit with
    | [], hsplit => exact absurd (List.cons.inj hsplit).1.symm hquote
    | [e], hsplit =>
      obtain ⟨rfl, -⟩ := List.cons.inj hsplit
      decide
    | e :: e' :: front, hsplit =>
      obtain ⟨rfl, hrest⟩ := List.cons.inj hsplit
      obtain ⟨rfl, hline⟩ := List.cons.inj hrest
      exact escapesNext_escape.2 (hquotes front back hline)

theorem goesOn_backslash (hquote : quote ≠ '\\') : GoesOn quote ['\\'] := by
  refine ⟨by decide, ?_⟩
  intro front back hsplit
  cases front with
  | nil => exact absurd (List.cons.inj hsplit).1.symm hquote
  | cons d front =>
    have hnil := (List.cons.inj hsplit).2
    simp at hnil

/-! ## The scan of a line -/

/-- The rule by which the rest of a literal is scanned that `quote` ends, when it may hold escapes
but neither newlines nor holes. -/
structure LineScan (quote : Char) (tail : List Char → Nat) : Prop where
  ne_backslash : quote ≠ '\\'
  ne_newline : quote ≠ '\n'
  nil : tail [] = 0
  cons : ∀ c cs, tail (c :: cs) =
    if c = '\\' then 2 + tail (cs.drop 1)
    else if c = quote then 1
    else if c = '\n' then 0
    else 1 + tail cs

theorem lineScan_charTail : LineScan '\'' charTail :=
  ⟨by decide, by decide, rfl, charTail_cons⟩

theorem lineScan_stringTail : LineScan '"' (stringTail ⟨false, false⟩ 0) := by
  refine ⟨by decide, by decide, by rw [stringTail], ?_⟩
  intro c cs
  rw [stringTail_cons, stringMove]
  by_cases hescape : c = '\\'
  · simp [hescape]
  · by_cases hquote : c = '"'
    · simp [hquote]
    · by_cases hnewline : c = '\n'
      · simp [hnewline]
      · simp [hescape, hquote, hnewline]

namespace LineScan

variable {tail : List Char → Nat}

theorem newline (h : LineScan quote tail) (rest : List Char) : tail ('\n' :: rest) = 0 := by
  rw [h.cons, if_neg (by decide), if_neg h.ne_newline.symm, if_pos rfl]

/-- A literal that goes on takes the newline along, and then what such a literal takes of the next
line. -/
theorem of_goesOn (h : LineScan quote tail) (hline : '\n' ∉ line) (hgoes : GoesOn quote line)
    (rest : List Char) : tail (line ++ '\n' :: rest) = line.length + 1 + tail rest := by
  -- on the length, as a backslash takes the character behind it along
  induction hlength : line.length using Nat.strongRecOn generalizing line with
  | ind n ih =>
    subst hlength
    cases line with
    | nil => exact absurd hgoes not_goesOn_nil
    | cons c line =>
      obtain ⟨hnewline, hrest⟩ := not_or.1 (mt List.mem_cons.2 hline)
      rw [List.cons_append, h.cons, List.length_cons]
      by_cases hescape : c = '\\'
      · subst hescape
        rw [if_pos rfl]
        cases line with
        | nil => rfl
        | cons d line =>
          have hgoes' := (goesOn_escape h.ne_backslash).1 hgoes
          have hshorter : line.length < ('\\' :: d :: line).length :=
            Nat.lt_succ_of_lt (Nat.lt_succ_self _)
          rw [List.cons_append, List.drop_succ_cons, List.drop_zero, List.length_cons,
            ih _ hshorter (List.not_mem_of_not_mem_cons hrest) hgoes' rfl]
          omega
      · have hends : c ≠ quote := by
          rintro rfl
          exact not_goesOn_quote hgoes
        rw [if_neg hescape, if_neg hends, if_neg (Ne.symm hnewline),
          ih _ (Nat.lt_succ_self _) hrest ((goesOn_cons hescape hends).1 hgoes) rfl]
        omega

/-- Any other literal ends in front of the newline. -/
theorem of_not_goesOn (h : LineScan quote tail) (hgoes : ¬ GoesOn quote line)
    (rest : List Char) : tail (line ++ '\n' :: rest) ≤ line.length := by
  induction hlength : line.length using Nat.strongRecOn generalizing line with
  | ind n ih =>
    subst hlength
    cases line with
    | nil => exact Nat.le_of_eq (h.newline rest)
    | cons c line =>
      rw [List.cons_append, h.cons, List.length_cons]
      by_cases hescape : c = '\\'
      · subst hescape
        rw [if_pos rfl]
        cases line with
        | nil => exact absurd (goesOn_backslash h.ne_backslash) hgoes
        | cons d line =>
          have hgoes' := mt (goesOn_escape h.ne_backslash).2 hgoes
          have hshorter : line.length < ('\\' :: d :: line).length :=
            Nat.lt_succ_of_lt (Nat.lt_succ_self _)
          have hle := ih _ hshorter hgoes' rfl
          rw [List.cons_append, List.drop_succ_cons, List.drop_zero, List.length_cons]
          omega
      · by_cases hends : c = quote
        · rw [if_neg hescape, if_pos hends]
          exact Nat.succ_le_succ (Nat.zero_le _)
        · have hle := ih _ (Nat.lt_succ_self _) (mt (goesOn_cons hescape hends).2 hgoes) rfl
          rw [if_neg hescape, if_neg hends]
          split <;> omega

theorem le_length_iff (h : LineScan quote tail) (hline : '\n' ∉ line) (rest : List Char) :
    tail (line ++ '\n' :: rest) ≤ line.length ↔ ¬ GoesOn quote line := by
  constructor
  · intro hle hgoes
    have := h.of_goesOn hline hgoes rest
    omega
  · intro hgoes
    exact h.of_not_goesOn hgoes rest

end LineScan

/-! ## Literals and their lines -/

/-- Whether a quote opens a raw string is told on its line. -/
theorem startsRaw_append_newline (line rest : List Char) :
    startsRaw ('"' :: (line ++ '\n' :: rest)) = startsRaw ('"' :: line) := by
  have hquotes : ('"' :: line ++ '\n' :: rest).takeWhile (· == '"') =
      ('"' :: line).takeWhile (· == '"') := takeWhile_append_cons (by decide) _ _
  rw [List.cons_append] at hquotes
  rw [startsRaw, startsRaw, leadingQuotes, leadingQuotes, hquotes]

theorem stringExtent?_of_not_startsRaw {cs : List Char} (h : startsRaw ('"' :: cs) = false) :
    stringExtent? ('"' :: cs) = some (1 + stringTail ⟨false, false⟩ 0 cs) := by
  have hextent : stringExtent? ('"' :: cs) = some (0 + quotedExtent ⟨false, false⟩ ('"' :: cs)) :=
    rfl
  rw [hextent, quotedExtent, h, if_neg Bool.false_ne_true, Nat.zero_add, List.drop_succ_cons,
    List.drop_zero]

/-- A string without marks, if it is not raw, and a character literal end no further than their line
does, wherever they begin and whether or not they are closed, if and only if a quote on the line
ends them or the newline is not escaped. -/
theorem literal_line_iff (pre rest : List Char) (hline : '\n' ∉ line) :
    (startsRaw ('"' :: line) = false →
      ∃ n, stringExtent? ((pre ++ '"' :: (line ++ '\n' :: rest)).drop pre.length) = some n ∧
        (n ≤ line.length + 1 ↔ ¬ GoesOn '"' line)) ∧
      (charExtent ((pre ++ '\'' :: (line ++ '\n' :: rest)).drop pre.length) ≤ line.length + 1 ↔
        ¬ GoesOn '\'' line) := by
  rw [List.drop_left, List.drop_left]
  constructor
  · intro hraw
    rw [← startsRaw_append_newline line rest] at hraw
    refine ⟨_, stringExtent?_of_not_startsRaw hraw, ?_⟩
    rw [← lineScan_stringTail.le_length_iff hline rest]
    omega
  · rw [charExtent, List.drop_succ_cons, List.drop_zero,
      ← lineScan_charTail.le_length_iff hline rest]
    omega

/-- An escaped quote does not end the string, and an escaped backslash escapes no newline. -/
theorem literal_line_unclosed :
    let line := "say \\\"hi\\\\".toList
    '\n' ∉ line ∧ startsRaw ('"' :: line) = false ∧
      (∃ n, stringExtent? (("s = ".toList ++ '"' :: (line ++ '\n' :: "#region".toList)).drop 4) =
          some n ∧ n ≤ line.length + 1) ∧
      charExtent (("c = ".toList ++ '\'' :: (line ++ '\n' :: "#region".toList)).drop 4) ≤
        line.length + 1 := by
  intro line
  have hline : '\n' ∉ line := by decide
  have hraw : startsRaw ('"' :: line) = false := by decide
  have hends : ∀ quote, ¬ GoesOn quote line := by
    intro quote hgoes
    exact absurd hgoes.newline (by decide)
  obtain ⟨hstring, -⟩ := literal_line_iff "s = ".toList "#region".toList hline
  obtain ⟨n, hn, hle⟩ := hstring hraw
  obtain ⟨-, hchar⟩ := literal_line_iff "c = ".toList "#region".toList hline
  exact ⟨hline, hraw, ⟨n, hn, hle.2 (hends _)⟩, hchar.2 (hends _)⟩

/-- A backslash in front of the newline takes it along, and hides the directive on the next line. -/
theorem literal_takes_newline :
    "\"\\\n#region\n".toList.idxOf '\n' = 2 ∧
      stringExtent? "\"\\\n#region\n".toList = some 10 ∧
      "'\\\n#region\n".toList.idxOf '\n' = 2 ∧ charExtent "'\\\n#region\n".toList = 10 ∧
      (outline "\"\\\n#region\n".toList).directivesBelow 0 = [] ∧
      (outline "'\\\n#region\n".toList).directivesBelow 0 = [] := by
  decide +kernel

end RegionScope.Source
