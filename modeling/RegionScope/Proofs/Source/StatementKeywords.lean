import RegionScope.Proofs.Tables
import RegionScope.Source.HeaderKind

/-!
# Keywords and the table of statements

The keyword of a statement is looked for among a list of words first (`statementKeyword?`), and the
kind of the statement is then looked up in a table. The table has an entry for every word of the
list (`isSome_statementKind?_of_keyword`), so the look-up never fails and the kind of a brace is
found behind every header (`headerKind?_eq`).
-/

namespace RegionScope.Source

open RegionScope.Text

/-- The words that begin a statement with braces. -/
def statementKeywords : List String :=
  ["if", "for", "foreach", "while", "do", "try", "catch", "finally", "else", "using", "lock",
   "fixed", "checked", "unchecked", "unsafe", "switch"]

/-- The keyword at the head of a text. -/
def leadingKeyword? (cs : List Char) : Option String :=
  statementKeywords.find? (startsWholeWord · cs)

/-- The keyword that a header begins with; behind `else` and blanks another keyword counts. -/
def statementKeyword? (header : List Char) : Option String :=
  let afterElse := (afterWord? "else".toList header).bind fun rest =>
    if rest.head?.any isBlank then leadingKeyword? (skipBlanks rest) else none
  afterElse <|> leadingKeyword? header

/-- The kind of the node that a brace opens; none if the keyword of its header is not in the
table. -/
def headerKind? (context : Kind) (header : List Char) : Option Kind :=
  if context.holdsMembers || context.holdsExpressions || isLambda header then
    some (headerKind context header)
  else
    match statementKeyword? header with
    | some keyword => statementKind? keyword
    | none => some (headerKind context header)

/-! ## Whole words -/

theorem afterWord?_eq_some_iff {word cs rest : List Char} :
    afterWord? word cs = some rest ↔ cs = word ++ rest := by
  induction word generalizing cs with
  | nil =>
    rw [afterWord?, Option.some.injEq]
    rfl
  | cons w word ih =>
    cases cs with
    | nil => exact ⟨nofun, nofun⟩
    | cons c cs =>
      rw [afterWord?, List.cons_append, List.cons.injEq, eq_comm (a := c)]
      split
      · next hw => rw [ih, and_iff_right hw]
      · next hw => exact ⟨nofun, fun h => absurd h.1 hw⟩

/-- A text begins with a whole word exactly if its longest run of word characters is that word. -/
theorem startsWholeWord_iff {word : String} {cs : List Char}
    (hword : word.toList.all isWord = true) :
    startsWholeWord word cs = true ↔ cs.takeWhile isWord = word.toList := by
  have hall : ∀ c ∈ word.toList, isWord c = true := List.all_eq_true.1 hword
  rw [startsWholeWord, Option.any_eq_true]
  constructor
  · rintro ⟨rest, hrest, hfollows⟩
    obtain rfl := afterWord?_eq_some_iff.1 hrest
    rw [List.takeWhile_append_of_pos hall]
    cases rest with
    | nil => exact List.append_nil _
    | cons c rest =>
      have hc : isWord c = false := by simpa [wordFollows] using hfollows
      rw [List.takeWhile_cons_of_neg (by simp [hc]), List.append_nil]
  · intro htake
    refine ⟨cs.dropWhile isWord, afterWord?_eq_some_iff.2 ?_, ?_⟩
    · rw [← htake, List.takeWhile_append_dropWhile]
    · have := List.head?_dropWhile_not isWord cs
      cases hhead : (cs.dropWhile isWord).head? with
      | none => rw [wordFollows, hhead]; rfl
      | some c =>
        rw [hhead] at this
        simp [wordFollows, hhead, this]

/-! ## The table -/

theorem isSome_statementKind?_of_mem {keyword : String} (h : keyword ∈ statementKeywords) :
    (statementKind? keyword).isSome = true := by
  have hall : ∀ keyword ∈ statementKeywords, (statementKind? keyword).isSome = true := by decide
  exact hall keyword h

/-- The table has no entries but those of the keywords. -/
theorem mem_of_statementKind? {keyword : String} {kind : Kind}
    (h : statementKind? keyword = some kind) : keyword ∈ statementKeywords :=
  List.contains_iff_mem.1 <|
    of_lookup_eq_some (p := fun entry => statementKeywords.contains entry.1) (by decide) h

theorem mem_of_leadingKeyword? {keyword : String} {cs : List Char}
    (h : leadingKeyword? cs = some keyword) : keyword ∈ statementKeywords :=
  List.mem_of_find?_eq_some h

/-- Every keyword that is found has an entry in the table. -/
theorem isSome_statementKind?_of_keyword {keyword : String} {header : List Char}
    (h : statementKeyword? header = some keyword) : (statementKind? keyword).isSome = true := by
  apply isSome_statementKind?_of_mem
  rw [statementKeyword?, Option.orElse_eq_orElse, Option.orElse_eq_or, Option.or_eq_some_iff] at h
  rcases h with h | ⟨-, h⟩
  · obtain ⟨rest, -, h⟩ := Option.bind_eq_some_iff.1 h
    split at h
    · exact mem_of_leadingKeyword? h
    · cases h
  · exact mem_of_leadingKeyword? h

/-! ## Kinds of headers -/

theorem leadingStatement?_eq (cs : List Char) :
    leadingStatement? cs = (leadingKeyword? cs).bind statementKind? := by
  have hwords : ∀ keyword ∈ statementKeywords, keyword.toList.all isWord = true := by decide
  rw [leadingStatement?]
  cases hkeyword : leadingKeyword? cs with
  | some keyword =>
    have hmem := mem_of_leadingKeyword? hkeyword
    have hstarts : startsWholeWord keyword cs = true :=
      List.find?_some (p := (startsWholeWord · cs)) hkeyword
    have hword : cs.takeWhile isWord = keyword.toList :=
      (startsWholeWord_iff (hwords keyword hmem)).1 hstarts
    rw [hword, String.ofList_toList, Option.bind_some]
  | none =>
    -- a word of the table would have been found among the keywords
    rw [Option.bind_none, Option.eq_none_iff_forall_ne_some]
    intro kind hkind
    have hmem := mem_of_statementKind? hkind
    have hword := (startsWholeWord_iff (hwords _ hmem)).2 String.toList_ofList.symm
    exact List.find?_eq_none.1 hkeyword _ hmem hword

/-- The keyword behind `else`, if there is one. -/
theorem afterElse_bind (header : List Char) :
    ((afterWord? "else".toList header).bind fun rest =>
      if rest.head?.any isBlank then leadingKeyword? (skipBlanks rest) else none).bind
        statementKind? =
      (afterWord? "else".toList header).bind fun rest =>
        if rest.head?.any isBlank then leadingStatement? (skipBlanks rest) else none := by
  cases afterWord? "else".toList header with
  | none => rfl
  | some rest =>
    rw [Option.bind_some, Option.bind_some]
    split
    · exact (leadingStatement?_eq _).symm
    · rfl

theorem statementOf?_eq (header : List Char) :
    statementOf? header = (statementKeyword? header).bind statementKind? := by
  have hfound := fun keyword => @isSome_statementKind?_of_keyword keyword header
  rw [statementOf?, leadingStatement?_eq header, ← afterElse_bind]
  rw [statementKeyword?] at hfound ⊢
  generalize ((afterWord? "else".toList header).bind fun rest =>
    if rest.head?.any isBlank then leadingKeyword? (skipBlanks rest) else none) = first at hfound ⊢
  cases first with
  | none => rfl
  | some keyword =>
    obtain ⟨kind, hkind⟩ := Option.isSome_iff_exists.1 (hfound keyword rfl)
    rw [Option.bind_some, hkind]
    exact hkind.symm

/-- The kind of a brace is found behind every header. -/
theorem headerKind?_eq (context : Kind) (header : List Char) :
    headerKind? context header = some (headerKind context header) := by
  rw [headerKind?]
  split
  · rfl
  · next hother =>
    rw [Bool.or_eq_true, Bool.or_eq_true, not_or, not_or] at hother
    obtain ⟨⟨hmembers, hexpressions⟩, hlambda⟩ := hother
    cases hkeyword : statementKeyword? header with
    | none => rfl
    | some keyword =>
      obtain ⟨kind, hkind⟩ := Option.isSome_iff_exists.1 (isSome_statementKind?_of_keyword hkeyword)
      have hstatement : statementOf? header = some kind := by
        rw [statementOf?_eq, hkeyword, Option.bind_some, hkind]
      rw [headerKind, if_neg hmembers, if_neg hexpressions, statementKind, if_neg hlambda,
        hstatement]
      exact hkind

end RegionScope.Source
