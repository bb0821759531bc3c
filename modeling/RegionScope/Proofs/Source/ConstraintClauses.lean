import RegionScope.Proofs.Segments
import RegionScope.Proofs.Source.Extents
import RegionScope.Proofs.Source.TupleTypes
import RegionScope.Proofs.Text.Trimmed

/-!
# Constraint clauses behind a member's header

A constraint clause names types, and with `class` and `struct` it uses the words of a type
declaration, but it declares nothing: the header of a method or of a type stays one with any
constraints behind it (`headerKind_constraint`). Each test on a header is carried over by a lemma
of its own. The search for a word cannot run from the header into the clause, since a blank stands
between them; the search for the end of a parenthesis cannot either, since the header closes all
that it opens (`ParensClosed`).
-/

namespace RegionScope.Source

open RegionScope.Text RegionScope.Brackets

variable {cs rest header text : List Char} {nested : Bool} {word : String} {context : Kind}

/-- A constraint clause: the keyword between blanks, and the constraints. -/
def constraint (text : List Char) : List Char := ' ' :: ("where".toList ++ ' ' :: text)

theorem skipBlanks_constraint (text : List Char) :
    skipBlanks (constraint text) = 'w' :: 'h' :: 'e' :: 'r' :: 'e' :: ' ' :: text := by rfl

/-- A header of a member in front of its constraints: normal, with balanced parentheses, and
without the words that begin a constraint clause or a namespace. -/
structure Unconstrained (header : List Char) : Prop where
  collapsed : collapse header = header
  balanced : BalancedFrom (· == '(') (· == ')') 0 header
  noWhere : hasWord "where" header = false
  noNamespace : hasWord "namespace" header = false

/-- Constraints: a text without arrows and without the words that begin a namespace or an anonymous
method. -/
structure Constraints (text : List Char) : Prop where
  noArrow : ¬ ['=', '>'] <:+: text
  noNamespace : hasWord "namespace" text = false
  noDelegate : hasWord "delegate" text = false

/-- Every parenthesis that opens in the text is closed in it. -/
def ParensClosed (cs : List Char) : Prop :=
  ∀ back, back <:+ cs → excess (· == '(') (· == ')') back ≤ 0

theorem ParensClosed.suffix (h : ParensClosed cs) (hrest : rest <:+ cs) : ParensClosed rest :=
  fun back hback => h back (hback.trans hrest)

/-! ## Words and arrows -/

theorem hasWord_append_constraint (hword : word.toList.all isWord = true)
    (hne : word ≠ "where") :
    hasWord word (header ++ constraint text) = (hasWord word header || hasWord word text) := by
  have hblank : isWord ' ' = false := by decide
  have hwhere : hasWord word "where".toList = false :=
    hasWord_of_run (List.all_eq_true.1 (by decide)) fun h => hne (String.toList_inj.1 h).symm
  rw [constraint, hasWord_append_cons hword hblank, hasWord_append_cons hword hblank, hwhere,
    Bool.false_or]

theorem arrow_append_constraint :
    ['=', '>'] <:+: header ++ constraint text ↔
      ['=', '>'] <:+: header ∨ ['=', '>'] <:+: text := by
  have hwhere : ¬ ['=', '>'] <:+: "where".toList := by decide
  rw [constraint, infix_append_cons_iff (by decide), infix_append_cons_iff (by decide),
    or_iff_right hwhere]

/-- The word `where` of the clause is the first one. -/
theorem beforeWord_append_constraint (h : hasWord "where" header = false) :
    beforeWord "where" (header ++ constraint text) = header ++ [' '] := by
  have hwhere : wordThen "where" (fun rest => !wordFollows rest) (some ' ')
      ("where".toList ++ ' ' :: text) = true := by
    rw [wordThen, Bool.and_eq_true, Option.any_eq_true]
    exact ⟨by decide, ' ' :: text, afterWord?_eq_some_iff.2 rfl, by rfl⟩
  rw [beforeWord, constraint,
    beforePlace_append_cons (cutBy_hasWord (by decide) (by decide)) h]
  exact congrArg (header ++ ' ' :: ·) (if_pos hwhere)

/-- A blank behind a text adds no name to it. -/
theorem nameFollows_append_space (cs back : List Char) :
    nameFollows (cs ++ ' ' :: back) = nameFollows cs := by
  have hspace : isNameStart ' ' = false := by decide
  cases cs with
  | nil => exact hspace
  | cons c cs =>
    rw [List.cons_append, nameFollows, nameFollows]
    cases cs with
    | nil => simp [hspace]
    | cons d cs => rfl

/-- A blank at the end of a text begins no declaration. -/
theorem hasDeclaration_append_space (hne : word.toList ≠ []) (hblank : ' ' ∉ word.toList) :
    hasDeclaration word (cs ++ [' ']) = hasDeclaration word cs := by
  have hrest : ∀ rest : List Char,
      ((rest ++ [' ']).head?.any isBlank && nameFollows (skipBlanks (rest ++ [' ']))) =
        (rest.head?.any isBlank && nameFollows (skipBlanks rest)) := by
    intro rest
    cases rest with
    | nil => decide
    | cons c rest =>
      rw [skipBlanks, List.dropWhile_append]
      split
      · next hnil => rw [skipBlanks, List.isEmpty_iff.1 hnil]; rfl
      · rw [nameFollows_append_space]; rfl
  refine anyPlace_concat (fun prev cs => ?_) ?_
  · rw [wordThen, wordThen, afterWord?_append_cons hblank]
    cases afterWord? word.toList cs with
    | none => rfl
    | some rest => exact congrArg (!prev.any isWord && ·) (hrest rest)
  · obtain ⟨w, ws, hw⟩ := List.exists_cons_of_ne_nil hne
    rw [wordThen, hw]
    rfl

/-! ## Parentheses -/

theorem suffix_of_afterTuple? (h : afterTuple? nested cs = some rest) : rest <:+ cs := by
  fun_induction afterTuple? nested cs with
  | case1 => cases h
  | case2 => cases h
  | case3 _ _ _ ih => exact (ih h).trans (List.suffix_cons _ _)
  | case4 _ _ ih => exact (ih h).trans (List.suffix_cons _ _)
  | case5 =>
    cases h
    exact List.suffix_cons _ _
  | case6 _ _ _ _ _ ih => exact (ih h).trans (List.suffix_cons _ _)

theorem dropNullable_append_space (cs back : List Char) :
    dropNullable (cs ++ ' ' :: back) = dropNullable cs ++ ' ' :: back := by
  cases cs with
  | nil =>
    show (if ' ' = '?' then back else ' ' :: back) = _
    exact if_neg (by decide)
  | cons c cs =>
    rw [List.cons_append, dropNullable, dropNullable]
    split <;> rfl

theorem suffix_dropNullable (cs : List Char) : dropNullable cs <:+ cs := by
  cases cs with
  | nil => exact List.suffix_rfl
  | cons c cs =>
    rw [dropNullable]
    split
    · exact List.suffix_cons c cs
    · exact List.suffix_rfl

theorem suffix_of_afterTupleType? (h : afterTupleType? cs = some rest) : rest <:+ cs := by
  obtain ⟨h, -⟩ := Option.filter_eq_some_iff.1 h
  obtain ⟨tail, htail, rfl⟩ := Option.map_eq_some_iff.1 h
  exact (suffix_dropNullable tail).trans (suffix_of_afterTuple? htail)

/-- The search for the end of a parenthesis ends before the text does if the text closes more
parentheses than it opens. -/
theorem afterTuple?_append_of_excess
    (h : excess (· == '(') (· == ')') cs + (if nested then 2 else 1) ≤ 0) (back : List Char) :
    afterTuple? nested (cs ++ back) = (afterTuple? nested cs).map (· ++ back) := by
  induction cs generalizing nested with
  | nil => cases nested <;> simp [excess] at h
  | cons c cs ih =>
    rw [excess_cons] at h
    rw [List.cons_append, afterTuple?, afterTuple?]
    split
    · next hopen =>
      subst hopen
      cases nested with
      | true => rfl
      | false => exact ih (by simp at h ⊢; omega)
    · next hopen =>
      split
      · next hclose =>
        subst hclose
        cases nested with
        | true => exact ih (by simp at h ⊢; omega)
        | false => rfl
      · next hclose => exact ih (by simpa [hopen, hclose] using h)

/-- A clause goes on otherwise than what is behind a type, and it decides nothing behind a text that
ends with no blank. -/
theorem followsType_append_constraint (hlast : ∀ c ∈ cs.getLast?, isBlank c = false)
    (text : List Char) :
    followsType (cs ++ constraint text) = followsType cs := by
  cases cs with
  | nil =>
    have hwhere :
        startsWholeWord "where" ('w' :: 'h' :: 'e' :: 'r' :: 'e' :: ' ' :: text) = true := by
      rw [startsWholeWord_iff (by decide)]
      exact (takeWhile_append_cons (by decide) "where".toList text).trans (by decide)
    rw [List.nil_append, followsType, skipBlanks_constraint]
    simp [hwhere, followsType, skipBlanks]
  | cons c cs =>
    obtain ⟨hne, hskip⟩ := skipBlanks_append_of_last (by simp) hlast (constraint text)
    obtain ⟨d, ds, hds⟩ := List.exists_cons_of_ne_nil hne
    have hword : startsWholeWord "where" (d :: (ds ++ constraint text)) =
        startsWholeWord "where" (d :: ds) := by
      rw [Bool.eq_iff_iff, startsWholeWord_iff (by decide), startsWholeWord_iff (by decide),
        ← List.cons_append, constraint, takeWhile_append_cons (by decide)]
    have hname : nameFollows (d :: (ds ++ constraint text)) = nameFollows (d :: ds) :=
      nameFollows_append_space (d :: ds) _
    rw [followsType, followsType, hskip, hds, List.cons_append]
    simp only [hword, hname]
    rfl

/-- No tuple type of a header reaches into the clause behind it. -/
theorem afterTupleType?_append_constraint (hclosed : excess (· == '(') (· == ')') cs + 1 ≤ 0)
    (hlast : ∀ c ∈ cs.getLast?, isBlank c = false) (text : List Char) :
    afterTupleType? (cs ++ constraint text) = (afterTupleType? cs).map (· ++ constraint text) := by
  have hsearch : afterTuple? false (cs ++ constraint text) =
      (afterTuple? false cs).map (· ++ constraint text) :=
    afterTuple?_append_of_excess hclosed _
  rw [afterTupleType?, afterTupleType?, hsearch]
  cases htail : afterTuple? false cs with
  | none => rfl
  | some tail =>
    have hnull : dropNullable (tail ++ constraint text) = dropNullable tail ++ constraint text :=
      dropNullable_append_space tail _
    have hsuffix : dropNullable tail <:+ cs :=
      (suffix_dropNullable tail).trans (suffix_of_afterTuple? htail)
    have hfollows := followsType_append_constraint (isBlank_last_of_suffix hsuffix hlast) text
    simp only [Option.map_some, hnull, Option.filter_some, hfollows]
    split <;> rfl

/-- The tuple types of a header and those of the clause behind it are cut out on their own. -/
theorem removeTupleTypes_append_constraint (hclosed : ParensClosed cs)
    (hlast : ∀ c ∈ cs.getLast?, isBlank c = false) (text : List Char) :
    removeTupleTypes (cs ++ constraint text) =
      removeTupleTypes cs ++ removeTupleTypes (constraint text) := by
  induction hlength : cs.length using Nat.strongRecOn generalizing cs with
  | ind length ih =>
    cases cs with
    | nil => simp [removeTupleTypes]
    | cons c cs =>
      have hsuffix : cs <:+ c :: cs := List.suffix_cons c cs
      have htail : removeTupleTypes (cs ++ constraint text) =
          removeTupleTypes cs ++ removeTupleTypes (constraint text) :=
        ih _ (hlength ▸ Nat.lt_succ_self _) (hclosed.suffix hsuffix)
          (isBlank_last_of_suffix hsuffix hlast) rfl
      by_cases hc : c = '('
      · subst hc
        have hexcess := hclosed _ List.suffix_rfl
        rw [excess_cons] at hexcess
        have hsearch := afterTupleType?_append_constraint (by simpa using hexcess)
          (isBlank_last_of_suffix hsuffix hlast) text
        rw [List.cons_append]
        cases hrest : afterTupleType? cs with
        | none =>
          rw [hrest] at hsearch
          rw [removeTupleTypes_of_none hsearch, removeTupleTypes_of_none hrest, htail,
            List.cons_append]
        | some rest =>
          rw [hrest] at hsearch
          have hsuffix' := (suffix_of_afterTupleType? hrest).trans hsuffix
          rw [removeTupleTypes_of_some hsearch, removeTupleTypes_of_some hrest]
          refine ih _ ?_ (hclosed.suffix hsuffix') (isBlank_last_of_suffix hsuffix' hlast) rfl
          rw [← hlength]
          exact Nat.lt_succ_of_lt (length_afterTupleType? hrest)
      · have hkeep : ∀ back, removeTupleTypes (c :: back) = c :: removeTupleTypes back := by
          intro back
          rw [removeTupleTypes, if_neg hc]
        rw [List.cons_append, hkeep, hkeep, htail, List.cons_append]

/-! ## Lambdas -/

theorem exists_of_isFlatParameterList (h : isFlatParameterList cs = true) :
    ∃ inner tail, cs = '(' :: (inner ++ ')' :: tail) ∧ ')' ∉ inner ∧ isEnd tail = true := by
  cases cs with
  | nil => cases h
  | cons c cs =>
    rw [isFlatParameterList, Bool.and_eq_true, beq_iff_eq] at h
    obtain ⟨rfl, h⟩ := h
    split at h
    · cases h
    · next d tail hdrop =>
      rw [Bool.and_eq_true, beq_iff_eq] at h
      obtain ⟨rfl, htail⟩ := h
      refine ⟨cs.takeWhile fun d => d != '(' && d != ')', tail, ?_, ?_, htail⟩
      · rw [← hdrop, List.takeWhile_append_dropWhile]
      · intro hmem
        simpa using List.mem_takeWhile_imp hmem

/-- A parameter list that a header closes does not end with the clause behind it. -/
theorem isFlatParameterList_append_constraint (hclosed : ParensClosed cs) :
    isFlatParameterList (cs ++ constraint text) = false := by
  rw [← Bool.not_eq_true]
  intro hflat
  obtain ⟨inner, tail, hsplit, hinner, htail⟩ := exists_of_isFlatParameterList hflat
  cases cs with
  | nil => exact absurd (List.cons.inj hsplit).1 (by decide)
  | cons c cs =>
    obtain ⟨rfl, hrest⟩ := List.cons.inj hsplit
    rcases List.append_eq_append_iff.1 hrest with ⟨front, rfl, -⟩ | ⟨back, -, hback⟩
    · -- the parenthesis would stay open in the header
      have hexcess := hclosed _ List.suffix_rfl
      have hclose : cs.countP (fun c => c == ')' && !(c == '(')) = 0 := by
        rw [List.countP_eq_zero]
        intro d hd hboth
        rw [Bool.and_eq_true, beq_iff_eq] at hboth
        exact hinner (List.mem_append_left _ (hboth.1 ▸ hd))
      rw [excess_cons, excess, hclose] at hexcess
      simp at hexcess
      omega
    · -- the clause would be the end of a line
      have hlength := congrArg List.length hback
      have hend : tail.length ≤ 1 := by
        cases tail with
        | nil => simp
        | cons d tail =>
          rw [isEnd, Bool.and_eq_true] at htail
          rw [List.isEmpty_iff.1 htail.2]
          simp
      rw [List.length_append, List.length_cons, constraint, List.length_cons, List.length_append,
        List.length_cons] at hlength
      have hwhere : "where".toList.length = 5 := rfl
      omega

/-- With a clause behind it, what follows `delegate` in a header ends no lambda. -/
theorem endsDelegate_append_constraint (hclosed : ParensClosed rest)
    (hlast : ∀ c ∈ rest.getLast?, isBlank c = false) :
    ((skipBlanks (rest ++ constraint text)).isEmpty ||
      isFlatParameterList (skipBlanks (rest ++ constraint text))) = false := by
  by_cases hrest : rest = []
  · rw [hrest, List.nil_append, skipBlanks_constraint]
    rfl
  · obtain ⟨-, hskip⟩ := skipBlanks_append_of_last hrest hlast (constraint text)
    have hclosed' : ParensClosed (skipBlanks rest) :=
      hclosed.suffix (List.dropWhile_suffix isBlank)
    rw [hskip, isFlatParameterList_append_constraint hclosed', Bool.or_false,
      List.isEmpty_eq_false_iff]
    simp [constraint]

/-- A header in front of a clause is no lambda, unless an arrow or `delegate` stands in the
clause. -/
theorem isLambda_append_constraint (hclosed : ParensClosed header)
    (hlast : ∀ c ∈ header.getLast?, isBlank c = false) (harrow : ¬ ['=', '>'] <:+: header)
    (h : Constraints text) : isLambda (header ++ constraint text) = false := by
  rw [isLambda, Bool.or_eq_false_iff, ← Bool.not_eq_true, ← Bool.not_eq_true]
  constructor
  · intro hplace
    have hfound : ['=', '>'] <:+: header ++ constraint text := by
      refine anyPlace_afterWord?_iff.1 (anyPlace_mono (fun _ cs hend => ?_) hplace)
      obtain ⟨rest, hrest, -⟩ := (Option.any_eq_true _ _).1 hend
      exact Option.isSome_of_eq_some hrest
    exact (arrow_append_constraint.1 hfound).elim harrow h.noArrow
  · intro hplace
    rcases exists_suffix_of_anyPlace hplace with ⟨prev, back, hback, hhere⟩ | hclause
    · -- `delegate` stands in the header, so the clause follows it
      rw [wordThen, afterWord?_append_cons (by decide), Bool.and_eq_true] at hhere
      cases hrest : afterWord? "delegate".toList back with
      | none =>
        rw [hrest] at hhere
        cases hhere.2
      | some rest =>
        have hback' : rest <:+ back := afterWord?_eq_some_iff.1 hrest ▸ List.suffix_append _ _
        have hends : ((skipBlanks (rest ++ constraint text)).isEmpty ||
            isFlatParameterList (skipBlanks (rest ++ constraint text))) = true := by
          rw [hrest] at hhere
          exact hhere.2
        rw [endsDelegate_append_constraint (hclosed.suffix (hback'.trans hback))
          (isBlank_last_of_suffix (hback'.trans hback) hlast)] at hends
        cases hends
    · have hword : hasWord "delegate" ("where".toList ++ ' ' :: text) = true := by
        rw [hasWord, ← anyPlace_some_of_cutBy (cutBy_hasWord (c := ' ') (by decide) (by decide))]
        exact anyPlace_hasWord wordFollows_of_endsDelegate hclause
      rw [hasWord_append_cons (by decide) (by decide), h.noDelegate, Bool.or_false] at hword
      exact absurd hword (by decide)

/-! ## Kinds of members -/

section

variable (hcontext : context ≠ .propertyDeclaration)

include hcontext

theorem memberKind_eq_typeDeclaration_iff :
    memberKind context header = .typeDeclaration ↔
      hasDeclaration "namespace" header = false ∧
        typeKeywords.any (hasDeclaration · (beforeWord "where" header)) = true := by
  rw [memberKind, if_neg fun h => hcontext h.1]
  cases hasDeclaration "namespace" header with
  | true => simp
  | false =>
    cases typeKeywords.any (hasDeclaration · (beforeWord "where" header)) with
    | true => simp
    | false =>
      -- the other tests lead to other kinds
      simp only [Bool.false_eq_true, if_false, and_false, iff_false]
      split_ifs <;> (intro h; cases h)

theorem memberKind_eq_methodDeclaration_iff :
    memberKind context header = .methodDeclaration ↔
      hasDeclaration "namespace" header = false ∧
        typeKeywords.any (hasDeclaration · (beforeWord "where" header)) = false ∧
        isLambda header = false ∧ ¬ ['=', '>'] <:+: header ∧
        hasAssignment ((removeTupleTypes header).takeWhile (· != '(')) = false ∧
        '(' ∈ removeTupleTypes header := by
  rw [memberKind, if_neg fun h => hcontext h.1]
  cases hasDeclaration "namespace" header with
  | true => simp
  | false =>
    cases typeKeywords.any (hasDeclaration · (beforeWord "where" header)) with
    | true => simp
    | false =>
      cases isLambda header with
      | true => simp
      | false =>
        have harrow : anyPlace (fun _ cs => (afterWord? ['=', '>'] cs).isSome) none header = true ↔
            ['=', '>'] <:+: header := anyPlace_afterWord?_iff
        rw [← harrow]
        cases anyPlace (fun _ cs => (afterWord? ['=', '>'] cs).isSome) none header with
        | true => simp
        | false =>
          dsimp only
          cases hasAssignment ((removeTupleTypes header).takeWhile (· != '(')) <;> simp

end

/-- Neither the header nor the clause declares a namespace. -/
theorem namespace_append_constraint (h : Unconstrained header) (htext : Constraints text) :
    hasDeclaration "namespace" (header ++ constraint text) = false := by
  rw [← Bool.not_eq_true]
  intro hplace
  have hword := hasWord_of_hasDeclaration hplace
  rw [hasWord_append_constraint (by decide) (by decide), h.noNamespace, htext.noNamespace] at hword
  cases hword

/-- What stands in front of the clause declares a type exactly if the header does. -/
theorem typeKeywords_append_constraint (h : Unconstrained header) (text : List Char) :
    typeKeywords.any (hasDeclaration · (beforeWord "where" (header ++ constraint text))) =
      typeKeywords.any (hasDeclaration · (beforeWord "where" header)) := by
  have hspaces : ∀ word ∈ typeKeywords, word.toList ≠ [] ∧ ' ' ∉ word.toList := by decide
  have hbefore : beforeWord "where" header = header := beforePlace_eq_self h.noWhere
  rw [beforeWord_append_constraint h.noWhere, hbefore, Bool.eq_iff_iff, List.any_eq_true,
    List.any_eq_true]
  refine exists_congr fun word => and_congr_right fun hword => ?_
  rw [hasDeclaration_append_space (hspaces word hword).1 (hspaces word hword).2]

/-- What stands in front of the first parenthesis does not reach behind a text that has one. -/
theorem takeWhile_append_of_paren (h : '(' ∈ cs) (back : List Char) :
    (cs ++ back).takeWhile (· != '(') = cs.takeWhile (· != '(') := by
  rw [List.takeWhile_append, if_neg]
  intro hlength
  have hall := List.takeWhile_eq_self_iff.1
    ((List.takeWhile_prefix (· != '(')).eq_of_length hlength) '(' h
  cases hall

/-- A constraint clause behind the header of a method or of a type, whatever types, tuple types,
constructors and further clauses it names, leaves the header what it is. -/
theorem headerKind_constraint (hcontext : context ∈
      [.compilationUnit, .namespaceDeclaration, .typeDeclaration]) (h : Unconstrained header)
    (hkind : headerKind context header = .methodDeclaration ∨
      headerKind context header = .typeDeclaration) (htext : Constraints text) :
    headerKind context (header ++ " where ".toList ++ text) = headerKind context header := by
  have hproperty : context ≠ .propertyDeclaration := by
    rintro rfl
    exact absurd hcontext (by decide)
  have hmember : ∀ header, headerKind context header = memberKind context header := by
    intro header
    have hall : ∀ context ∈ [Kind.compilationUnit, .namespaceDeclaration, .typeDeclaration],
        context.holdsMembers = true := by decide
    rw [headerKind, if_pos (hall context hcontext)]
  have hclause : header ++ " where ".toList ++ text = header ++ constraint text :=
    List.append_assoc ..
  have hclosed : ParensClosed header := fun back hback => h.balanced.excess_nonpos hback
  have hlast : ∀ c ∈ header.getLast?, isBlank c = false :=
    (h.collapsed ▸ trimmed_collapse header : Trimmed header).last
  have hnamespace := namespace_append_constraint h htext
  have htypes := typeKeywords_append_constraint h text
  rw [hclause, hmember, hmember] at *
  rcases hkind with hkind | hkind
  · rw [hkind, memberKind_eq_methodDeclaration_iff hproperty]
    obtain ⟨-, hnotype, -, harrow, hassign, hopen⟩ :=
      (memberKind_eq_methodDeclaration_iff hproperty).1 hkind
    have hsignature := removeTupleTypes_append_constraint hclosed hlast text
    refine ⟨hnamespace, htypes.trans hnotype, isLambda_append_constraint hclosed hlast harrow htext,
      fun hfound => (arrow_append_constraint.1 hfound).elim harrow htext.noArrow, ?_, ?_⟩
    · rw [hsignature, takeWhile_append_of_paren hopen, hassign]
    · rw [hsignature]
      exact List.mem_append_left _ hopen
  · rw [hkind, memberKind_eq_typeDeclaration_iff hproperty]
    have htype := ((memberKind_eq_typeDeclaration_iff hproperty).1 hkind).2
    exact ⟨hnamespace, htypes.trans htype⟩

/-- Constraints with every kind of thing that could be taken for another header. -/
theorem headerKind_constraint_tuple_arguments :
    let header := "public T M<T>((int a, int b) pair)".toList
    let text := "T : class, IEquatable<(int, int)>, new() where U : struct".toList
    Unconstrained header ∧ headerKind .typeDeclaration header = .methodDeclaration ∧
      Constraints text ∧
      headerKind .typeDeclaration (header ++ " where ".toList ++ text) = .methodDeclaration := by
  intro header text
  have hheader : Unconstrained header :=
    ⟨by decide +kernel, by decide +kernel, by decide +kernel, by decide +kernel⟩
  have hkind : headerKind .typeDeclaration header = .methodDeclaration := by decide +kernel
  have htext : Constraints text := ⟨by decide +kernel, by decide +kernel, by decide +kernel⟩
  exact ⟨hheader, hkind, htext,
    (headerKind_constraint (by decide) hheader (.inl hkind) htext).trans hkind⟩

end RegionScope.Source
