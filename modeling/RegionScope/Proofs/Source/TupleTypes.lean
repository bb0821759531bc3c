import RegionScope.Proofs.Brackets
import RegionScope.Proofs.Source.HeaderWords

/-!
# Tuple types in front of a member's name

The parentheses of a tuple type open no parameter list, so a header whose only parentheses are those
of its type should be one of a property. The tuple types are cut out of a header before its
parameter list is looked for, but only those that hold at most tuple types without tuple types in
them. A tuple type that goes deeper stays with its first parenthesis, and the property is taken for
a method (`headerKind_tuple_member`).
-/

namespace RegionScope.Source

open RegionScope.Text RegionScope.Brackets

/-! ## Names -/

/-- An ASCII name that is no reserved word. -/
structure PlainName where
  first : Char
  rest : List Char
  starts : isNameStart first = true
  goesOn : ∀ c ∈ rest, c.isAlphanum = true ∨ c = '_'
  unreserved : ∀ word ∈ reservedWords, first :: rest ≠ word.toList

namespace PlainName

variable (name : PlainName) {cs : List Char}

/-- The characters of a name. -/
def chars : List Char := name.first :: name.rest

/-- A name of one letter. -/
def letter (c : Char) (h : isNameStart c = true) : PlainName where
  first := c
  rest := []
  starts := h
  goesOn := nofun
  unreserved := by
    have hlength : ∀ word ∈ reservedWords, word.toList.length ≠ 1 := by decide
    exact fun word hword heq => hlength word hword (heq ▸ rfl)

theorem isWord_chars : ∀ c ∈ name.chars, isWord c = true := by
  have hunderscore : isWord '_' = true := by decide
  intro c hc
  rcases List.mem_cons.1 hc with rfl | hc
  · rcases Bool.or_eq_true_iff.1 name.starts with h | h
    · exact isWord_of_isAlphanum (by simp [Char.isAlphanum, h])
    · rwa [beq_iff_eq.1 h]
  · rcases name.goesOn c hc with h | rfl
    · exact isWord_of_isAlphanum h
    · exact hunderscore

/-- A character of no word is in no name. -/
theorem not_mem_chars {c : Char} (hc : isWord c = false) : c ∉ name.chars := by
  intro hmem
  rw [name.isWord_chars c hmem] at hc
  cases hc

theorem unmarked : Unmarked name.chars := unmarked_of_run name.isWord_chars name.unreserved

/-- A blank and a name go on as behind a type. -/
theorem followsType (hcs : wordFollows cs = false) :
    Source.followsType (' ' :: (name.chars ++ cs)) = true := by
  have hfirst : isBlank name.first = false := by
    rw [← Bool.not_eq_true]
    intro hblank
    exact name.not_mem_chars (isWord_of_isBlank hblank) List.mem_cons_self
  have hskip : skipBlanks (' ' :: (name.chars ++ cs)) = name.first :: (name.rest ++ cs) := by
    rw [skipBlanks, List.dropWhile_cons_of_pos (by decide)]
    exact List.dropWhile_cons_of_neg (by simp [hfirst])
  have hwhere : startsWholeWord "where" (name.first :: (name.rest ++ cs)) = false := by
    rw [← Bool.not_eq_true, startsWholeWord_iff (by decide)]
    show ¬ (name.chars ++ cs).takeWhile isWord = _
    have hcs' : cs.takeWhile isWord = [] := by
      cases cs with
      | nil => rfl
      | cons c cs =>
        have hc : isWord c = false := hcs
        exact List.takeWhile_cons_of_neg (by simp [hc])
    rw [List.takeWhile_append_of_pos name.isWord_chars, hcs', List.append_nil]
    exact name.unreserved "where" (by decide)
  have hname : nameFollows (name.first :: (name.rest ++ cs)) = true := by
    rw [nameFollows, if_neg, name.starts]
    intro hat
    exact absurd (hat ▸ name.starts) (by decide)
  rw [Source.followsType, hskip]
  have hblank : isBlank ' ' = true := by decide
  simp [hwhere, hname, hblank]

end PlainName

/-! ## Tuple types -/

/-- A blank and the name of an element, if it has one. -/
def elementName : Option PlainName → List Char
  | none => []
  | some name => ' ' :: name.chars

/-- What may follow a type: a question mark, and the name of an element. -/
def elementMark (nullable : Bool) (element : Option PlainName) : List Char :=
  (if nullable then ['?'] else []) ++ elementName element

mutual

/-- The components of a tuple type, two or more. -/
inductive TupleType where
  | pair (first last : Component)
  | cons (first : Component) (rest : TupleType)

/-- A component of a tuple type, with a question mark and an element name or without. -/
inductive Component where
  | named (type : PlainName) (nullable : Bool) (element : Option PlainName)
  | tuple (type : TupleType) (nullable : Bool) (element : Option PlainName)

end

/-- A component with a name of one letter. -/
def Component.letter (c : Char) (h : isNameStart c = true) : Component :=
  .named (.letter c h) false none

mutual

/-- The text between the parentheses of a tuple type. -/
def TupleType.inner : TupleType → List Char
  | .pair first last => first.text ++ ',' :: ' ' :: last.text
  | .cons first rest => first.text ++ ',' :: ' ' :: rest.inner

/-- The text of a component. -/
def Component.text : Component → List Char
  | .named type nullable element => type.chars ++ elementMark nullable element
  | .tuple type nullable element => '(' :: (type.inner ++ ')' :: elementMark nullable element)

end

mutual

/-- How deep the parentheses of a tuple type go. -/
def TupleType.depth : TupleType → Nat
  | .pair first last => max (first.depth + 1) (last.depth + 1)
  | .cons first rest => max (first.depth + 1) rest.depth

/-- How deep the parentheses of a component go. -/
def Component.depth : Component → Nat
  | .named .. => 0
  | .tuple type .. => type.depth

end

theorem TupleType.depth_pos : ∀ type : TupleType, 0 < type.depth
  | .pair _ _ => Nat.lt_of_lt_of_le (Nat.succ_pos _) (Nat.le_max_left ..)
  | .cons _ _ => Nat.lt_of_lt_of_le (Nat.succ_pos _) (Nat.le_max_left ..)

/-! ### Words of a tuple type -/

theorem Unmarked.append_elementMark {cs : List Char} (h : Unmarked cs) (nullable : Bool)
    (element : Option PlainName) : Unmarked (cs ++ elementMark nullable element) := by
  have hname : ∀ {cs}, Unmarked cs → Unmarked (cs ++ elementName element) := by
    intro cs hcs
    cases element with
    | none => rwa [elementName, List.append_nil]
    | some name => exact hcs.append_cons name.unmarked rfl
  cases nullable with
  | false => exact hname h
  | true => exact h.append_cons (hname unmarked_nil) rfl

mutual

theorem TupleType.unmarked : ∀ type : TupleType, Unmarked type.inner
  | .pair first last => first.unmarked.append_cons (last.unmarked.cons rfl) rfl
  | .cons first rest => first.unmarked.append_cons (rest.unmarked.cons rfl) rfl

theorem Component.unmarked : ∀ component : Component, Unmarked component.text
  | .named type nullable element => type.unmarked.append_elementMark nullable element
  | .tuple type nullable element =>
    (type.unmarked.append_cons (unmarked_nil.append_elementMark nullable element) rfl).cons rfl

end

/-! ## The search for the end of a tuple type -/

section

variable {cs rest : List Char} {nested : Bool}

theorem afterTuple?_append (hopen : '(' ∉ cs) (hclose : ')' ∉ cs) :
    afterTuple? nested (cs ++ rest) = afterTuple? nested rest := by
  induction cs with
  | nil => rfl
  | cons c cs ih =>
    rw [List.mem_cons, not_or] at hopen hclose
    rw [List.cons_append, afterTuple?, if_neg (Ne.symm hopen.1), if_neg (Ne.symm hclose.1),
      ih hopen.2 hclose.2]

theorem afterTuple?_chars (name : PlainName) :
    afterTuple? nested (name.chars ++ rest) = afterTuple? nested rest :=
  afterTuple?_append (name.not_mem_chars (by decide)) (name.not_mem_chars (by decide))

theorem afterTuple?_elementMark (nullable : Bool) (element : Option PlainName) :
    afterTuple? nested (elementMark nullable element ++ rest) = afterTuple? nested rest := by
  have hname : afterTuple? nested (elementName element ++ rest) = afterTuple? nested rest := by
    cases element with
    | none => rfl
    | some name => exact afterTuple?_chars name
  cases nullable with
  | false => exact hname
  | true => exact hname

/-- How many more parentheses the search can go into. -/
def room (nested : Bool) : Nat := if nested then 0 else 1

/-- The search passes a component and what follows it if it passes both. -/
theorem afterTuple?_component {component : Component} {tail : List Char} {depth : Nat}
    (hcomponent : ∀ rest, afterTuple? nested (component.text ++ rest) =
      if component.depth ≤ room nested then afterTuple? nested rest else none)
    (htail : afterTuple? nested (tail ++ rest) =
      if depth ≤ room nested + 1 then afterTuple? nested rest else none) :
    afterTuple? nested ((component.text ++ ',' :: ' ' :: tail) ++ rest) =
      if max (component.depth + 1) depth ≤ room nested + 1 then afterTuple? nested rest
      else none := by
  have hcomma : afterTuple? nested (',' :: ' ' :: (tail ++ rest)) =
      afterTuple? nested (tail ++ rest) := rfl
  rw [List.append_assoc, List.cons_append, List.cons_append, hcomponent, hcomma, htail, ← ite_and]
  exact if_congr (by rw [Nat.max_le, Nat.add_le_add_iff_right]) rfl rfl

mutual

/-- The search passes the components of a tuple type whose parentheses it can go into, and fails in
any other. -/
theorem TupleType.afterTuple?_inner (nested : Bool) (rest : List Char) : ∀ type : TupleType,
    afterTuple? nested (type.inner ++ rest) =
      if type.depth ≤ room nested + 1 then afterTuple? nested rest else none
  | .pair first last => by
    have hlast := Component.afterTuple?_text nested rest last
    refine afterTuple?_component (fun rest => Component.afterTuple?_text nested rest first) ?_
    exact hlast.trans (if_congr Nat.add_le_add_iff_right.symm rfl rfl)
  | .cons first more =>
    afterTuple?_component (fun rest => Component.afterTuple?_text nested rest first)
      (TupleType.afterTuple?_inner nested rest more)

theorem Component.afterTuple?_text (nested : Bool) (rest : List Char) : ∀ component : Component,
    afterTuple? nested (component.text ++ rest) =
      if component.depth ≤ room nested then afterTuple? nested rest else none
  | .named type nullable element => by
    rw [Component.text, List.append_assoc, afterTuple?_chars, afterTuple?_elementMark]
    rfl
  | .tuple type nullable element => by
    rw [Component.text, List.cons_append, List.append_assoc, List.cons_append, Component.depth]
    cases nested with
    | true =>
      -- the search is as deep as it can go
      exact (if_neg (Nat.not_le_of_lt type.depth_pos)).symm
    | false =>
      have hinner := TupleType.afterTuple?_inner true
        (')' :: (elementMark nullable element ++ rest)) type
      have hclose : afterTuple? true (')' :: (elementMark nullable element ++ rest)) =
          afterTuple? false rest := afterTuple?_elementMark nullable element
      rw [hclose] at hinner
      exact hinner

end

/-- What follows a tuple type is found if no more than tuple types without tuple types in them
stand in it, and if it goes on as behind a type. -/
theorem afterTupleType?_inner (type : TupleType) {tail : List Char}
    (htail : followsType (dropNullable tail) = true) :
    afterTupleType? (type.inner ++ ')' :: tail) =
      if type.depth ≤ 2 then some (dropNullable tail) else none := by
  rw [afterTupleType?, type.afterTuple?_inner]
  show ((if type.depth ≤ 2 then some tail else none).map dropNullable).filter followsType = _
  split
  · exact Option.filter_some_pos htail
  · rfl

/-! ## Parameter lists -/

/-- Behind a balanced text and a closing parenthesis nothing is left. -/
theorem afterTuple?_balanced {parameters : List Char}
    (h : BalancedFrom (· == '(') (· == ')') (if nested then 1 else 0) parameters) :
    afterTuple? nested (parameters ++ [')']) = none ∨
      afterTuple? nested (parameters ++ [')']) = some [] := by
  induction parameters generalizing nested with
  | nil =>
    cases nested with
    | true => exact absurd (balancedFrom_nil_iff.1 h) (by simp)
    | false => exact .inr rfl
  | cons c parameters ih =>
    rw [List.cons_append, afterTuple?]
    split
    · next hc =>
      subst hc
      cases nested with
      | true => exact .inl rfl
      | false => exact ih ((balancedFrom_cons_iff rfl).1 h)
    · next hopen =>
      split
      · next hc =>
        subst hc
        cases nested with
        | true => exact ih ((balancedFrom_cons_iff rfl).1 h)
        | false => exact absurd h (not_balancedFrom_zero_cons rfl rfl)
      · next hclose =>
        refine ih ((balancedFrom_cons_iff ?_).1 h)
        simp [hopen, hclose]

theorem afterTupleType?_parameters {parameters : List Char}
    (h : BalancedFrom (· == '(') (· == ')') 0 parameters) :
    afterTupleType? (parameters ++ [')']) = none := by
  have hend : afterTuple? false (parameters ++ [')']) = none ∨
      afterTuple? false (parameters ++ [')']) = some [] := afterTuple?_balanced h
  rcases hend with hnone | hsome
  · rw [afterTupleType?, hnone]
    rfl
  · rw [afterTupleType?, hsome]
    rfl

end

/-! ## Cutting out tuple types -/

section

variable {cs rest : List Char}

theorem removeTupleTypes_append (h : '(' ∉ cs) :
    removeTupleTypes (cs ++ rest) = cs ++ removeTupleTypes rest := by
  induction cs with
  | nil => rfl
  | cons c cs ih =>
    rw [List.mem_cons, not_or] at h
    rw [List.cons_append, removeTupleTypes, if_neg (Ne.symm h.1), ih h.2, List.cons_append]

theorem removeTupleTypes_of_some (h : afterTupleType? cs = some rest) :
    removeTupleTypes ('(' :: cs) = removeTupleTypes rest := by
  rw [removeTupleTypes, if_pos rfl]
  split
  · next hsome => rw [Option.some.inj (h.symm.trans hsome)]
  · next hnone => cases h.symm.trans hnone

theorem removeTupleTypes_of_none (h : afterTupleType? cs = none) :
    removeTupleTypes ('(' :: cs) = '(' :: removeTupleTypes cs := by
  rw [removeTupleTypes, if_pos rfl]
  split
  · next hsome => cases h.symm.trans hsome
  · rfl

theorem hasAssignment_of_not_mem (h : '=' ∉ cs) : hasAssignment cs = false := by
  rw [← Bool.not_eq_true]
  intro hplace
  have hfound : ['='] <:+: cs := by
    refine anyPlace_afterWord?_iff.1 (anyPlace_mono (fun _ rest hequals => ?_) hplace)
    cases rest with
    | nil => simp at hequals
    | cons c rest => simp_all [afterWord?]
  exact h (hfound.subset List.mem_cons_self)

/-- A member with an unmarked header is a method if a parenthesis is left behind the part in front
of the parameter list, and a property otherwise. -/
theorem Unmarked.memberKind_of_signature {header front : List Char} (h : Unmarked header)
    (hsignature : removeTupleTypes header = front ++ rest) (hopen : '(' ∉ front)
    (hequals : '=' ∉ front) (hrest : rest.takeWhile (· != '(') = []) :
    headerKind .typeDeclaration header =
      if rest.contains '(' then .methodDeclaration else .propertyDeclaration := by
  have hfront : (front ++ rest).takeWhile (· != '(') = front := by
    rw [List.takeWhile_append_of_pos, hrest, List.append_nil]
    intro c hc
    exact bne_iff_ne.2 fun heq => hopen (heq ▸ hc)
  have hcontains : (front ++ rest).contains '(' = rest.contains '(' := by
    simp [hopen]
  show Source.memberKind .typeDeclaration header = _
  rw [h.memberKind .typeDeclaration (by decide), hsignature, hfront,
    hasAssignment_of_not_mem hequals, hcontains]
  rfl

end

/-! ## Members with a tuple type -/

/-- The modifier of a public member, and the blank behind it. -/
def modifier : List Char := "public ".toList

/-- The header of a public member with a tuple type. -/
def memberHeader (type : TupleType) (nullable : Bool) (element : Option PlainName)
    (name : PlainName) : List Char :=
  modifier ++ (Component.tuple type nullable element).text ++ ' ' :: name.chars

section

variable (type : TupleType) (nullable : Bool) (element : Option PlainName) (name : PlainName)
  {after : List Char}

theorem unmarked_memberHeader : Unmarked (memberHeader type nullable element name) := by
  have hpublic : Unmarked "public".toList := ⟨by decide, by decide⟩
  have htype := hpublic.append_cons (Component.tuple type nullable element).unmarked
    (rfl : isDivider ' ' = true)
  exact htype.append_cons name.unmarked rfl

theorem not_mem_elementName {c : Char} (hc : isWord c = false) (hblank : c ≠ ' ') :
    c ∉ elementName element := by
  cases element with
  | none => exact List.not_mem_nil
  | some name =>
    rw [elementName, List.mem_cons, not_or]
    exact ⟨hblank, name.not_mem_chars hc⟩

/-- The part of a header in front of its parameter list, the tuple type cut out. -/
def cutHeader (element : Option PlainName) (name : PlainName) : List Char :=
  modifier ++ (elementName element ++ ' ' :: name.chars)

theorem not_mem_cutHeader {c : Char} (hc : isWord c = false) (hblank : c ≠ ' ')
    (hpublic : c ∉ modifier) : c ∉ cutHeader element name := by
  rw [cutHeader, List.mem_append, List.mem_append, List.mem_cons, not_or, not_or, not_or]
  exact ⟨hpublic, not_mem_elementName element hc hblank, hblank, name.not_mem_chars hc⟩

/-- A header, from the opening parenthesis of its tuple type on. -/
theorem memberHeader_append : memberHeader type nullable element name ++ after =
    modifier ++ '(' :: (type.inner ++
      ')' :: (elementMark nullable element ++ ' ' :: (name.chars ++ after))) := by
  simp only [memberHeader, Component.text, List.append_assoc, List.cons_append]

theorem dropNullable_elementMark (cs : List Char) :
    dropNullable (elementMark nullable element ++ ' ' :: cs) =
      elementName element ++ ' ' :: cs := by
  cases nullable with
  | true => rfl
  | false =>
    have hblank : ∀ cs, dropNullable (' ' :: cs) = ' ' :: cs := by
      intro cs
      rw [dropNullable, if_neg (by decide)]
    cases element with
    | none => exact hblank cs
    | some name => exact hblank _

theorem followsType_elementName (hafter : wordFollows after = false) :
    followsType (elementName element ++ ' ' :: (name.chars ++ after)) = true := by
  cases element with
  | none => exact name.followsType hafter
  | some first => exact first.followsType (by rfl)

theorem afterTupleType?_memberHeader (hafter : wordFollows after = false) :
    afterTupleType? (type.inner ++
        ')' :: (elementMark nullable element ++ ' ' :: (name.chars ++ after))) =
      if type.depth ≤ 2 then some (elementName element ++ ' ' :: (name.chars ++ after))
      else none := by
  have hfollows := followsType_elementName element name hafter
  rw [← dropNullable_elementMark nullable] at hfollows
  rw [afterTupleType?_inner type hfollows, dropNullable_elementMark]

/-- A tuple type that is not too deep is cut out of a header, one that is too deep leaves its first
parenthesis. -/
theorem removeTupleTypes_memberHeader (hafter : wordFollows after = false) :
    removeTupleTypes (memberHeader type nullable element name ++ after) =
      if type.depth ≤ 2 then cutHeader element name ++ removeTupleTypes after
      else modifier ++ '(' :: removeTupleTypes (type.inner ++
        ')' :: (elementMark nullable element ++ ' ' :: (name.chars ++ after))) := by
  have htuple := afterTupleType?_memberHeader type nullable element name hafter
  rw [memberHeader_append, removeTupleTypes_append (by decide)]
  split at htuple
  · next hdepth =>
    have hopen : '(' ∉ elementName element ++ ' ' :: name.chars := fun hmem =>
      not_mem_cutHeader (c := '(') element name (by decide) (by decide) (by decide)
        (List.mem_append_right _ hmem)
    rw [removeTupleTypes_of_some htuple, if_pos hdepth, ← List.cons_append, ← List.append_assoc,
      removeTupleTypes_append hopen, cutHeader]
    simp only [List.append_assoc]
  · next hdepth => rw [removeTupleTypes_of_none htuple, if_neg hdepth]

/-- The kind of a member with a tuple type, which `after` follows: a text that begins no word and
that is empty or begins with a parenthesis when its tuple types are cut out. -/
theorem headerKind_memberHeader
    (hunmarked : Unmarked (memberHeader type nullable element name ++ after))
    (hafter : wordFollows after = false)
    (hcut : (removeTupleTypes after).takeWhile (· != '(') = []) :
    headerKind .typeDeclaration (memberHeader type nullable element name ++ after) =
      if type.depth ≤ 2 ∧ (removeTupleTypes after).contains '(' = false then .propertyDeclaration
      else .methodDeclaration := by
  have hsignature := removeTupleTypes_memberHeader type nullable element name hafter
  split at hsignature
  · next hdepth =>
    rw [hunmarked.memberKind_of_signature hsignature
      (not_mem_cutHeader element name (by decide) (by decide) (by decide))
      (not_mem_cutHeader element name (by decide) (by decide) (by decide)) hcut]
    cases (removeTupleTypes after).contains '(' <;> simp [hdepth]
  · next hdepth =>
    rw [hunmarked.memberKind_of_signature hsignature (by decide) (by decide) (by rfl),
      if_pos (by simp), if_neg fun h => hdepth h.1]

/-- A property with a tuple type is taken for a property, whose braces own no block, exactly if the
parentheses of the type go no deeper than two levels; with a balanced parameter list behind its name
the member is a method, however deep they go. -/
theorem headerKind_tuple_member {parameters : List Char}
    (hbalanced : BalancedFrom (· == '(') (· == ')') 0 parameters)
    (hparameters : Unmarked parameters) :
    let header := memberHeader type nullable element name
    headerKind .typeDeclaration header =
        (if type.depth ≤ 2 then .propertyDeclaration else .methodDeclaration) ∧
      ((headerKind .typeDeclaration header).ownsBlock = false ↔ type.depth ≤ 2) ∧
      headerKind .typeDeclaration (header ++ '(' :: (parameters ++ [')'])) =
        .methodDeclaration := by
  intro header
  have hheader : Unmarked header := unmarked_memberHeader type nullable element name
  have hproperty : headerKind .typeDeclaration header =
      if type.depth ≤ 2 then .propertyDeclaration else .methodDeclaration := by
    have hunmarked : Unmarked (header ++ []) := by rwa [List.append_nil]
    have hkind := headerKind_memberHeader type nullable element name hunmarked rfl
      (by simp [removeTupleTypes])
    rw [List.append_nil] at hkind
    simpa [removeTupleTypes] using hkind
  refine ⟨hproperty, ?_, ?_⟩
  · rw [hproperty]
    split
    · next hdepth => exact iff_of_true rfl hdepth
    · next hdepth => exact iff_of_false (by decide) hdepth
  · have hlist : removeTupleTypes ('(' :: (parameters ++ [')'])) =
        '(' :: removeTupleTypes (parameters ++ [')']) :=
      removeTupleTypes_of_none (afterTupleType?_parameters hbalanced)
    have hunmarked : Unmarked (header ++ '(' :: (parameters ++ [')'])) :=
      hheader.append_cons (hparameters.append_cons unmarked_nil rfl) rfl
    rw [headerKind_memberHeader type nullable element name hunmarked (by rfl) (by rw [hlist]; rfl),
      hlist, if_neg]
    simp

end

theorem headerKind_tuple_of_tuple :
    let inner : TupleType := .pair (.letter 'a' (by decide)) (.letter 'b' (by decide))
    let type : TupleType :=
      .pair (.tuple inner true (some (.letter 'c' (by decide)))) (.letter 'd' (by decide))
    let header := memberHeader type true none (.letter 'N' (by decide))
    let parameters := "(a, b) pair".toList
    header = "public ((a, b)? c, d)? N".toList ∧
      BalancedFrom (· == '(') (· == ')') 0 parameters ∧ Unmarked parameters ∧
      headerKind .typeDeclaration header = .propertyDeclaration ∧
      headerKind .typeDeclaration (header ++ '(' :: (parameters ++ [')'])) =
        .methodDeclaration := by
  intro inner type header parameters
  have hbalanced : BalancedFrom (· == '(') (· == ')') 0 parameters := by decide
  have hparameters : Unmarked parameters := ⟨by decide, by decide +kernel⟩
  obtain ⟨hproperty, -, hmethod⟩ :=
    headerKind_tuple_member type true none (.letter 'N' (by decide)) hbalanced hparameters
  have hdepth : type.depth ≤ 2 := by decide
  rw [if_pos hdepth] at hproperty
  exact ⟨by decide +kernel, hbalanced, hparameters, hproperty, hmethod⟩

/-- A property whose type has parentheses on three levels is taken for a method. -/
theorem headerKind_tuple_of_tuple_of_tuple :
    let inner : TupleType := .pair (.letter 'a' (by decide)) (.letter 'b' (by decide))
    let middle : TupleType := .pair (.tuple inner false none) (.letter 'c' (by decide))
    let type : TupleType := .pair (.tuple middle false none) (.letter 'd' (by decide))
    let header := memberHeader type false none (.letter 'N' (by decide))
    header = "public (((a, b), c), d) N".toList ∧
      headerKind .typeDeclaration header = .methodDeclaration := by
  decide +kernel

end RegionScope.Source
