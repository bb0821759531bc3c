import RegionScope.Proofs.Source.StatementKeywords

/-!
# Words of a header

What turns the header of a member into something else is a word or an arrow in it. Both are looked
for at every place of the header, and both searches can be cut: a character that is in no word and
in no arrow divides a header into two parts that are searched on their own (`hasWord_append_cons`,
`infix_append_cons_iff`). So a header is free of such words and arrows when its parts are
(`Unmarked.append_cons`), and the kind of a member with such a header rests on its assignment signs
and parentheses alone (`Unmarked.memberKind`).
-/

namespace RegionScope.Source

open RegionScope.Text

/-! ## Places -/

variable {test test' : Option Char → List Char → Bool} {prev : Option Char} {cs ds : List Char}
  {c : Char} {word : String}

theorem anyPlace_mono (himp : ∀ prev cs, test prev cs = true → test' prev cs = true)
    (h : anyPlace test prev cs = true) : anyPlace test' prev cs = true := by
  induction cs generalizing prev with
  | nil => exact himp prev [] h
  | cons c cs ih =>
    rw [anyPlace, Bool.or_eq_true] at h ⊢
    exact h.imp (himp prev _) ih

theorem beforePlace_eq_self (h : anyPlace test prev cs = false) :
    beforePlace test prev cs = cs := by
  induction cs generalizing prev with
  | nil => rfl
  | cons c cs ih =>
    rw [anyPlace, Bool.or_eq_false_iff] at h
    rw [beforePlace, h.1, ih h.2]
    rfl

/-- A test is cut by a character when it reads no further than the character and sees no more in
the character than in the beginning of a text. -/
structure CutBy (c : Char) (test : Option Char → List Char → Bool) : Prop where
  ends : ∀ prev cs ds, test prev (cs ++ c :: ds) = test prev cs
  starts : ∀ cs, test (some c) cs = test none cs

/-- Behind a cut a search goes on as at the beginning of a text. -/
theorem anyPlace_some_of_cutBy (hcut : CutBy c test) :
    anyPlace test (some c) ds = anyPlace test none ds := by
  cases ds <;> simp [anyPlace, hcut.starts]

theorem anyPlace_append_cons (hcut : CutBy c test) :
    anyPlace test prev (cs ++ c :: ds) = (anyPlace test prev cs || anyPlace test none ds) := by
  induction cs generalizing prev with
  | nil =>
    rw [List.nil_append, anyPlace, anyPlace, anyPlace_some_of_cutBy hcut]
    exact congrArg (· || _) (hcut.ends prev [] ds)
  | cons d cs ih =>
    rw [List.cons_append, anyPlace, anyPlace, ih, ← List.cons_append, hcut.ends, Bool.or_assoc]

/-- A last character that adds nothing to what a test sees adds no place. -/
theorem anyPlace_concat (hends : ∀ prev cs, test prev (cs ++ [c]) = test prev cs)
    (hnil : test (some c) [] = false) : anyPlace test prev (cs ++ [c]) = anyPlace test prev cs := by
  induction cs generalizing prev with
  | nil =>
    rw [List.nil_append, anyPlace, anyPlace, anyPlace, hnil, Bool.or_false]
    exact hends prev []
  | cons d cs ih => rw [List.cons_append, anyPlace, anyPlace, ih, ← List.cons_append, hends]

/-- What is in front of a cut, where no place of the part before it meets the test. -/
theorem beforePlace_append_cons (hcut : CutBy c test) (h : anyPlace test prev cs = false) :
    beforePlace test prev (cs ++ c :: ds) = cs ++ c :: beforePlace test (some c) ds := by
  induction cs generalizing prev with
  | nil =>
    have hhere : test prev (c :: ds) = false := (hcut.ends prev [] ds).trans h
    rw [List.nil_append, beforePlace, hhere]
    rfl
  | cons d cs ih =>
    rw [anyPlace, Bool.or_eq_false_iff] at h
    have hhere : test prev (d :: (cs ++ c :: ds)) = false := (hcut.ends prev (d :: cs) ds).trans h.1
    rw [List.cons_append, beforePlace, hhere, ih h.2]
    rfl

/-- A test that is met in a text divided by a character is met from a place of the first part on,
or in the second part. -/
theorem exists_suffix_of_anyPlace (h : anyPlace test prev (cs ++ c :: ds) = true) :
    (∃ prev back, back <:+ cs ∧ test prev (back ++ c :: ds) = true) ∨
      anyPlace test (some c) ds = true := by
  induction cs generalizing prev with
  | nil =>
    rw [List.nil_append, anyPlace, Bool.or_eq_true] at h
    exact h.imp_left fun hhere => ⟨prev, [], List.suffix_rfl, hhere⟩
  | cons d cs ih =>
    rw [List.cons_append, anyPlace, Bool.or_eq_true] at h
    rcases h with hhere | htail
    · exact .inl ⟨prev, d :: cs, List.suffix_rfl, hhere⟩
    · refine (ih htail).imp_left ?_
      rintro ⟨prev, back, hback, hplace⟩
      exact ⟨prev, back, hback.trans (List.suffix_cons d cs), hplace⟩

theorem afterWord?_append_cons {letters : List Char} (hc : c ∉ letters) :
    afterWord? letters (cs ++ c :: ds) = (afterWord? letters cs).map (· ++ c :: ds) := by
  induction letters generalizing cs with
  | nil => rfl
  | cons l letters ih =>
    rw [List.mem_cons, not_or] at hc
    cases cs with
    | nil => exact if_neg (Ne.symm hc.1)
    | cons d cs =>
      rw [List.cons_append, afterWord?, afterWord?]
      split
      · exact ih hc.2
      · rfl

/-! ## Words -/

theorem cutBy_hasWord (hword : word.toList.all isWord = true) (hc : isWord c = false) :
    CutBy c (wordThen word fun rest => !wordFollows rest) where
  ends prev cs ds := by
    have hmem : c ∉ word.toList := by
      intro hmem
      rw [List.all_eq_true.1 hword c hmem] at hc
      cases hc
    rw [wordThen, wordThen, afterWord?_append_cons hmem]
    cases afterWord? word.toList cs with
    | none => rfl
    | some rest => cases rest <;> simp [wordFollows, hc]
  starts cs := by simp [wordThen, hc]

/-- A character of no word divides a text into two that are searched for a word on their own. -/
theorem hasWord_append_cons (hword : word.toList.all isWord = true) (hc : isWord c = false) :
    hasWord word (cs ++ c :: ds) = (hasWord word cs || hasWord word ds) :=
  anyPlace_append_cons (cutBy_hasWord hword hc)

/-- No word begins inside of a run of word characters. -/
theorem anyPlace_wordThen_of_run {rest : List Char → Bool} (hprev : prev.any isWord = true)
    (hrun : ∀ c ∈ cs, isWord c = true) : anyPlace (wordThen word rest) prev cs = false := by
  induction cs generalizing prev with
  | nil => simp [anyPlace, wordThen, hprev]
  | cons c cs ih =>
    have htail : anyPlace (wordThen word rest) (some c) cs = false :=
      ih (hrun c List.mem_cons_self) fun d hd => hrun d (List.mem_cons_of_mem c hd)
    rw [anyPlace, htail, wordThen, hprev]
    rfl

/-- A run of word characters holds no word but itself. -/
theorem hasWord_of_run (hrun : ∀ c ∈ cs, isWord c = true) (hne : cs ≠ word.toList) :
    hasWord word cs = false := by
  have hhere : wordThen word (fun rest => !wordFollows rest) none cs = false := by
    cases hafter : afterWord? word.toList cs with
    | none => simp [wordThen, hafter]
    | some rest =>
      obtain rfl := afterWord?_eq_some_iff.1 hafter
      cases rest with
      | nil => exact absurd (List.append_nil _) hne
      | cons c rest => simp [wordThen, hafter, wordFollows, hrun c (by simp)]
  cases cs with
  | nil => exact hhere
  | cons c cs =>
    have htail : anyPlace (wordThen word fun rest => !wordFollows rest) (some c) cs = false :=
      anyPlace_wordThen_of_run (hrun c List.mem_cons_self) fun d hd =>
        hrun d (List.mem_cons_of_mem c hd)
    rw [hasWord, anyPlace, hhere, htail]
    rfl

/-! ## Blanks and words -/

/-- No blank is a word character. -/
theorem isWord_of_isBlank (h : isBlank c = true) : isWord c = false := by
  have hall : ∀ range ∈ blankRanges, ∀ k < range.2 - range.1 + 1,
      isWord (Char.ofNat (range.1 + k)) = false := by decide +kernel
  obtain ⟨range, hrange, hfirst, hlast⟩ := (inRanges_iff _ _).1 h
  have hk := hall range hrange (c.toNat - range.1) (by omega)
  rwa [Nat.add_sub_cancel' hfirst, Char.ofNat_toNat] at hk

/-- No word character follows where blanks and then the end or no word character follow. -/
theorem wordFollows_of_skipBlanks (h : wordFollows (skipBlanks cs) = false) :
    wordFollows cs = false := by
  cases cs with
  | nil => rfl
  | cons c cs =>
    cases hc : isBlank c with
    | true => exact isWord_of_isBlank hc
    | false => rwa [skipBlanks, List.dropWhile_cons_of_neg (by simp [hc])] at h

/-- A word with something behind it that begins with no word character is a whole word. -/
theorem anyPlace_hasWord {accepts : List Char → Bool}
    (haccepts : ∀ rest, accepts rest = true → wordFollows rest = false)
    (h : anyPlace (wordThen word accepts) prev cs = true) :
    anyPlace (wordThen word fun rest => !wordFollows rest) prev cs = true := by
  refine anyPlace_mono (fun prev cs hplace => ?_) h
  rw [wordThen, Bool.and_eq_true, Option.any_eq_true] at hplace ⊢
  obtain ⟨hprev, rest, hrest, hrestAccepts⟩ := hplace
  exact ⟨hprev, rest, hrest, by rw [haccepts rest hrestAccepts]; rfl⟩

theorem hasWord_of_anyPlace {accepts : List Char → Bool}
    (haccepts : ∀ rest, accepts rest = true → wordFollows rest = false)
    (h : anyPlace (wordThen word accepts) none cs = true) : hasWord word cs = true :=
  anyPlace_hasWord haccepts h

theorem hasWord_of_hasDeclaration (h : hasDeclaration word cs = true) : hasWord word cs = true := by
  refine hasWord_of_anyPlace (fun rest haccepts => ?_) h
  cases rest with
  | nil => rfl
  | cons c rest => exact isWord_of_isBlank (Bool.and_eq_true_iff.1 haccepts).1

/-- No word character follows `delegate` where it ends a lambda's header: behind blanks there is the
end of the text, or a parenthesis opens. -/
theorem wordFollows_of_endsDelegate (rest : List Char)
    (h : ((skipBlanks rest).isEmpty || isFlatParameterList (skipBlanks rest)) = true) :
    wordFollows rest = false := by
  apply wordFollows_of_skipBlanks
  cases hrest : skipBlanks rest with
  | nil => rfl
  | cons c rest =>
    rw [hrest, List.isEmpty_cons, Bool.false_or, isFlatParameterList, Bool.and_eq_true,
      beq_iff_eq] at h
    rw [h.1]
    rfl

/-! ## Arrows -/

theorem anyPlace_afterWord?_iff {letters : List Char} :
    anyPlace (fun _ cs => (afterWord? letters cs).isSome) prev cs = true ↔ letters <:+: cs := by
  have hhere : ∀ cs, (afterWord? letters cs).isSome = true ↔ letters <+: cs := by
    intro cs
    rw [Option.isSome_iff_exists]
    exact exists_congr fun rest => afterWord?_eq_some_iff.trans eq_comm
  induction cs generalizing prev with
  | nil => rw [anyPlace, hhere, List.prefix_nil, List.infix_nil]
  | cons c cs ih =>
    rw [anyPlace, Bool.or_eq_true, List.infix_cons_iff]
    exact or_congr (hhere _) ih

/-- A character of no arrow divides a text into two that are searched for one on their own. -/
theorem infix_append_cons_iff {letters : List Char} (hc : c ∉ letters) :
    letters <:+: cs ++ c :: ds ↔ letters <:+: cs ∨ letters <:+: ds := by
  have hcut : CutBy c fun _ cs => (afterWord? letters cs).isSome :=
    ⟨fun _ cs ds => by rw [afterWord?_append_cons hc, Option.isSome_map], fun _ => rfl⟩
  have hsearch : ∀ cs, anyPlace (fun _ cs => (afterWord? letters cs).isSome) none cs = true ↔
      letters <:+: cs := fun _ => anyPlace_afterWord?_iff
  rw [← hsearch, anyPlace_append_cons hcut, Bool.or_eq_true, hsearch, hsearch]

/-! ## Unmarked headers -/

/-- The words that make the header of a member one of another kind, or divide it. -/
def reservedWords : List String := "where" :: "delegate" :: "namespace" :: typeKeywords

/-- A text without reserved words and arrows. -/
structure Unmarked (cs : List Char) : Prop where
  words : ∀ word ∈ reservedWords, hasWord word cs = false
  arrow : ¬ ['=', '>'] <:+: cs

theorem all_isWord_of_mem_reservedWords (h : word ∈ reservedWords) :
    word.toList.all isWord = true := by
  have hall : ∀ word ∈ reservedWords, word.toList.all isWord = true := by decide
  exact hall word h

/-- Whether a character is in no word and in no arrow. -/
def isDivider (c : Char) : Bool := !(isWord c || ['=', '>'].contains c)

/-- Two unmarked texts and a divider between them are unmarked. -/
theorem Unmarked.append_cons (hcs : Unmarked cs) (hds : Unmarked ds) (hc : isDivider c = true) :
    Unmarked (cs ++ c :: ds) := by
  rw [isDivider, Bool.not_eq_true', Bool.or_eq_false_iff, List.contains_eq_mem,
    decide_eq_false_iff_not] at hc
  obtain ⟨hword, harrow⟩ := hc
  constructor
  · intro word hmem
    rw [hasWord_append_cons (all_isWord_of_mem_reservedWords hmem) hword, hcs.words word hmem,
      hds.words word hmem]
    rfl
  · rw [infix_append_cons_iff harrow]
    exact fun h => h.elim hcs.arrow hds.arrow

theorem unmarked_nil : Unmarked [] := ⟨by decide, by decide⟩

theorem Unmarked.cons (hcs : Unmarked cs) (hc : isDivider c = true) : Unmarked (c :: cs) :=
  unmarked_nil.append_cons hcs hc

/-- A run of word characters is unmarked unless it is a reserved word. -/
theorem unmarked_of_run (hrun : ∀ c ∈ cs, isWord c = true)
    (hcs : ∀ word ∈ reservedWords, cs ≠ word.toList) : Unmarked cs where
  words word hword := hasWord_of_run hrun (hcs word hword)
  arrow h := by
    have hequals := hrun '=' (h.subset (by simp))
    exact absurd hequals (by decide)

section

variable {header : List Char} (h : Unmarked header)

include h

theorem Unmarked.isLambda : isLambda header = false := by
  rw [Source.isLambda, Bool.or_eq_false_iff, ← Bool.not_eq_true, ← Bool.not_eq_true]
  constructor
  · intro hplace
    refine h.arrow (anyPlace_afterWord?_iff.1 (anyPlace_mono (fun _ cs hend => ?_) hplace))
    obtain ⟨rest, hrest, -⟩ := (Option.any_eq_true _ _).1 hend
    exact Option.isSome_of_eq_some hrest
  · intro hplace
    have hdelegate := h.words "delegate" (by decide)
    exact Bool.eq_false_iff.1 hdelegate (hasWord_of_anyPlace wordFollows_of_endsDelegate hplace)

theorem Unmarked.hasDeclaration (hword : word ∈ reservedWords) :
    hasDeclaration word header = false := by
  rw [← Bool.not_eq_true]
  exact fun hplace => Bool.eq_false_iff.1 (h.words word hword) (hasWord_of_hasDeclaration hplace)

/-- The kind of a member with an unmarked header rests on what is left when its tuple types are
cut out. -/
theorem Unmarked.memberKind (context : Kind) (hcontext : context ≠ .propertyDeclaration) :
    memberKind context header =
      if hasAssignment ((removeTupleTypes header).takeWhile (· != '(')) then .initializer
      else if (removeTupleTypes header).contains '(' then .methodDeclaration
      else .propertyDeclaration := by
  have hbefore : beforeWord "where" header = header :=
    beforePlace_eq_self (h.words "where" (by decide))
  have htypes : typeKeywords.any (Text.hasDeclaration · (beforeWord "where" header)) = false := by
    rw [hbefore, List.any_eq_false]
    intro word hword
    rw [h.hasDeclaration (by simp [reservedWords, hword])]
    decide
  have harrow : ¬ anyPlace (fun _ cs => (afterWord? ['=', '>'] cs).isSome) none header = true :=
    fun hplace => h.arrow (anyPlace_afterWord?_iff.1 hplace)
  have hnamespace : Text.hasDeclaration "namespace" header = false := h.hasDeclaration (by decide)
  rw [Source.memberKind, if_neg fun hproperty => hcontext hproperty.1, hnamespace, htypes,
    h.isLambda, if_neg harrow]
  rfl

end

end RegionScope.Source
