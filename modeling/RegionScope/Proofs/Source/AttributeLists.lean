import RegionScope.Proofs.Brackets
import RegionScope.Proofs.Text.Trimmed
import RegionScope.Source.Header

/-!
# Attribute lists in front of a header

The normal form of a header is its collapsed text without the attribute lists in front. Whatever
attribute lists are put in front of a header, and whatever blanks its runs of blanks are replaced
by, its normal form stays, and a normal form is its own (`normalHeader_transparent`). No more is
cut off than attribute lists, and none is left.

The search for the end of an attribute list passes exactly the texts whose brackets are closed and
never more than one deep (`FlatBrackets`), and it does not see whether they are collapsed.
-/

namespace RegionScope.Source

open RegionScope.Text RegionScope.Brackets

variable {depth : Nat} {c : Char} {cs inner rest tail : List Char} {nested : Bool}

/-- The brackets of a text are closed in it, with `depth` of them open in front of it, and nowhere
is more than one open. -/
structure FlatBrackets (depth : Nat) (cs : List Char) : Prop where
  balanced : BalancedFrom (· == '[') (· == ']') depth cs
  flat : ∀ front back, cs = front ++ back → depth + excess (· == '[') (· == ']') front ≤ 1

/-- An attribute list and the blanks behind it. -/
structure AttributeList where
  inner : List Char
  brackets : FlatBrackets 0 inner
  gap : List Char
  blank : ∀ c ∈ gap, isBlank c = true

/-- The text of an attribute list. -/
def AttributeList.text (list : AttributeList) : List Char := '[' :: (list.inner ++ ']' :: list.gap)

/-- The text of attribute lists one behind the other. -/
def attributes (lists : List AttributeList) : List Char := lists.flatMap AttributeList.text

/-- Blanks, one or more. -/
structure BlankRun where
  chars : List Char
  blank : ∀ c ∈ chars, isBlank c = true
  nonempty : chars ≠ []

/-! ## Brackets -/

theorem FlatBrackets.depth_le (h : FlatBrackets depth cs) : depth ≤ 1 := by
  have hnil : depth + excess (· == '[') (· == ']') ([] : List Char) ≤ 1 := h.flat [] cs rfl
  simp [excess] at hnil
  omega

theorem flatBrackets_nil_iff : FlatBrackets depth [] ↔ depth = 0 := by
  constructor
  · exact fun h => balancedFrom_nil_iff.1 h.balanced
  · rintro rfl
    refine ⟨balancedFrom_nil_iff.2 rfl, fun front back h => ?_⟩
    rw [(List.append_eq_nil_iff.1 h.symm).1]
    decide

/-- The first character of a text leads from one depth to the next. -/
theorem flatBrackets_cons_iff {next : Nat} (hdepth : depth ≤ 1)
    (hnext : (next : Int) = depth + if c == '[' then 1 else if c == ']' then -1 else 0) :
    FlatBrackets depth (c :: cs) ↔ FlatBrackets next cs := by
  have hexcess : ∀ l, (depth : Int) + excess (· == '[') (· == ']') (c :: l) =
      next + excess (· == '[') (· == ']') l := by
    intro l
    rw [excess_cons, hnext]
    omega
  constructor
  · rintro ⟨hbalanced, hflat⟩
    refine ⟨(balancedFrom_cons_iff hnext).1 hbalanced, fun front back hsplit => ?_⟩
    rw [← hexcess]
    exact hflat (c :: front) back (by rw [hsplit, List.cons_append])
  · rintro ⟨hbalanced, hflat⟩
    refine ⟨(balancedFrom_cons_iff hnext).2 hbalanced, fun front back hsplit => ?_⟩
    cases front with
    | nil =>
      simp [excess]
      omega
    | cons d front =>
      rw [List.cons_append] at hsplit
      obtain ⟨rfl, htail⟩ := List.cons.inj hsplit
      rw [hexcess]
      exact hflat front back htail

theorem FlatBrackets.exists_next (h : FlatBrackets depth (c :: cs)) :
    ∃ next : Nat, (next : Int) = depth + (if c == '[' then 1 else if c == ']' then -1 else 0) ∧
      FlatBrackets next cs := by
  obtain ⟨next, hnext⟩ := h.balanced.exists_next
  exact ⟨next, hnext, (flatBrackets_cons_iff h.depth_le hnext).1 h⟩

/-! ## The end of an attribute list -/

/-- How many inner brackets are open in a search. -/
def openBrackets (nested : Bool) : Nat := if nested then 1 else 0

/-- A character that is no bracket is passed over, squeezed or not. -/
theorem afterAttribute?_squeezeOnto (hopen : c ≠ '[') (hclose : c ≠ ']') :
    afterAttribute? nested (squeezeOnto c cs) = afterAttribute? nested cs := by
  have hpass : ∀ d, d ≠ '[' → d ≠ ']' →
      afterAttribute? nested (d :: cs) = afterAttribute? nested cs := by
    intro d hopen hclose
    rw [afterAttribute?, if_neg hopen, if_neg hclose]
  cases hc : isBlank c with
  | false => rw [squeezeOnto_of_not_isBlank hc, hpass c hopen hclose]
  | true =>
    rcases squeezeOnto_cases hc cs with ⟨h, -⟩ | ⟨h, -⟩
    · rw [h]
    · rw [h, hpass ' ' (by decide) (by decide)]

/-- The search passes the inside of an attribute list that is squeezed. -/
theorem afterAttribute?_foldr (h : FlatBrackets (openBrackets nested) inner) :
    afterAttribute? nested (inner.foldr squeezeOnto (']' :: tail)) = some (skipBlanks tail) := by
  have hopenBlank : isBlank '[' = false := by decide
  have hcloseBlank : isBlank ']' = false := by decide
  induction inner generalizing nested with
  | nil =>
    cases nested with
    | true => exact absurd (flatBrackets_nil_iff.1 h) (by decide)
    | false => rfl
  | cons c inner ih =>
    obtain ⟨next, hnext, hinner⟩ := h.exists_next
    have hdepth := hinner.depth_le
    rw [List.foldr_cons]
    by_cases hopen : c = '['
    · subst hopen
      cases nested with
      | true =>
        simp [openBrackets] at hnext
        omega
      | false =>
        obtain rfl : next = openBrackets true := by simpa [openBrackets] using Int.ofNat.inj hnext
        rw [squeezeOnto_of_not_isBlank hopenBlank]
        exact ih hinner
    · by_cases hclose : c = ']'
      · subst hclose
        cases nested with
        | true =>
          obtain rfl : next = openBrackets false := by simpa [openBrackets] using hnext
          rw [squeezeOnto_of_not_isBlank hcloseBlank]
          exact ih hinner
        | false => simp [openBrackets] at hnext
      · obtain rfl : next = openBrackets nested := by
          simp only [beq_iff_eq, if_neg hopen, if_neg hclose] at hnext
          omega
        rw [afterAttribute?_squeezeOnto hopen hclose]
        exact ih hinner

/-- What the search finds stands behind the inside of an attribute list, a bracket and blanks. -/
theorem exists_of_afterAttribute? (h : afterAttribute? nested cs = some rest) :
    ∃ inner tail, cs = inner ++ ']' :: tail ∧ FlatBrackets (openBrackets nested) inner ∧
      rest = skipBlanks tail := by
  fun_induction afterAttribute? nested cs with
  | case1 => cases h
  | case2 => cases h
  | case3 nested cs hnested ih =>
    obtain ⟨inner, tail, rfl, hinner, hrest⟩ := ih h
    obtain rfl : nested = false := Bool.eq_false_iff.2 hnested
    exact ⟨'[' :: inner, tail, rfl, (flatBrackets_cons_iff (by decide) (by decide)).2 hinner, hrest⟩
  | case4 cs hopen ih =>
    obtain ⟨inner, tail, rfl, hinner, hrest⟩ := ih h
    exact ⟨']' :: inner, tail, rfl, (flatBrackets_cons_iff (by decide) (by decide)).2 hinner, hrest⟩
  | case5 nested cs hnested =>
    obtain rfl : nested = false := Bool.eq_false_iff.2 hnested
    exact ⟨[], cs, rfl, flatBrackets_nil_iff.2 rfl, (Option.some.inj h).symm⟩
  | case6 nested c cs hopen hclose ih =>
    obtain ⟨inner, tail, rfl, hinner, hrest⟩ := ih h
    refine ⟨c :: inner, tail, rfl, (flatBrackets_cons_iff hinner.depth_le ?_).2 hinner, hrest⟩
    simp [hopen, hclose]

/-! ## Cutting off attribute lists -/

theorem dropAttributes_of_some (h : afterAttribute? false cs = some rest) :
    dropAttributes ('[' :: cs) = dropAttributes rest := by
  rw [dropAttributes, if_pos rfl]
  split
  · next hsome => rw [Option.some.inj (h.symm.trans hsome)]
  · next hnone => cases h.symm.trans hnone

theorem dropAttributes_of_none (h : afterAttribute? false cs = none) :
    dropAttributes ('[' :: cs) = '[' :: cs := by
  rw [dropAttributes, if_pos rfl]
  split
  · next hsome => cases h.symm.trans hsome
  · rfl

theorem dropAttributes_of_ne (h : c ≠ '[') : dropAttributes (c :: cs) = c :: cs := by
  rw [dropAttributes, if_neg h]

/-- Attribute lists are what is cut off. -/
theorem exists_attributes_append (cs : List Char) :
    ∃ lists, cs = attributes lists ++ dropAttributes cs := by
  fun_induction dropAttributes cs with
  | case1 => exact ⟨[], rfl⟩
  | case2 cs rest hrest ih =>
    obtain ⟨inner, tail, rfl, hinner, rfl⟩ := exists_of_afterAttribute? hrest
    obtain ⟨lists, hlists⟩ := ih
    have hgap : tail.takeWhile isBlank ++ skipBlanks tail = tail := List.takeWhile_append_dropWhile
    refine ⟨⟨inner, hinner, tail.takeWhile isBlank, fun c hc => List.mem_takeWhile_imp hc⟩ :: lists,
      ?_⟩
    rw [attributes, List.flatMap_cons, List.append_assoc, ← attributes, ← hlists,
      AttributeList.text]
    simp [hgap]
  | case3 => exact ⟨[], rfl⟩
  | case4 => exact ⟨[], rfl⟩

theorem dropAttributes_suffix (cs : List Char) : dropAttributes cs <:+ cs := by
  obtain ⟨lists, hlists⟩ := exists_attributes_append cs
  exact ⟨attributes lists, hlists.symm⟩

theorem dropAttributes_dropAttributes (cs : List Char) :
    dropAttributes (dropAttributes cs) = dropAttributes cs := by
  fun_induction dropAttributes cs with
  | case1 => rw [dropAttributes]
  | case2 cs rest hrest ih => exact ih
  | case3 cs hnone => exact dropAttributes_of_none hnone
  | case4 c cs hc => exact dropAttributes_of_ne hc

/-- No blank is left in front when attribute lists are cut off. -/
theorem isBlank_head_dropAttributes (h : ∀ c ∈ cs.head?, isBlank c = false) :
    ∀ c ∈ (dropAttributes cs).head?, isBlank c = false := by
  fun_induction dropAttributes cs with
  | case1 => exact h
  | case2 cs rest hrest ih =>
    obtain ⟨inner, tail, -, -, rfl⟩ := exists_of_afterAttribute? hrest
    exact ih (isBlank_head_skipBlanks tail)
  | case3 => exact h
  | case4 => exact h

/-! ## Normal forms -/

theorem normalHeader_text_append (list : AttributeList) (header : List Char) :
    normalHeader (list.text ++ header) = normalHeader header := by
  have hopen : isBlank '[' = false := by decide
  have hclose : isBlank ']' = false := by decide
  have hcollapse : collapse (list.text ++ header) =
      '[' :: list.inner.foldr squeezeOnto (']' :: squeeze (list.gap ++ header)) := by
    rw [AttributeList.text, List.cons_append, List.append_assoc, List.cons_append, collapse,
      skipBlanks_of_head (by simpa using hopen), squeeze_cons, squeeze_append, squeeze_cons,
      squeezeOnto_of_not_isBlank hclose, squeezeOnto_of_not_isBlank hopen]
  have hafter : afterAttribute? false
      (list.inner.foldr squeezeOnto (']' :: squeeze (list.gap ++ header))) =
        some (collapse header) := by
    have hbrackets : FlatBrackets (openBrackets false) list.inner := list.brackets
    rw [afterAttribute?_foldr hbrackets, skipBlanks_squeeze, collapse_append_of_gap list.blank]
  rw [normalHeader, hcollapse, dropAttributes_of_some hafter]
  rfl

theorem normalHeader_attributes_append (lists : List AttributeList) (header : List Char) :
    normalHeader (attributes lists ++ header) = normalHeader header := by
  induction lists with
  | nil => rfl
  | cons list lists ih =>
    rw [attributes, List.flatMap_cons, List.append_assoc, normalHeader_text_append]
    exact ih

theorem normalHeader_gap (front back : List Char) (gap gap' : BlankRun) :
    normalHeader (front ++ gap.chars ++ back) = normalHeader (front ++ gap'.chars ++ back) := by
  rw [List.append_assoc, List.append_assoc]
  refine congrArg dropAttributes (collapse_append ?_ ?_ front)
  · rw [skipBlanks_append gap.blank, skipBlanks_append gap'.blank]
  · rw [squeeze_append_of_gap gap.blank gap.nonempty,
      squeeze_append_of_gap gap'.blank gap'.nonempty]

theorem normalHeader_normalHeader (header : List Char) :
    normalHeader (normalHeader header) = normalHeader header := by
  have hsqueeze : squeeze (normalHeader header) = normalHeader header :=
    squeeze_of_suffix (squeeze_squeeze _) (dropAttributes_suffix (collapse header))
  have hhead : ∀ c ∈ (normalHeader header).head?, isBlank c = false :=
    isBlank_head_dropAttributes (trimmed_collapse header).head
  rw [normalHeader.eq_def (normalHeader header), collapse_of_squeeze hsqueeze hhead]
  exact dropAttributes_dropAttributes _

theorem length_normalHeader_le (header : List Char) :
    (normalHeader header).length ≤ header.length :=
  calc (normalHeader header).length
    _ ≤ (collapse header).length := (dropAttributes_suffix _).length_le
    _ ≤ (skipBlanks header).length := length_squeeze_le _
    _ ≤ header.length := (List.dropWhile_suffix isBlank).length_le

/-- A normal form begins with no attribute list. -/
theorem normalHeader_ne (header : List Char) (list : AttributeList) (rest : List Char) :
    normalHeader header ≠ list.text ++ rest := by
  intro heq
  have hrest : list.text ++ rest = normalHeader rest := by
    rw [← heq, ← normalHeader_normalHeader, heq, normalHeader_text_append]
  have hle := length_normalHeader_le rest
  rw [← hrest, AttributeList.text] at hle
  simp at hle
  omega

/-- Attribute lists in front of a header and the choice of its blanks make no difference to its
normal form, and normal forms are their own. The normal form is what is left of the collapsed
header when attribute lists are cut off, and it begins with none. -/
theorem normalHeader_transparent (lists : List AttributeList) (header front back : List Char)
    (gap gap' : BlankRun) :
    normalHeader (attributes lists ++ header) = normalHeader header ∧
      normalHeader (front ++ gap.chars ++ back) = normalHeader (front ++ gap'.chars ++ back) ∧
      normalHeader (normalHeader header) = normalHeader header ∧
      (∃ lists, collapse header = attributes lists ++ normalHeader header) ∧
      ∀ (list : AttributeList) (rest : List Char), normalHeader header ≠ list.text ++ rest :=
  ⟨normalHeader_attributes_append lists header, normalHeader_gap front back gap gap',
    normalHeader_normalHeader header, exists_attributes_append (collapse header),
    normalHeader_ne header⟩

end RegionScope.Source
