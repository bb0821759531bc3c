import Mathlib.Data.List.TakeWhile
import RegionScope.Text.Blank

/-!
# Trimmed and collapsed texts

A text is trimmed if it neither begins nor ends with a blank (`Trimmed`). Trimming gives a trimmed
text and takes away nothing but the blanks around a trimmed one (`trimmed_trim`,
`trim_of_trimmed`). Collapsing gives a trimmed text too (`trimmed_collapse`); what is collapsed
stays as it is when it is collapsed again, and so does what is left of it behind any front
(`squeeze_of_suffix`).
-/

namespace RegionScope.Text

variable {c : Char} {cs gap back : List Char}

/-- Neither the first nor the last character is a blank. -/
structure Trimmed (cs : List Char) : Prop where
  head : ∀ c ∈ cs.head?, isBlank c = false
  last : ∀ c ∈ cs.getLast?, isBlank c = false

/-! ## Blanks in front -/

theorem skipBlanks_append (hgap : ∀ c ∈ gap, isBlank c = true) (cs : List Char) :
    skipBlanks (gap ++ cs) = skipBlanks cs := List.dropWhile_append_of_pos hgap

theorem skipBlanks_of_head (h : ∀ c ∈ cs.head?, isBlank c = false) : skipBlanks cs = cs := by
  cases cs with
  | nil => rfl
  | cons c cs => exact List.dropWhile_cons_of_neg (by simp [h c rfl])

theorem isBlank_head_skipBlanks (cs : List Char) :
    ∀ c ∈ (skipBlanks cs).head?, isBlank c = false := by
  intro c hc
  have := List.head?_dropWhile_not isBlank cs
  rw [skipBlanks] at hc
  rwa [hc] at this

theorem isBlank_last_of_suffix (hback : back <:+ cs) (h : ∀ c ∈ cs.getLast?, isBlank c = false) :
    ∀ c ∈ back.getLast?, isBlank c = false := by
  obtain ⟨front, rfl⟩ := hback
  intro c hc
  apply h
  rw [List.getLast?_append]
  exact Option.or_eq_some_iff.2 (.inl hc)

/-- Blanks in front of a text are skipped as if nothing were behind it, if its last character is
none. -/
theorem skipBlanks_append_of_last (hne : cs ≠ []) (h : ∀ c ∈ cs.getLast?, isBlank c = false)
    (back : List Char) :
    skipBlanks cs ≠ [] ∧ skipBlanks (cs ++ back) = skipBlanks cs ++ back := by
  have hsome : skipBlanks cs ≠ [] := by
    intro hnil
    have hlast := List.dropWhile_eq_nil_iff.1 hnil _ (List.getLast_mem hne)
    rw [h _ (List.getLast?_eq_some_getLast hne)] at hlast
    cases hlast
  refine ⟨hsome, ?_⟩
  rw [skipBlanks, List.dropWhile_append, if_neg (by simpa [skipBlanks] using hsome)]
  rfl

/-! ## Blanks at the end -/

theorem dropTrailingBlanks_cons (c : Char) (cs : List Char) :
    dropTrailingBlanks (c :: cs) =
      if dropTrailingBlanks cs = [] ∧ isBlank c = true then [] else c :: dropTrailingBlanks cs := by
  rw [dropTrailingBlanks]
  cases dropTrailingBlanks cs with
  | nil => cases isBlank c <;> rfl
  | cons d ds => simp

/-- Only blanks are dropped. -/
theorem exists_eq_dropTrailingBlanks_append (cs : List Char) :
    ∃ gap, cs = dropTrailingBlanks cs ++ gap ∧ ∀ c ∈ gap, isBlank c = true := by
  induction cs with
  | nil => exact ⟨[], rfl, nofun⟩
  | cons c cs ih =>
    obtain ⟨gap, hcs, hgap⟩ := ih
    rw [dropTrailingBlanks_cons]
    split
    · next h =>
      rw [h.1, List.nil_append] at hcs
      exact ⟨c :: gap, by rw [hcs, List.nil_append], List.forall_mem_cons.2 ⟨h.2, hgap⟩⟩
    · exact ⟨gap, by rw [List.cons_append, ← hcs], hgap⟩

theorem isBlank_last_dropTrailingBlanks (cs : List Char) :
    ∀ c ∈ (dropTrailingBlanks cs).getLast?, isBlank c = false := by
  induction cs with
  | nil => exact nofun
  | cons c cs ih =>
    rw [dropTrailingBlanks_cons]
    split
    · exact nofun
    · next h =>
      cases hrest : dropTrailingBlanks cs with
      | nil =>
        intro d hd
        obtain rfl : c = d := Option.some.inj hd
        simpa [hrest] using h
      | cons d ds =>
        rw [List.getLast?_cons_cons, ← hrest]
        exact ih

theorem dropTrailingBlanks_append (hgap : ∀ c ∈ gap, isBlank c = true) (cs : List Char) :
    dropTrailingBlanks (cs ++ gap) = dropTrailingBlanks cs := by
  have hnil : dropTrailingBlanks gap = [] := by
    induction gap with
    | nil => rfl
    | cons c gap ih =>
      obtain ⟨hc, hgap⟩ := List.forall_mem_cons.1 hgap
      rw [dropTrailingBlanks_cons, if_pos ⟨ih hgap, hc⟩]
  induction cs with
  | nil => exact hnil
  | cons c cs ih => rw [List.cons_append, dropTrailingBlanks_cons, dropTrailingBlanks_cons, ih]

/-- What stands in front of a character that is no blank is kept. -/
theorem dropTrailingBlanks_append_cons (hc : isBlank c = false) (cs back : List Char) :
    dropTrailingBlanks (cs ++ c :: back) = cs ++ c :: dropTrailingBlanks back := by
  induction cs with
  | nil => rw [List.nil_append, dropTrailingBlanks_cons, if_neg (by simp [hc]), List.nil_append]
  | cons d cs ih =>
    rw [List.cons_append, dropTrailingBlanks_cons, ih, if_neg (by simp), List.cons_append]

theorem dropTrailingBlanks_of_last (h : ∀ c ∈ cs.getLast?, isBlank c = false) :
    dropTrailingBlanks cs = cs := by
  obtain ⟨gap, hcs, hgap⟩ := exists_eq_dropTrailingBlanks_append cs
  -- a blank that is dropped would be the last character
  cases hlast : gap.getLast? with
  | none =>
    rw [List.getLast?_eq_none_iff.1 hlast, List.append_nil] at hcs
    exact hcs.symm
  | some c =>
    have hblank := hgap c (List.mem_of_getLast? hlast)
    rw [h c (by rw [hcs, List.getLast?_append, hlast]; rfl)] at hblank
    cases hblank

/-! ## Trimming -/

theorem trimmed_trim (cs : List Char) : Trimmed (trim cs) where
  head c hc := by
    obtain ⟨gap, hcs, -⟩ := exists_eq_dropTrailingBlanks_append (skipBlanks cs)
    apply isBlank_head_skipBlanks cs
    rw [hcs, List.head?_append]
    exact Option.or_eq_some_iff.2 (.inl hc)
  last := isBlank_last_dropTrailingBlanks _

/-- The blanks around a trimmed text are what trimming takes away. -/
theorem trim_of_trimmed (h : Trimmed cs) (hgap : ∀ c ∈ gap, isBlank c = true)
    (hback : ∀ c ∈ back, isBlank c = true) : trim (gap ++ (cs ++ back)) = cs := by
  rw [trim, skipBlanks_append hgap]
  cases cs with
  | nil =>
    have hblanks : skipBlanks back = [] := List.dropWhile_eq_nil_iff.2 hback
    rw [List.nil_append, hblanks]
    rfl
  | cons c cs =>
    rw [skipBlanks_of_head (by exact h.head), dropTrailingBlanks_append hback,
      dropTrailingBlanks_of_last h.last]

/-! ## Squeezing -/

theorem squeeze_cons (c : Char) (cs : List Char) :
    squeeze (c :: cs) = squeezeOnto c (squeeze cs) := rfl

theorem squeeze_append (cs back : List Char) :
    squeeze (cs ++ back) = cs.foldr squeezeOnto (squeeze back) := List.foldr_append ..

/-- What a blank in front of a squeezed text comes to: nothing in front of nothing, and otherwise
one space. -/
theorem squeezeOnto_cases (hc : isBlank c = true) (rest : List Char) :
    squeezeOnto c rest = rest ∧ (rest = [] ∨ rest.head? = some ' ') ∨
      squeezeOnto c rest = ' ' :: rest ∧ rest ≠ [] := by
  cases rest with
  | nil => exact .inl ⟨by rw [squeezeOnto, if_pos hc], .inl rfl⟩
  | cons d ds =>
    rw [squeezeOnto, if_pos hc]
    by_cases hd : d = ' '
    · exact .inl ⟨if_pos hd, .inr (congrArg some hd)⟩
    · exact .inr ⟨if_neg hd, by simp⟩

theorem squeezeOnto_of_not_isBlank (hc : isBlank c = false) (rest : List Char) :
    squeezeOnto c rest = c :: rest := by
  rw [squeezeOnto.eq_def, hc]
  rfl

/-- Every blank is squeezed like a space. -/
theorem squeezeOnto_of_isBlank (hc : isBlank c = true) (rest : List Char) :
    squeezeOnto c rest = squeezeOnto ' ' rest := by
  have hspace : isBlank ' ' = true := by decide
  rw [squeezeOnto.eq_def, squeezeOnto.eq_def, if_pos hc, if_pos hspace]

/-- Two blanks in a row are squeezed like one. -/
theorem squeezeOnto_space_idem (rest : List Char) :
    squeezeOnto ' ' (squeezeOnto ' ' rest) = squeezeOnto ' ' rest := by
  have hspace : isBlank ' ' = true := by decide
  rcases squeezeOnto_cases hspace rest with ⟨h, -⟩ | ⟨h, -⟩
  · rw [h, h]
  · rw [h, squeezeOnto, if_pos hspace]
    exact if_pos rfl

/-- A run of blanks is squeezed like one space. -/
theorem squeeze_append_of_gap (hgap : ∀ c ∈ gap, isBlank c = true) (hne : gap ≠ [])
    (back : List Char) : squeeze (gap ++ back) = squeezeOnto ' ' (squeeze back) := by
  induction gap with
  | nil => exact absurd rfl hne
  | cons c gap ih =>
    obtain ⟨hc, hgap⟩ := List.forall_mem_cons.1 hgap
    rw [List.cons_append, squeeze_cons, squeezeOnto_of_isBlank hc]
    cases gap with
    | nil => rfl
    | cons d gap => rw [ih hgap (by simp), squeezeOnto_space_idem]

theorem length_squeeze_le (cs : List Char) : (squeeze cs).length ≤ cs.length := by
  induction cs with
  | nil => exact Nat.le_refl _
  | cons c cs ih =>
    rw [squeeze_cons, List.length_cons]
    cases hc : isBlank c with
    | false =>
      rw [squeezeOnto_of_not_isBlank hc, List.length_cons]
      omega
    | true => rcases squeezeOnto_cases hc (squeeze cs) with ⟨h, -⟩ | ⟨h, -⟩ <;> simp [h] <;> omega

theorem squeeze_squeeze (cs : List Char) : squeeze (squeeze cs) = squeeze cs := by
  induction cs with
  | nil => rfl
  | cons c cs ih =>
    rw [squeeze_cons]
    cases hc : isBlank c with
    | false => rw [squeezeOnto_of_not_isBlank hc, squeeze_cons, ih, squeezeOnto_of_not_isBlank hc]
    | true =>
      rcases squeezeOnto_cases hc (squeeze cs) with ⟨h, -⟩ | ⟨h, -⟩
      · rw [h, ih]
      · rw [h, squeeze_cons, ih, ← squeezeOnto_of_isBlank hc, h]

/-- What is squeezed is so from every place on. -/
theorem squeeze_of_suffix (h : squeeze cs = cs) (hback : back <:+ cs) : squeeze back = back := by
  obtain ⟨front, rfl⟩ := hback
  induction front with
  | nil => exact h
  | cons c front ih =>
    apply ih
    rw [List.cons_append, squeeze_cons] at h
    cases hc : isBlank c with
    | false =>
      rw [squeezeOnto_of_not_isBlank hc] at h
      exact (List.cons.inj h).2
    | true =>
      rcases squeezeOnto_cases hc (squeeze (front ++ back)) with ⟨hdrop, -⟩ | ⟨hspace, -⟩
      · -- a blank that is dropped makes the text shorter
        have hle := length_squeeze_le (front ++ back)
        rw [← hdrop, h, List.length_cons] at hle
        omega
      · rw [hspace] at h
        exact (List.cons.inj h).2

theorem isBlank_last_squeeze (cs : List Char) :
    ∀ c ∈ (squeeze cs).getLast?, isBlank c = false := by
  induction cs with
  | nil => exact nofun
  | cons c cs ih =>
    rw [squeeze_cons]
    cases hc : isBlank c with
    | false =>
      rw [squeezeOnto_of_not_isBlank hc]
      intro d hd
      rw [List.getLast?_cons] at hd
      cases hlast : (squeeze cs).getLast? with
      | none =>
        rw [hlast] at hd
        obtain rfl : c = d := Option.some.inj hd
        exact hc
      | some e =>
        rw [hlast] at hd
        obtain rfl : e = d := Option.some.inj hd
        exact ih e hlast
    | true =>
      rcases squeezeOnto_cases hc (squeeze cs) with ⟨h, -⟩ | ⟨h, hne⟩
      · rwa [h]
      · obtain ⟨d, ds, hds⟩ := List.exists_cons_of_ne_nil hne
        rw [h, hds, List.getLast?_cons_cons, ← hds]
        exact ih

/-! ## Collapsing -/

theorem skipBlanks_squeeze (cs : List Char) : skipBlanks (squeeze cs) = collapse cs := by
  have hspace : isBlank ' ' = true := by decide
  induction cs with
  | nil => rfl
  | cons c cs ih =>
    rw [squeeze_cons, collapse]
    cases hc : isBlank c with
    | false =>
      have hhead : ∀ back : List Char, skipBlanks (c :: back) = c :: back := fun back =>
        skipBlanks_of_head (by simpa using hc)
      rw [squeezeOnto_of_not_isBlank hc, hhead, hhead, squeeze_cons, squeezeOnto_of_not_isBlank hc]
    | true =>
      have htail : skipBlanks (c :: cs) = skipBlanks cs := List.dropWhile_cons_of_pos hc
      rw [htail, ← collapse, ← ih]
      rcases squeezeOnto_cases hc (squeeze cs) with ⟨h, -⟩ | ⟨h, -⟩
      · rw [h]
      · rw [h]
        exact List.dropWhile_cons_of_pos hspace

theorem trimmed_collapse (cs : List Char) : Trimmed (collapse cs) where
  head := skipBlanks_squeeze cs ▸ isBlank_head_skipBlanks _
  last := isBlank_last_squeeze _

theorem collapse_append_of_gap (hgap : ∀ c ∈ gap, isBlank c = true) (cs : List Char) :
    collapse (gap ++ cs) = collapse cs := by
  rw [collapse, skipBlanks_append hgap]
  rfl

/-- A squeezed text that begins with no blank is collapsed. -/
theorem collapse_of_squeeze (h : squeeze cs = cs) (hhead : ∀ c ∈ cs.head?, isBlank c = false) :
    collapse cs = cs := by
  rw [collapse, skipBlanks_of_head hhead, h]

/-- Texts that collapse alike, blanks at their heads included, do so behind every other text. -/
theorem collapse_append {cs' : List Char} (hskip : skipBlanks cs = skipBlanks cs')
    (hsqueeze : squeeze cs = squeeze cs') (front : List Char) :
    collapse (front ++ cs) = collapse (front ++ cs') := by
  -- blanks at the head of the front are dropped, and from its first other character on both
  -- texts are squeezed
  induction front with
  | nil => exact congrArg squeeze hskip
  | cons c front ih =>
    cases hc : isBlank c with
    | true =>
      have hdrop : ∀ rest, collapse (c :: rest) = collapse rest :=
        collapse_append_of_gap (List.forall_mem_singleton.2 hc)
      rw [List.cons_append, List.cons_append, hdrop, hdrop, ih]
    | false =>
      have hkeep : ∀ rest, collapse (c :: rest) = squeeze (c :: rest) := by
        intro rest
        rw [collapse, skipBlanks_of_head (by simpa using hc)]
      rw [List.cons_append, List.cons_append, hkeep, hkeep, ← List.cons_append, ← List.cons_append,
        squeeze_append, squeeze_append, hsqueeze]

end RegionScope.Text
