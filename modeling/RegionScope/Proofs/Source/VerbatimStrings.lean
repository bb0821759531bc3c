import RegionScope.Proofs.Source.LiteralEnds
import RegionScope.Proofs.Source.NestedLiterals

/-!
# Verbatim strings

A content is written as a verbatim string with every quote twice. The scan passes over doubled
quotes, so it ends behind the closing one, unless the content begins with a quote: then three
quotes stand behind the mark at least, and the scan takes them for the fence of a raw string, which
ends with the next run of as many quotes.

`stringExtent?_verbatim_iff` says for every content and every text behind it whether the scan ends
where the string does.
-/

namespace RegionScope.Source

variable {cs post : List Char} {n : Nat}

/-- A text with every quote written twice. -/
def doubleQuotes (cs : List Char) : List Char :=
  cs.flatMap fun c => if c = '"' then ['"', '"'] else [c]

/-- The verbatim string of a content. -/
def verbatimString (content : List Char) : List Char :=
  '@' :: '"' :: (doubleQuotes content ++ ['"'])

/-- A run of quotes. -/
def quotes (n : Nat) : List Char := List.replicate n '"'

/-! ## Runs of quotes -/

theorem quotes_succ (n : Nat) : quotes (n + 1) = '"' :: quotes n := rfl

theorem quotes_add (m n : Nat) : quotes (m + n) = quotes m ++ quotes n :=
  List.replicate_add m n '"'

theorem length_quotes (n : Nat) : (quotes n).length = n := List.length_replicate

theorem reverse_quotes (n : Nat) : (quotes n).reverse = quotes n := List.reverse_replicate

/-- A text begins with the runs of quotes that are no longer than its first one. -/
theorem quotes_prefix_iff : quotes n <+: cs ↔ n ≤ leadingQuotes cs := by
  induction cs generalizing n with
  | nil =>
    rw [List.prefix_nil, ← List.length_eq_zero_iff, length_quotes]
    exact Nat.le_zero.symm
  | cons c cs ih =>
    cases n with
    | zero => exact iff_of_true List.nil_prefix (Nat.zero_le _)
    | succ n =>
      rw [quotes_succ, List.cons_prefix_cons, ih]
      by_cases hc : c = '"'
      · subst hc
        have hrun : leadingQuotes ('"' :: cs) = leadingQuotes cs + 1 := rfl
        rw [hrun, Nat.add_le_add_iff_right]
        exact and_iff_right rfl
      · have hrun : leadingQuotes (c :: cs) = 0 := by simp [leadingQuotes, hc]
        rw [hrun]
        exact iff_of_false (fun h => hc h.1.symm) (Nat.not_succ_le_zero n)

theorem leadingQuotes_quotes_append (n : Nat) (cs : List Char) :
    leadingQuotes (quotes n ++ cs) = n + leadingQuotes cs := by
  induction n with
  | zero => rw [Nat.zero_add]; rfl
  | succ n ih =>
    have hrun : leadingQuotes ('"' :: (quotes n ++ cs)) = leadingQuotes (quotes n ++ cs) + 1 := rfl
    rw [quotes_succ, List.cons_append, hrun, ih]
    omega

theorem leadingQuotes_eq_zero (h : cs.head? ≠ some '"') : leadingQuotes cs = 0 := by
  cases cs with
  | nil => rfl
  | cons c cs =>
    have hc : ¬ (c == '"') = true := by simpa using h
    have hnone : (c :: cs).takeWhile (· == '"') = [] := List.takeWhile_cons_of_neg hc
    rw [leadingQuotes, hnone, List.length_nil]

/-- What follows the first run of quotes of a text. -/
def behindQuotes (cs : List Char) : List Char := cs.dropWhile (· == '"')

theorem quotes_append_behindQuotes (cs : List Char) :
    quotes (leadingQuotes cs) ++ behindQuotes cs = cs := by
  have hrun : cs.takeWhile (· == '"') = quotes (leadingQuotes cs) := by
    refine List.eq_replicate_iff.2 ⟨rfl, fun c hc => ?_⟩
    exact beq_iff_eq.1 (List.all_eq_true.1 List.all_takeWhile c hc)
  rw [behindQuotes, ← hrun]
  exact List.takeWhile_append_dropWhile

theorem head?_behindQuotes (cs : List Char) : (behindQuotes cs).head? ≠ some '"' := by
  intro h
  have hnot := List.head?_dropWhile_not (· == '"') cs
  rw [behindQuotes] at h
  rw [h] at hnot
  exact absurd hnot (by decide)

/-! ## Doubled quotes -/

theorem doubleQuotes_append (cs ds : List Char) :
    doubleQuotes (cs ++ ds) = doubleQuotes cs ++ doubleQuotes ds := List.flatMap_append

theorem doubleQuotes_quote_cons (cs : List Char) :
    doubleQuotes ('"' :: cs) = '"' :: '"' :: doubleQuotes cs := rfl

theorem doubleQuotes_cons_of_ne {c : Char} (hc : c ≠ '"') (cs : List Char) :
    doubleQuotes (c :: cs) = c :: doubleQuotes cs := by
  rw [doubleQuotes, List.flatMap_cons, if_neg hc]
  rfl

theorem doubleQuotes_quotes (n : Nat) : doubleQuotes (quotes n) = quotes (2 * n) := by
  induction n with
  | zero => rfl
  | succ n ih => rw [quotes_succ, doubleQuotes_quote_cons, ih]; rfl

theorem reverse_doubleQuotes (cs : List Char) :
    (doubleQuotes cs).reverse = doubleQuotes cs.reverse := by
  rw [doubleQuotes, List.reverse_flatMap, doubleQuotes]
  congr 1
  funext c
  by_cases hc : c = '"'
  · simp [hc]
  · simp [hc]

theorem leadingQuotes_doubleQuotes (cs : List Char) :
    leadingQuotes (doubleQuotes cs) = 2 * leadingQuotes cs := by
  induction cs with
  | nil => rfl
  | cons c cs ih =>
    by_cases hc : c = '"'
    · subst hc
      have hrun : leadingQuotes ('"' :: cs) = leadingQuotes cs + 1 := rfl
      have hdouble : leadingQuotes ('"' :: '"' :: doubleQuotes cs) =
        leadingQuotes (doubleQuotes cs) + 2 := rfl
      rw [doubleQuotes_quote_cons, hdouble, hrun, ih]
      omega
    · rw [doubleQuotes_cons_of_ne hc, leadingQuotes_eq_zero (by simpa using hc),
        leadingQuotes_eq_zero (by simpa using hc)]

theorem quotes_prefix_of_doubleQuotes (h : quotes (2 * n + 1) <+: doubleQuotes cs) :
    quotes (n + 1) <+: cs := by
  rw [quotes_prefix_iff, leadingQuotes_doubleQuotes] at h
  rw [quotes_prefix_iff]
  omega

/-- A run of quotes in a doubled text comes from a run in the text. -/
theorem quotes_infix_of_doubleQuotes (h : quotes (2 * n + 1) <:+: doubleQuotes cs) :
    quotes (n + 1) <:+: cs := by
  induction cs with
  | nil =>
    have hnil : quotes (2 * n + 1) = [] := List.infix_nil.1 h
    rw [quotes_succ] at hnil
    cases hnil
  | cons c cs ih =>
    by_cases hc : c = '"'
    · subst hc
      rw [doubleQuotes_quote_cons, List.infix_cons_iff, List.infix_cons_iff] at h
      rcases h with hfirst | hsecond | hlater
      · rw [← doubleQuotes_quote_cons] at hfirst
        exact (quotes_prefix_of_doubleQuotes hfirst).isInfix
      · -- the run begins between the two quotes, so it can be taken one longer
        have hlonger : quotes (2 * n + 1) <+: doubleQuotes ('"' :: cs) := by
          rw [quotes_prefix_iff] at hsecond ⊢
          rw [doubleQuotes_quote_cons]
          have hrun : leadingQuotes ('"' :: '"' :: doubleQuotes cs) =
            leadingQuotes ('"' :: doubleQuotes cs) + 1 := rfl
          omega
        exact (quotes_prefix_of_doubleQuotes hlonger).isInfix
      · exact List.infix_cons_iff.2 (.inr (ih hlater))
    · rw [doubleQuotes_cons_of_ne hc, List.infix_cons_iff] at h
      rcases h with hfirst | hlater
      · rw [quotes_succ, List.cons_prefix_cons] at hfirst
        exact absurd hfirst.1.symm hc
      · exact List.infix_cons_iff.2 (.inr (ih hlater))

/-- The quotes that a doubled text ends with come from those that the text ends with. -/
theorem quotes_suffix_of_doubleQuotes (h : quotes (2 * n) <:+ doubleQuotes cs) :
    quotes n <:+ cs := by
  rw [← List.reverse_prefix, reverse_quotes, reverse_doubleQuotes, quotes_prefix_iff,
    leadingQuotes_doubleQuotes] at h
  rw [← List.reverse_prefix, reverse_quotes, quotes_prefix_iff]
  omega

/-! ## Fences -/

/-- A fence is found no later than where one stands. -/
theorem fenceTail_le_of_quotes (n : Nat) (before behind : List Char) :
    fenceTail n (before ++ quotes n ++ behind) ≤ before.length + n := by
  induction before with
  | nil =>
    rw [List.nil_append, List.length_nil, Nat.zero_add]
    cases hcs : quotes n ++ behind with
    | nil => exact Nat.zero_le n
    | cons c cs =>
      have hprefix : quotes n <+: c :: cs := hcs ▸ List.prefix_append _ _
      have hfence : (List.replicate n '"').isPrefixOf (c :: cs) = true :=
        List.isPrefixOf_iff_prefix.2 hprefix
      rw [fenceTail, if_pos hfence]
  | cons c before ih =>
    rw [List.cons_append, List.cons_append, fenceTail, List.length_cons]
    split
    · omega
    · omega

/-- What is taken ends with a fence, or is the whole text. -/
theorem quotes_suffix_take_fenceTail (n : Nat) (cs : List Char) :
    quotes n <:+ cs.take (fenceTail n cs) ∨ fenceTail n cs = cs.length := by
  induction cs with
  | nil => exact .inr rfl
  | cons c cs ih =>
    rw [fenceTail]
    split
    · next hfence =>
      obtain ⟨rest, hrest⟩ := List.isPrefixOf_iff_prefix.1 hfence
      left
      rw [← hrest, List.take_left' List.length_replicate]
      exact List.suffix_refl _
    · rcases ih with hfound | hend
      · left
        rw [Nat.add_comm, List.take_succ_cons]
        exact hfound.trans (List.suffix_cons c _)
      · right
        rw [hend, List.length_cons, Nat.add_comm]

theorem fenceTail_pos (hn : 0 < n) (hcs : cs ≠ []) : 0 < fenceTail n cs := by
  cases cs with
  | nil => exact absurd rfl hcs
  | cons c cs =>
    rw [fenceTail]
    split <;> omega

/-- The closing quote of a verbatim string completes a fence of `2 * n + 1` quotes, and is in none
before, if no run of more than `n` quotes stands in the content and the content ends with `n` of
them. Where nothing stands behind the string it may end with fewer. -/
theorem fenceTail_doubleQuotes_iff (n : Nat) (cs post : List Char) :
    fenceTail (2 * n + 1) (doubleQuotes cs ++ '"' :: post) = (doubleQuotes cs).length + 1 ↔
      ¬ quotes (n + 1) <:+: cs ∧ (post = [] ∨ quotes n <:+ cs) := by
  have hclosing : quotes (2 * n + 1) = quotes (2 * n) ++ ['"'] := quotes_add (2 * n) 1
  have hlength : (doubleQuotes cs ++ '"' :: post).length =
      (doubleQuotes cs).length + 1 + post.length := by
    rw [List.length_append, List.length_cons]
    omega
  constructor
  · intro h
    constructor
    · -- a longer run would be the fence, or hold it
      rintro ⟨before, behind, rfl⟩
      have hlonger : quotes (2 * (n + 1)) = quotes (2 * n + 1) ++ ['"'] := quotes_add (2 * n + 1) 1
      have hle := fenceTail_le_of_quotes (2 * n + 1) (doubleQuotes before)
        ('"' :: (doubleQuotes behind ++ '"' :: post))
      rw [doubleQuotes_append, doubleQuotes_append, doubleQuotes_quotes, hlonger] at h
      simp only [List.append_assoc, List.cons_append, List.nil_append, List.length_append,
        List.length_cons, length_quotes] at h hle
      omega
    · rcases quotes_suffix_take_fenceTail (2 * n + 1) (doubleQuotes cs ++ '"' :: post) with
        hfound | hend
      · right
        rw [h, List.take_length_add_append, List.take_succ_cons, List.take_zero, hclosing] at hfound
        obtain ⟨before, hbefore⟩ := hfound
        rw [← List.append_assoc] at hbefore
        exact quotes_suffix_of_doubleQuotes ⟨before, List.append_cancel_right hbefore⟩
      · left
        exact List.length_eq_zero_iff.1 (by omega)
  · rintro ⟨hnone, hend⟩
    apply Nat.le_antisymm
    · rcases hend with rfl | ⟨before, rfl⟩
      · have hle := fenceTail_le (2 * n + 1) (doubleQuotes cs ++ ['"'])
        rwa [hlength] at hle
      · have hle := fenceTail_le_of_quotes (2 * n + 1) (doubleQuotes before) post
        rw [hclosing] at hle
        rw [doubleQuotes_append, doubleQuotes_quotes]
        simp only [List.append_assoc, List.cons_append, List.nil_append, List.length_append,
          length_quotes] at hle ⊢
        omega
    · -- a fence that ends before the closing quote comes from a longer run in the content
      by_contra hlt
      rcases quotes_suffix_take_fenceTail (2 * n + 1) (doubleQuotes cs ++ '"' :: post) with
        hfound | hwhole
      · rw [List.take_append_of_le_length (by omega)] at hfound
        exact hnone (quotes_infix_of_doubleQuotes
          (hfound.isInfix.trans (List.take_prefix _ _).isInfix))
      · omega

/-! ## Verbatim strings -/

theorem stringTail_doubleQuotes (hpost : post.head? ≠ some '"') (cs : List Char) :
    stringTail ⟨false, true⟩ 0 (doubleQuotes cs ++ '"' :: post) =
      (doubleQuotes cs).length + 1 := by
  induction cs with
  | nil =>
    have hmove : stringMove ⟨false, true⟩ 0 '"' post = (1, none) := by
      simp [stringMove, hpost]
    exact stringTail_of_last_move hmove
  | cons c cs ih =>
    by_cases hc : c = '"'
    · subst hc
      have hmove : stringMove ⟨false, true⟩ 0 '"' ('"' :: (doubleQuotes cs ++ '"' :: post)) =
        (1 + 1, some 0) := rfl
      rw [doubleQuotes_quote_cons, List.cons_append, List.cons_append, stringTail_of_move hmove,
        List.drop_succ_cons, List.drop_zero, ih, List.length_cons, List.length_cons]
      omega
    · have hmove : stringMove ⟨false, true⟩ 0 c (doubleQuotes cs ++ '"' :: post) =
          (0 + 1, some 0) := by
        simp [stringMove, hc]
      rw [doubleQuotes_cons_of_ne hc, List.cons_append, stringTail_of_move hmove, List.drop_zero,
        ih, List.length_cons]
      omega

theorem length_verbatimString (content : List Char) :
    (verbatimString content).length = (doubleQuotes content).length + 3 := by
  simp [verbatimString]

theorem stringExtent?_verbatimString (content post : List Char) :
    stringExtent? (verbatimString content ++ post) =
      some (1 + quotedExtent ⟨false, true⟩ ('"' :: (doubleQuotes content ++ '"' :: post))) := by
  rw [verbatimString, List.cons_append, List.cons_append, List.append_assoc, List.singleton_append]
  rfl

/-- A content that does not begin with a quote is scanned as what it is. -/
theorem quotedExtent_of_plain {content : List Char} (hcontent : content.head? ≠ some '"')
    (hpost : post.head? ≠ some '"') :
    quotedExtent ⟨false, true⟩ ('"' :: (doubleQuotes content ++ '"' :: post)) =
      (doubleQuotes content).length + 2 := by
  have hbody : (doubleQuotes content).head? ≠ some '"' := by
    cases content with
    | nil => nofun
    | cons c content =>
      have hc : c ≠ '"' := fun h => hcontent (congrArg some h)
      rw [doubleQuotes_cons_of_ne hc]
      exact hcontent
  rw [quotedExtent, startsRaw_eq_false hbody hpost, if_neg Bool.false_ne_true, List.drop_succ_cons,
    List.drop_zero, stringTail_doubleQuotes hpost]
  omega

/-- A fence of quotes at the head of a text is searched for behind it. -/
theorem quotedExtent_of_fence (style : StringStyle) (hn : 3 ≤ n) (hcs : cs.head? ≠ some '"') :
    quotedExtent style (quotes n ++ cs) = n + fenceTail n cs := by
  have hrun : leadingQuotes (quotes n ++ cs) = n := by
    rw [leadingQuotes_quotes_append, leadingQuotes_eq_zero hcs, Nat.add_zero]
  have hdrop : (quotes n ++ cs).drop n = cs := List.drop_left' (length_quotes n)
  have hraw : startsRaw (quotes n ++ cs) = true := decide_eq_true (by rwa [hrun])
  rw [quotedExtent, if_pos hraw, rawExtent, hrun, hdrop]

/-- A content that begins with quotes is scanned as a raw string. -/
theorem quotedExtent_of_quotes {behind : List Char} (hn : 0 < n) (hbehind : behind.head? ≠ some '"')
    (hpost : post.head? ≠ some '"') :
    quotedExtent ⟨false, true⟩ ('"' :: (doubleQuotes (quotes n ++ behind) ++ '"' :: post)) =
        (doubleQuotes (quotes n ++ behind)).length + 2 ↔
      ¬ quotes (n + 1) <:+: behind ∧ (post = [] ∨ quotes n <:+ behind) := by
  rw [doubleQuotes_append, doubleQuotes_quotes, List.length_append, length_quotes]
  cases behind with
  | nil =>
    -- the closing quote belongs to the fence as well
    have hsplit : '"' :: (quotes (2 * n) ++ doubleQuotes [] ++ '"' :: post) =
        quotes (2 * n + 2) ++ post := by
      rw [quotes_succ, quotes_add (2 * n) 1]
      simp [doubleQuotes, quotes]
    have hnosuffix : ¬ quotes n <:+ [] := by
      rw [List.suffix_nil, ← List.length_eq_zero_iff, length_quotes]
      omega
    have hempty : ¬ quotes (n + 1) <:+: [] := by
      rw [List.infix_nil]
      nofun
    rw [hsplit, quotedExtent_of_fence _ (by omega) hpost]
    constructor
    · intro h
      have hzero : fenceTail (2 * n + 2) post = 0 := by
        have hnil : (doubleQuotes []).length = 0 := rfl
        omega
      refine ⟨hempty, .inl ?_⟩
      by_contra hne
      have hpos : 0 < fenceTail (2 * n + 2) post := fenceTail_pos (by omega) hne
      omega
    · rintro ⟨-, rfl | hsuffix⟩
      · rfl
      · exact absurd hsuffix hnosuffix
  | cons c behind =>
    have hc : c ≠ '"' := fun h => hbehind (congrArg some h)
    have hsplit : '"' :: (quotes (2 * n) ++ doubleQuotes (c :: behind) ++ '"' :: post) =
        quotes (2 * n + 1) ++ (doubleQuotes (c :: behind) ++ '"' :: post) := by
      rw [quotes_succ, List.append_assoc, List.cons_append]
    have hhead : (doubleQuotes (c :: behind) ++ '"' :: post).head? ≠ some '"' := by
      rw [doubleQuotes_cons_of_ne hc]
      exact hbehind
    rw [hsplit, quotedExtent_of_fence _ (by omega) hhead, ← fenceTail_doubleQuotes_iff n]
    omega

/-- The scan of a verbatim string ends where the string does, in every text in which no further
quote follows, if and only if the content does not begin with a quote, or else no longer run of
quotes than the first one stands in it, and it ends with as long a run, behind other characters, or
nothing follows the string. -/
theorem stringExtent?_verbatim_iff (pre content : List Char) (hpost : post.head? ≠ some '"') :
    stringExtent? ((pre ++ verbatimString content ++ post).drop pre.length) =
        some (verbatimString content).length ↔
      content.head? ≠ some '"' ∨
        ¬ quotes (leadingQuotes content + 1) <:+: behindQuotes content ∧
          (post = [] ∨ quotes (leadingQuotes content) <:+ behindQuotes content) := by
  rw [List.append_assoc, List.drop_left, stringExtent?_verbatimString, length_verbatimString,
    Option.some_inj]
  by_cases hcontent : content.head? = some '"'
  · have hrun : 0 < leadingQuotes content := by
      rw [← Nat.succ_le_iff, ← quotes_prefix_iff]
      cases content with
      | nil => cases hcontent
      | cons c content =>
        obtain rfl := Option.some.inj hcontent
        exact ⟨content, rfl⟩
    have hfence := quotedExtent_of_quotes hrun (head?_behindQuotes content) hpost
    rw [quotes_append_behindQuotes] at hfence
    rw [← hfence]
    have hnot : ¬ content.head? ≠ some '"' := not_not_intro hcontent
    rw [or_iff_right hnot]
    omega
  · refine iff_of_true ?_ (.inl hcontent)
    rw [quotedExtent_of_plain hcontent hpost]
    omega

/-- A content in quotes begins and ends with a run of one, so its string is scanned to its end. -/
theorem stringExtent?_verbatim_in_quotes :
    ";\x7d".toList.head? ≠ some '"' ∧
      stringExtent? (("s=".toList ++ verbatimString "\"\x7b\"".toList ++ ";\x7d".toList).drop 2) =
        some (verbatimString "\"\x7b\"".toList).length := by
  have hpost : ";\x7d".toList.head? ≠ some '"' := by decide
  exact ⟨hpost, (stringExtent?_verbatim_iff "s=".toList _ hpost).2 (.inr (by decide))⟩

/-- The verbatim string of a single quote is scanned past its end when a semicolon follows. -/
theorem stringExtent?_verbatim_quote :
    stringExtent? (verbatimString ['"'] ++ [';']) = some 6 ∧ (verbatimString ['"']).length = 5 := by
  decide

end RegionScope.Source
