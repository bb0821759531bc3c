import RegionScope.Proofs.Source.DirectiveOrder
import RegionScope.Proofs.Source.LiteralEnds
import RegionScope.Proofs.Source.Scans

/-!
# Line starts

A literal that ends within the text ends with its quote or in front of a newline (`QuoteEnd`). So no
literal ends with a newline in front of the first other character of a line, and a token that starts
there has nothing but a newline before it: between tokens a directive may begin at the start of
every line (`Scans.atEnd_of_lineStart`).
-/

namespace RegionScope.Source

open RegionScope.Text

variable {quote c : Char} {cs rest after : List Char} {m n : Nat}

/-! ## Where literals end -/

/-- Whether the first `n` characters of a text are all of it, end in front of a newline or end with
`quote`. -/
def QuoteEnd (quote : Char) (cs : List Char) (n : Nat) : Prop :=
  cs.length ≤ n ∨ cs[n]? = some '\n' ∨ ∃ m, n = m + 1 ∧ cs[m]? = some quote

namespace QuoteEnd

theorem of_quote (h : cs.head? = some quote) : QuoteEnd quote cs 1 :=
  .inr (.inr ⟨0, rfl, by rwa [← List.head?_eq_getElem?]⟩)

theorem of_newline (h : cs.head? = some '\n') : QuoteEnd quote cs 0 :=
  .inr (.inl (by rwa [← List.head?_eq_getElem?]))

/-- What is taken before does not matter. -/
theorem add (h : QuoteEnd quote (cs.drop m) n) : QuoteEnd quote cs (m + n) := by
  rcases h with hall | hnewline | ⟨k, rfl, hquote⟩
  · rw [List.length_drop] at hall
    exact .inl (by omega)
  · rw [List.getElem?_drop] at hnewline
    exact .inr (.inl hnewline)
  · rw [List.getElem?_drop] at hquote
    exact .inr (.inr ⟨m + k, rfl, hquote⟩)

/-- In front of another character than a newline the last one taken is the quote. -/
theorem getLast? (h : QuoteEnd quote (cs ++ after) cs.length) (hafter : after ≠ [])
    (hhead : after.head? ≠ some '\n') : cs.getLast? = some quote := by
  rcases h with hall | hnewline | ⟨k, hk, hquote⟩
  · have := List.length_pos_iff.2 hafter
    rw [List.length_append] at hall
    omega
  · rw [List.getElem?_append_right (Nat.le_refl _), Nat.sub_self, ← List.head?_eq_getElem?]
      at hnewline
    exact absurd hnewline hhead
  · rw [List.getElem?_append_left (by omega)] at hquote
    rwa [List.getLast?_eq_getElem?, hk, Nat.add_sub_cancel]

end QuoteEnd

theorem quoteEnd_charTail (cs : List Char) : QuoteEnd '\'' cs (charTail cs) := by
  -- on the length, as a backslash takes the character behind it along
  induction hlength : cs.length using Nat.strongRecOn generalizing cs with
  | ind n ih =>
    subst hlength
    cases cs with
    | nil => exact .inl (Nat.le_refl 0)
    | cons c cs =>
      rw [charTail_cons]
      rw [List.length_cons] at ih
      split
      · have hdrop : (cs.drop 1).length < cs.length + 1 := by
          rw [List.length_drop]
          omega
        exact QuoteEnd.add (m := 2) (ih _ hdrop (cs.drop 1) rfl)
      · split
        · next hquote => exact .of_quote (congrArg some hquote)
        · split
          · next hnewline => exact .of_newline (congrArg some hnewline)
          · exact QuoteEnd.add (m := 1) (ih _ (Nat.lt_succ_self _) cs rfl)

theorem quoteEnd_fenceTail (hn : 0 < n) (cs : List Char) : QuoteEnd '"' cs (fenceTail n cs) := by
  obtain ⟨m, rfl⟩ := Nat.exists_eq_succ_of_ne_zero hn.ne'
  induction cs with
  | nil => exact .inl (Nat.le_refl 0)
  | cons c cs ih =>
    rw [fenceTail]
    split
    · next hfence =>
      obtain ⟨back, hback⟩ := List.isPrefixOf_iff_prefix.1 hfence
      refine .inr (.inr ⟨m, rfl, ?_⟩)
      rw [← hback, List.getElem?_append_left (by simp), List.getElem?_replicate,
        if_pos (Nat.lt_succ_self m)]
    · exact QuoteEnd.add (m := 1) (ih)

/-- The last move of a string takes its quote, or nothing in front of a newline. -/
theorem quoteEnd_stringMove {style : StringStyle} {depth : Nat}
    (h : (stringMove style depth c cs).2 = none) :
    QuoteEnd '"' (c :: cs) (stringMove style depth c cs).1 := by
  unfold stringMove at h ⊢
  split_ifs at h ⊢ with _ _ _ _ hquote _ hnewline
  · exact .of_quote (congrArg some hquote)
  · exact .of_newline (congrArg some (beq_iff_eq.1 (Bool.and_eq_true_iff.1 hnewline).1))

theorem quoteEnd_stringTail (style : StringStyle) (depth : Nat) (cs : List Char) :
    QuoteEnd '"' cs (stringTail style depth cs) := by
  induction hlength : cs.length using Nat.strongRecOn generalizing cs depth with
  | ind n ih =>
    subst hlength
    cases cs with
    | nil => exact .inl (Nat.zero_le _)
    | cons c cs =>
      rw [stringTail_cons]
      cases hnext : (stringMove style depth c cs).2 with
      | none => exact quoteEnd_stringMove hnext
      | some depth' =>
        have hpos := (stringMove_pos_or_none style depth c cs).resolve_right (by simp [hnext])
        rw [Option.map_some, Option.getD_some, ← @List.drop_cons _ _ c cs hpos]
        refine QuoteEnd.add (ih _ ?_ depth' _ rfl)
        rw [List.length_drop, List.length_cons]
        omega

theorem quoteEnd_quotedExtent (style : StringStyle) (cs : List Char) :
    QuoteEnd '"' cs (quotedExtent style cs) := by
  rw [quotedExtent]
  split
  · next hraw =>
    exact (quoteEnd_fenceTail (Nat.lt_of_lt_of_le (by decide) (of_decide_eq_true hraw)) _).add
  · exact (quoteEnd_stringTail style 0 (cs.drop 1)).add

theorem quoteEnd_stringExtent (cs : List Char) : QuoteEnd '"' cs (stringExtent cs) := by
  rw [stringExtent, afterSigils_eq_drop]
  exact (quoteEnd_quotedExtent _ _).add

/-! ## Starts of lines -/

/-- A lexeme that takes a newline as its last character is a newline, if another character than a
newline stands behind it. -/
theorem nextLexeme_of_lineStart {atStart : Bool} {lexeme : Lexeme}
    (h : nextLexeme atStart c (rest ++ after) = (lexeme, rest.length))
    (hafter : after ≠ []) (hhead : after.head? ≠ some '\n')
    (hlast : (c :: rest).getLast? = some '\n') : lexeme = .newline := by
  -- a literal would end with its quote
  have hquote : ∀ quote, quote ≠ '\n' →
      ¬ QuoteEnd quote ((c :: rest) ++ after) (c :: rest).length := by
    intro quote hne hend
    rw [hend.getLast? hafter hhead] at hlast
    exact hne (Option.some.inj hlast)
  rw [List.length_cons, Nat.add_comm] at hquote
  rcases nextLexeme_of_last_newline h hafter hlast with ⟨hnewline, -⟩ | rfl | rfl
  · exact hnewline
  · refine absurd ?_ (hquote '"' (by decide))
    rw [(nextLexeme_stringLiteral h).2]
    exact quoteEnd_stringExtent _
  · refine absurd ?_ (hquote '\'' (by decide))
    rw [nextLexeme_charLiteral h]
    exact QuoteEnd.add (m := 1) (quoteEnd_charTail _)

namespace Scans

variable {pos : Nat} {atStart atEnd : Bool} {tokens : List Token}

/-- Between tokens a directive may begin at the start of a line that is not empty. -/
theorem atEnd_of_lineStart (h : Scans after pos true cs tokens atEnd)
    (hcs : ∀ c ∈ cs.getLast?, c = '\n') (hafter : after ≠ []) (hhead : after.head? ≠ some '\n') :
    atEnd = true := by
  by_cases hnil : cs = []
  · subst hnil
    cases h
    rfl
  obtain ⟨front, c, rest, before, atLast, lexeme, rfl, -, hlexeme, -, rfl⟩ := h.exists_last hnil
  have hlast : (c :: rest).getLast? = some '\n' := by
    have hsome : (c :: rest).getLast? = some ((c :: rest).getLast (by simp)) :=
      List.getLast?_eq_some_getLast (by simp)
    rw [hsome]
    congr 1
    apply hcs
    rw [List.getLast?_append, hsome]
    rfl
  rw [nextLexeme_of_lineStart hlexeme hafter hhead hlast]
  rfl

end Scans

end RegionScope.Source
