import RegionScope.Proofs.Source.Scans
import RegionScope.Proofs.Source.VerbatimStrings

/-!
# Raw strings

A raw string stands between two fences of quotes, three or more and as many behind its body as in
front of it. The length of the fence is read off the text, and the body ends where the first run of
that many quotes is found. The run that is found is the closing fence if and only if no fence stands
in the body and the body does not end with a quote (`fenceTail_body_iff`); what else stands in the
body, and what stands behind the string, is not looked at.

`rawString_extent_iff` says so for whole strings in every text. Such a string is a single lexeme.
-/

namespace RegionScope.Source

open RegionScope.Text

variable {body post : List Char} {n : Nat}

/-- The raw string of a body behind `dollars` dollar marks, with fences of `n` quotes. -/
def rawString (dollars n : Nat) (body : List Char) : List Char :=
  List.replicate dollars '$' ++ (quotes n ++ (body ++ quotes n))

/-- A fence of `n` quotes is not met before the end of the body: none stands in the body, and none
begins in it. -/
structure Unfenced (n : Nat) (body : List Char) : Prop where
  noFence : ¬ quotes n <:+: body
  noLastQuote : body.getLast? ≠ some '"'

/-! ## The closing fence -/

/-- Behind a text that does not end with a quote, `k` quotes are the longest run at the end. -/
theorem le_of_quotes_suffix {k : Nat} (hlast : body.getLast? ≠ some '"')
    (h : quotes n <:+ body ++ quotes k) : n ≤ k := by
  have hhead : body.reverse.head? ≠ some '"' := by rwa [List.head?_reverse]
  rw [← List.reverse_prefix, reverse_quotes, List.reverse_append, reverse_quotes,
    quotes_prefix_iff, leadingQuotes_quotes_append, leadingQuotes_eq_zero hhead] at h
  exact h

/-- The search for the closing fence ends behind it if and only if none is met before. -/
theorem fenceTail_body_iff (hn : 0 < n) (body post : List Char) :
    fenceTail n (body ++ quotes n ++ post) = body.length + n ↔ Unfenced n body := by
  constructor
  · intro h
    constructor
    · -- a fence in the body would be found there
      rintro ⟨before, behind, rfl⟩
      have hle := fenceTail_le_of_quotes n before (behind ++ quotes n ++ post)
      rw [← List.append_assoc, ← List.append_assoc] at hle
      rw [h] at hle
      simp only [List.length_append, length_quotes] at hle
      omega
    · -- a last quote of the body would be the first one of the fence
      intro hlast
      obtain ⟨before, rfl⟩ : ∃ before, body = before ++ ['"'] :=
        List.getLast?_eq_some_iff.1 hlast
      have hshift : before ++ ['"'] ++ quotes n ++ post = before ++ quotes n ++ ('"' :: post) := by
        have hcomm : ['"'] ++ quotes n = quotes n ++ ['"'] := by
          show quotes 1 ++ quotes n = quotes n ++ quotes 1
          rw [← quotes_add, ← quotes_add, Nat.add_comm]
        rw [List.append_assoc before, hcomm]
        simp only [List.append_assoc, List.singleton_append]
      have hle := fenceTail_le_of_quotes n before ('"' :: post)
      rw [← hshift, h, List.length_append, List.length_singleton] at hle
      omega
  · rintro ⟨noFence, noLastQuote⟩
    apply Nat.le_antisymm
    · exact fenceTail_le_of_quotes n body post
    · by_contra hlt
      rcases quotes_suffix_take_fenceTail n (body ++ quotes n ++ post) with hfound | hwhole
      · rw [List.append_assoc, List.take_append] at hfound
        rcases Nat.le_or_le (fenceTail n (body ++ quotes n ++ post)) body.length with hle | hge
        · -- the fence that is found lies in the body
          rw [← List.append_assoc, Nat.sub_eq_zero_of_le hle, List.take_zero, List.append_nil]
            at hfound
          exact noFence (hfound.isInfix.trans (List.take_prefix _ _).isInfix)
        · -- it begins in the body, so that it holds its last character
          rw [← List.append_assoc, List.take_of_length_le hge, List.take_append_of_le_length
            (by rw [length_quotes]; omega), quotes, List.take_replicate, ← quotes, ← quotes]
            at hfound
          have hle := le_of_quotes_suffix noLastQuote hfound
          omega
      · simp only [List.length_append, length_quotes] at hlt hwhole
        omega

/-! ## Whole strings -/

theorem length_rawString (dollars n : Nat) (body : List Char) :
    (rawString dollars n body).length = dollars + (n + (body.length + n)) := by
  simp [rawString, length_quotes]

/-- Dollar marks and a fence begin a string, and the marks end in front of the fence. -/
theorem sigils_rawString (dollars : Nat) (hn : 0 < n) (cs : List Char) :
    sigils (List.replicate dollars '$' ++ (quotes n ++ cs)) = List.replicate dollars '$' ∧
      afterSigils (List.replicate dollars '$' ++ (quotes n ++ cs)) = quotes n ++ cs := by
  obtain ⟨n, rfl⟩ := Nat.exists_eq_add_one_of_ne_zero (Nat.ne_of_gt hn)
  have hmark : ∀ c ∈ List.replicate dollars '$', isSigil c = true := by
    intro c hc
    rw [List.eq_of_mem_replicate hc]
    rfl
  have hquote : isSigil '"' = false := rfl
  constructor
  · rw [sigils, List.takeWhile_append_of_pos hmark, quotes_succ, List.cons_append,
      List.takeWhile_cons_of_neg (by rw [hquote]; exact Bool.false_ne_true), List.append_nil]
  · rw [afterSigils, List.dropWhile_append_of_pos hmark, quotes_succ, List.cons_append,
      List.dropWhile_cons_of_neg (by rw [hquote]; exact Bool.false_ne_true)]

theorem introducesString_dollars (dollars : Nat) :
    introducesString (List.replicate dollars '$') = true := by
  cases dollars with
  | zero => rfl
  | succ dollars =>
    have hnone : (List.replicate dollars '$').dropWhile (· == '$') = [] := by
      rw [List.dropWhile_eq_nil_iff]
      intro c hc
      rw [List.eq_of_mem_replicate hc]
      rfl
    rw [List.replicate_succ, introducesString, if_pos rfl, hnone]

theorem startsString_rawString (dollars : Nat) (hn : 0 < n) (cs : List Char) :
    startsString (List.replicate dollars '$' ++ (quotes n ++ cs)) = true := by
  obtain ⟨hsigils, hafter⟩ := sigils_rawString dollars hn cs
  obtain ⟨n, rfl⟩ := Nat.exists_eq_add_one_of_ne_zero (Nat.ne_of_gt hn)
  rw [startsString, hsigils, hafter, introducesString_dollars]
  rfl

/-- A string that begins with a fence takes what the search for the closing fence takes. -/
theorem stringExtent_rawString (dollars : Nat) (hn : 3 ≤ n) {cs : List Char}
    (hcs : cs.head? ≠ some '"') :
    stringExtent (List.replicate dollars '$' ++ (quotes n ++ cs)) =
      dollars + (n + fenceTail n cs) := by
  obtain ⟨hsigils, hafter⟩ := sigils_rawString dollars (Nat.lt_of_lt_of_le (by decide) hn) cs
  rw [stringExtent, hsigils, hafter, quotedExtent_of_fence _ hn hcs, List.length_replicate]

/-- In front of a string no blank, comment or directive is seen. -/
theorem nextLexeme_of_startsString {c : Char} {cs : List Char}
    (h : startsString (c :: cs) = true) (atStart : Bool) :
    nextLexeme atStart c cs = (.stringLiteral, stringExtent (c :: cs) - 1) := by
  have hc : c = '"' ∨ c = '$' ∨ c = '@' := by
    by_cases hsigil : isSigil c = true
    · exact .inr (by simpa [isSigil] using hsigil)
    · have hquote := head?_afterSigils h
      rw [afterSigils, List.dropWhile_cons_of_neg hsigil] at hquote
      exact .inl (Option.some.inj hquote)
  have hplain : c ≠ '\n' ∧ isBlank c = false ∧ c ≠ '#' ∧ c ≠ '/' := by
    rcases hc with rfl | rfl | rfl <;> decide
  obtain ⟨hnewline, hblank, hhash, hslash⟩ := hplain
  simp [nextLexeme, hnewline, hblank, hhash, hslash, h]

/-- In every text the scan of a raw string with a fence of three or more quotes ends where the
string does, if and only if no fence stands in its body and the body does not end with a quote: the
body is not empty and does not begin with a quote, so that the opening fence ends in front of it.
Braces, hash signs, backslashes, newlines and shorter runs of quotes in the body are then part of a
single lexeme. -/
theorem rawString_extent_iff (dollars : Nat) (hn : 3 ≤ n) (hnonempty : body ≠ [])
    (hhead : body.head? ≠ some '"') (pre post : List Char) :
    (stringExtent? ((pre ++ rawString dollars n body ++ post).drop pre.length) =
        some (rawString dollars n body).length ↔ Unfenced n body) ∧
    (Unfenced n body → ∀ pos atStart,
      Scans post pos atStart (rawString dollars n body) [⟨pos, .stringLiteral⟩] false) := by
  have hpos : 0 < n := Nat.lt_of_lt_of_le (by decide) hn
  have hbehind : (body ++ quotes n ++ post).head? ≠ some '"' := by
    cases body with
    | nil => exact absurd rfl hnonempty
    | cons c body => exact hhead
  have hsplit : rawString dollars n body ++ post =
      List.replicate dollars '$' ++ (quotes n ++ (body ++ quotes n ++ post)) := by
    simp only [rawString, List.append_assoc]
  have hstring : startsString (rawString dollars n body ++ post) = true := by
    rw [hsplit]
    exact startsString_rawString dollars hpos _
  have hextent : stringExtent (rawString dollars n body ++ post) =
      dollars + (n + fenceTail n (body ++ quotes n ++ post)) := by
    rw [hsplit]
    exact stringExtent_rawString dollars hn hbehind
  have hclosing := fenceTail_body_iff hpos body post
  constructor
  · have hsome : (afterSigils (rawString dollars n body ++ post)).isEmpty ≠ true := by
      rw [Ne, List.isEmpty_iff]
      exact afterSigils_ne_nil hstring
    rw [List.append_assoc, List.drop_left, stringExtent?, if_neg hsome, hextent, Option.some_inj,
      length_rawString, Nat.add_left_cancel_iff, Nat.add_left_cancel_iff, hclosing]
  · intro hunfenced pos atStart
    rw [hclosing.2 hunfenced, ← length_rawString] at hextent
    cases hraw : rawString dollars n body with
    | nil =>
      have hlength := length_rawString dollars n body
      rw [hraw, List.length_nil] at hlength
      omega
    | cons c cs =>
      rw [hraw, List.cons_append] at hstring hextent
      refine Scans.single ?_
      rw [nextLexeme_of_startsString hstring, hextent, List.length_cons, Nat.add_sub_cancel]

/-- A raw string behind two dollar marks, with braces, a line that begins with a hash sign, a
backslash and two quotes in its body, in front of another quote. -/
theorem rawString_extent_braces :
    let body := "\x7b\n#region \"\" \\\n\x7d'".toList
    3 ≤ 3 ∧ body ≠ [] ∧ body.head? ≠ some '"' ∧
      stringExtent? (("s=".toList ++ rawString 2 3 body ++ "\";".toList).drop 2) = some 25 ∧
      Scans "\";".toList 2 false (rawString 2 3 body) [⟨2, .stringLiteral⟩] false := by
  intro body
  have hnonempty : body ≠ [] := by decide
  have hhead : body.head? ≠ some '"' := by decide
  obtain ⟨hextent, hscans⟩ :=
    rawString_extent_iff 2 (Nat.le_refl 3) hnonempty hhead "s=".toList "\";".toList
  have hbody : Unfenced 3 body := ⟨by decide +kernel, by decide⟩
  exact ⟨Nat.le_refl 3, hnonempty, hhead, hextent.2 hbody, hscans hbody 2 false⟩

end RegionScope.Source
