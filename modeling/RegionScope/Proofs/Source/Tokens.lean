import RegionScope.Source.Lexeme
import RegionScope.Proofs.Text.Lines

/-!
# Tokens and the text they stand in

The tokens of a text stand in increasing order within it (`lex_pairwise_lt`,
`start_lt_of_mem_lex`). A directive token stands at a hash sign that only blanks precede on its
line, and holds the line from there on (`directive_of_mem_lex`). So no two directives share a
line (`newlines_lt_of_directives`).
-/

namespace RegionScope.Source

open RegionScope.Text

/-! ## Order -/

theorem start_bounds_of_mem_lexFrom {pos : Nat} {atStart : Bool} {cs : List Char} {token : Token}
    (h : token ∈ lexFrom pos atStart cs) : pos ≤ token.start ∧ token.start < pos + cs.length := by
  fun_induction lexFrom pos atStart cs with
  | case1 => cases h
  | case2 pos atStart c cs next ih =>
    rcases List.mem_cons.1 h with rfl | h
    · simp
    · obtain ⟨hle, hlt⟩ := ih h
      rw [List.length_drop] at hlt
      rw [List.length_cons]
      omega

theorem lexFrom_pairwise_lt (pos : Nat) (atStart : Bool) (cs : List Char) :
    (lexFrom pos atStart cs).Pairwise (·.start < ·.start) := by
  fun_induction lexFrom pos atStart cs with
  | case1 => exact List.Pairwise.nil
  | case2 pos atStart c cs next ih =>
    refine List.pairwise_cons.2 ⟨?_, ih⟩
    intro token h
    have := (start_bounds_of_mem_lexFrom h).1
    show pos < token.start
    omega

/-- Tokens stand in increasing order. -/
theorem lex_pairwise_lt (text : List Char) : (lex text).Pairwise (·.start < ·.start) :=
  lexFrom_pairwise_lt 0 true text

/-- The tokens before a token stand in front of it, and those after it behind it. -/
theorem start_lt_of_lex_eq {text : List Char} {before after : List Token} {token : Token}
    (h : lex text = before ++ token :: after) :
    (∀ other ∈ before, other.start < token.start) ∧ ∀ other ∈ after, token.start < other.start := by
  have hsorted := lex_pairwise_lt text
  rw [h] at hsorted
  obtain ⟨-, hafter, hbefore⟩ := List.pairwise_append.1 hsorted
  exact ⟨fun other hother => hbefore other hother token List.mem_cons_self,
    (List.pairwise_cons.1 hafter).1⟩

/-- Tokens stand within the text. -/
theorem start_lt_of_mem_lex {text : List Char} {token : Token} (h : token ∈ lex text) :
    token.start < text.length := by
  simpa using (start_bounds_of_mem_lexFrom h).2

/-- The tokens of a text are on the same lines when the text goes on. -/
theorem line_ofText_append {text : List Char} {token : Token} (h : token ∈ lex text)
    (back : List Char) : (LineIndex.ofText (text ++ back)).line token.start =
      (LineIndex.ofText text).line token.start := by
  rw [LineIndex.line_ofText_natCast, LineIndex.line_ofText_natCast,
    List.take_append_of_le_length (Nat.le_of_lt (start_lt_of_mem_lex h))]

/-! ## Directive lines -/

/-- Only blanks stand behind the last newline of the text. -/
def EndsInIndent (text : List Char) : Prop :=
  ∃ before gap, text = before ++ gap ∧ (before = [] ∨ before.getLast? = some '\n') ∧
    ∀ c ∈ gap, isBlank c = true ∧ c ≠ '\n'

theorem EndsInIndent.nil : EndsInIndent [] := ⟨[], [], rfl, .inl rfl, by simp⟩

theorem EndsInIndent.newline (text : List Char) : EndsInIndent (text ++ ['\n']) :=
  ⟨text ++ ['\n'], [], by simp, .inr (by simp), by simp⟩

theorem EndsInIndent.blank {text : List Char} {c : Char} (h : EndsInIndent text)
    (hblank : isBlank c = true) (hc : c ≠ '\n') : EndsInIndent (text ++ [c]) := by
  obtain ⟨before, gap, rfl, hbefore, hgap⟩ := h
  refine ⟨before, gap ++ [c], List.append_assoc .., hbefore, ?_⟩
  intro d hd
  rcases List.mem_append.1 hd with hd | hd
  · exact hgap d hd
  · obtain rfl := List.mem_singleton.1 hd
    exact ⟨hblank, hc⟩

/-- What is known between two tokens when a directive may begin there: only blanks stand before
on the line, or a directive does, and then the line ends here. -/
def LineOpen (atStart : Bool) (before after : List Char) : Prop :=
  atStart = true → EndsInIndent before ∨ after = [] ∨ after.head? = some '\n'

theorem nextLexeme_directive {atStart : Bool} {c : Char} {cs line : List Char} {n : Nat}
    (h : nextLexeme atStart c cs = (.directive line, n)) :
    atStart = true ∧ c = '#' ∧ line = c :: restOfLine cs ∧ n = (restOfLine cs).length := by
  unfold nextLexeme at h
  split at h
  · cases h
  split at h
  · cases h
  split at h
  · next hstart =>
    cases h
    simpa using hstart
  split at h
  · cases h
  split at h
  · cases h
  split at h
  · cases h
  split at h <;> cases h

theorem nextLexeme_newline {atStart : Bool} {c : Char} {cs : List Char} {n : Nat}
    (h : nextLexeme atStart c cs = (.newline, n)) : c = '\n' ∧ n = 0 := by
  unfold nextLexeme at h
  split at h
  · next hc =>
    cases h
    exact ⟨hc, rfl⟩
  · repeat' split at h
    all_goals cases h

theorem nextLexeme_blank {atStart : Bool} {c : Char} {cs : List Char} {n : Nat}
    (h : nextLexeme atStart c cs = (.blank, n)) : isBlank c = true ∧ c ≠ '\n' ∧ n = 0 := by
  unfold nextLexeme at h
  split at h
  · cases h
  · next hc =>
    split at h
    · next hblank =>
      cases h
      exact ⟨hblank, hc, rfl⟩
    · repeat' split at h
      all_goals cases h

/-- The rest of a text behind the rest of a line is empty or begins with a newline. -/
theorem drop_restOfLine (cs : List Char) :
    cs.drop (restOfLine cs).length = [] ∨ (cs.drop (restOfLine cs).length).head? = some '\n' := by
  induction cs with
  | nil => exact .inl rfl
  | cons c cs ih =>
    by_cases hc : c = '\n'
    · right
      simp [restOfLine, hc]
    · have hrest : restOfLine (c :: cs) = c :: restOfLine cs := by simp [restOfLine, hc]
      rw [hrest, List.length_cons, List.drop_succ_cons]
      exact ih

/-- One lexeme keeps what is known about the place between two tokens. -/
theorem LineOpen.next {atStart : Bool} {before cs : List Char} {c : Char}
    (h : LineOpen atStart before (c :: cs)) :
    LineOpen ((nextLexeme atStart c cs).1.leavesAtStart atStart)
      (before ++ c :: cs.take (nextLexeme atStart c cs).2)
      (cs.drop (nextLexeme atStart c cs).2) := by
  obtain ⟨lexeme, n, hnext⟩ : ∃ lexeme n, nextLexeme atStart c cs = (lexeme, n) := ⟨_, _, rfl⟩
  rw [hnext]
  intro hopen
  cases lexeme with
  | newline =>
    obtain ⟨rfl, rfl⟩ := nextLexeme_newline hnext
    exact .inl (EndsInIndent.newline before)
  | blank =>
    obtain ⟨hblank, hc, rfl⟩ := nextLexeme_blank hnext
    rcases h hopen with h | h | h
    · exact .inl (h.blank hblank hc)
    · cases h
    · exact absurd (Option.some.inj h) hc
  | directive line =>
    obtain ⟨-, -, -, rfl⟩ := nextLexeme_directive hnext
    exact .inr (drop_restOfLine cs)
  -- behind anything else no directive may begin on the line
  | lineComment => cases hopen
  | blockComment => cases hopen
  | stringLiteral => cases hopen
  | charLiteral => cases hopen
  | code d => cases hopen

theorem directive_of_mem_lexFrom {pos : Nat} {atStart : Bool} {cs line : List Char} {token : Token}
    (h : token ∈ lexFrom pos atStart cs) (hline : token.lexeme = .directive line) :
    ∀ before : List Char, pos = before.length → LineOpen atStart before cs →
      EndsInIndent ((before ++ cs).take token.start) ∧
        ∃ rest, (before ++ cs).drop token.start = '#' :: rest ∧ line = '#' :: restOfLine rest := by
  fun_induction lexFrom pos atStart cs with
  | case1 => cases h
  | case2 pos atStart c cs next ih =>
    intro before hpos hopen
    rcases List.mem_cons.1 h with rfl | h
    · obtain ⟨hstart, rfl, hread, -⟩ : atStart = true ∧ c = '#' ∧ line = c :: restOfLine cs ∧
          next.2 = (restOfLine cs).length := nextLexeme_directive (Prod.ext hline rfl)
      have hindent : EndsInIndent before := by
        rcases hopen hstart with h | h | h
        · exact h
        · cases h
        · simp at h
      subst hpos
      exact ⟨by simpa using hindent, cs, by simp, hread⟩
    · have hsplit : before ++ c :: cs =
          (before ++ c :: cs.take next.2) ++ cs.drop next.2 := by simp
      rw [hsplit]
      -- a literal that ends beyond the text leaves no token behind it
      have hnext : next.2 < cs.length := by
        have := start_bounds_of_mem_lexFrom h
        rw [List.length_drop] at this
        omega
      refine ih h _ ?_ hopen.next
      simp only [List.length_append, List.length_cons, List.length_take]
      omega

/-- A directive token stands behind blanks on its line and holds the line from there on. -/
theorem directive_of_mem_lex {text line : List Char} {token : Token} (h : token ∈ lex text)
    (hline : token.lexeme = .directive line) :
    EndsInIndent (text.take token.start) ∧
      ∃ rest, text.drop token.start = '#' :: rest ∧ line = '#' :: restOfLine rest :=
  directive_of_mem_lexFrom h hline [] rfl fun _ => .inl EndsInIndent.nil

/-- Behind a place that only blanks precede on its line stands no other character of the line
but blanks: a text up to such a place has more newlines than up to any place before it that is
no blank. -/
theorem newlines_lt_of_endsInIndent {text : List Char} {i j : Nat} {c : Char} (hij : i < j)
    (hj : EndsInIndent (text.take j)) (hi : text[i]? = some c) (hc : isBlank c = false) :
    newlines (text.take i) < newlines (text.take j) := by
  obtain ⟨before, gap, hsplit, hbefore, hgap⟩ := hj
  have hci : (before ++ gap)[i]? = some c := by
    rw [← hsplit, List.getElem?_take_of_lt hij, hi]
  -- the character is no blank, so it stands in front of the gap
  have hlt : i < before.length := by
    apply Nat.lt_of_not_le
    intro hle
    rw [List.getElem?_append_right hle] at hci
    have := (hgap c (List.mem_of_getElem? hci)).1
    simp [hc] at this
  rcases hbefore with rfl | hlast
  · simp at hlt
  -- the newline in front of the gap stands behind the character
  obtain ⟨front, rfl⟩ := List.getLast?_eq_some_iff.1 hlast
  have htake : text.take i = front.take i := by
    have hle : i ≤ front.length := by simpa using Nat.le_of_lt_succ (by simpa using hlt)
    calc text.take i = (text.take j).take i := by rw [List.take_take, Nat.min_eq_left (by omega)]
      _ = front.take i := by
        rw [hsplit, List.append_assoc, List.take_append_of_le_length hle]
  have hle : newlines (front.take i) ≤ newlines front :=
    (List.take_sublist i front).count_le '\n'
  rw [htake, hsplit]
  simp only [newlines, List.count_append, List.count_singleton_self] at hle ⊢
  omega

/-- No two directives share a line. -/
theorem newlines_lt_of_directives {text line line' : List Char} {a b : Token}
    (ha : a ∈ lex text) (hb : b ∈ lex text) (hlt : a.start < b.start)
    (hline : a.lexeme = .directive line) (hline' : b.lexeme = .directive line') :
    newlines (text.take a.start) < newlines (text.take b.start) := by
  obtain ⟨-, rest, hrest, -⟩ := directive_of_mem_lex ha hline
  have hhash : text[a.start]? = some '#' := by
    have := congrArg List.head? hrest
    rwa [List.head?_drop] at this
  exact newlines_lt_of_endsInIndent hlt (directive_of_mem_lex hb hline').1 hhash (by decide)

end RegionScope.Source
