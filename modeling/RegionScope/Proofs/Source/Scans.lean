import Mathlib.Data.List.TakeWhile
import RegionScope.Proofs.Source.Extents
import RegionScope.Proofs.Source.Tokens

/-!
# Scans of a part of a text

A part of a text is scanned with what comes behind it in view, since that decides where its last
lexeme ends (`Scans`). Scans of parts that follow one another make up a scan of the whole
(`Scans.append`), and a scan that ends in front of a character holds in front of every text that
begins with this character (`Scans.congr`). So a scan that ends behind a newline or a blank of its
own, or in front of a directive, holds in front of every text.
-/

namespace RegionScope.Source

open RegionScope.Text

/-- In front of `after` a part of a text that begins at offset `pos` is cut into `tokens`. Whether
a directive may begin is told for the front of the part and for what comes behind it. -/
inductive Scans (after : List Char) : Nat → Bool → List Char → List Token → Bool → Prop
  | nil (pos : Nat) (atStart : Bool) : Scans after pos atStart [] [] atStart
  | cons {pos : Nat} {atStart : Bool} {c : Char} {cs : List Char} {lexeme : Lexeme} {n : Nat}
      {tokens : List Token} {atEnd : Bool} (head : nextLexeme atStart c (cs ++ after) = (lexeme, n))
      (inside : n ≤ cs.length)
      (tail : Scans after (pos + 1 + n) (lexeme.leavesAtStart atStart) (cs.drop n) tokens atEnd) :
      Scans after pos atStart (c :: cs) (⟨pos, lexeme⟩ :: tokens) atEnd

namespace Scans

variable {after cs mid : List Char} {pos : Nat} {atStart atMid atEnd : Bool}
  {tokens more : List Token}

/-- The tokens of a text are those of its first part, and those of the rest. -/
theorem lexFrom_append (h : Scans after pos atStart cs tokens atEnd) :
    lexFrom pos atStart (cs ++ after) = tokens ++ lexFrom (pos + cs.length) atEnd after := by
  induction h with
  | nil => rfl
  | @cons pos atStart c cs lexeme n tokens atEnd head inside tail ih =>
    have hlength : pos + 1 + n + (cs.drop n).length = pos + (c :: cs).length := by
      rw [List.length_drop, List.length_cons]
      omega
    rw [hlength] at ih
    rw [List.cons_append, lexFrom_cons, head, List.drop_append_of_le_length inside, ih,
      List.cons_append]

/-- The tokens of a part stand within it. -/
theorem start_bounds (h : Scans after pos atStart cs tokens atEnd) {token : Token}
    (htoken : token ∈ tokens) : pos ≤ token.start ∧ token.start < pos + cs.length := by
  induction h with
  | nil => cases htoken
  | @cons pos atStart c cs lexeme n tokens atEnd head inside tail ih =>
    rw [List.length_cons]
    rcases List.mem_cons.1 htoken with rfl | htoken
    · constructor
      · exact Nat.le_refl _
      · exact Nat.lt_add_of_pos_right (Nat.succ_pos _)
    · obtain ⟨hle, hlt⟩ := ih htoken
      rw [List.length_drop] at hlt
      omega

/-- Two parts that follow one another. -/
theorem append (h : Scans (mid ++ after) pos atStart cs tokens atMid)
    (hmid : Scans after (pos + cs.length) atMid mid more atEnd) :
    Scans after pos atStart (cs ++ mid) (tokens ++ more) atEnd := by
  induction h with
  | nil => exact hmid
  | @cons pos atStart c cs lexeme n tokens atMid head inside tail ih =>
    have hlength : pos + 1 + n + (cs.drop n).length = pos + (c :: cs).length := by
      rw [List.length_drop, List.length_cons]
      omega
    rw [hlength] at ih
    have hhead : nextLexeme atStart c ((cs ++ mid) ++ after) = (lexeme, n) := by
      rwa [List.append_assoc]
    apply Scans.cons hhead
    · rw [List.length_append]
      omega
    · rw [List.drop_append_of_le_length inside]
      exact ih hmid

/-- A single lexeme. -/
theorem single {c : Char} {lexeme : Lexeme}
    (h : nextLexeme atStart c (cs ++ after) = (lexeme, cs.length)) :
    Scans after pos atStart (c :: cs) [⟨pos, lexeme⟩] (lexeme.leavesAtStart atStart) := by
  refine .cons h (Nat.le_refl _) ?_
  rw [List.drop_length]
  exact .nil _ _

/-- A place where a token starts is a place where a scan of what stands before it ends. -/
theorem of_mem {token : Token} (h : token ∈ lexFrom pos atStart (cs ++ after))
    (hstart : token.start = pos + cs.length) :
    ∃ tokens atEnd, Scans after pos atStart cs tokens atEnd := by
  -- on the length, as a lexeme may take any number of characters
  induction hlength : cs.length using Nat.strongRecOn generalizing pos atStart cs with
  | ind length ih =>
    cases cs with
    | nil => exact ⟨[], atStart, .nil pos atStart⟩
    | cons c cs =>
      rw [List.cons_append, lexFrom_cons] at h
      rw [List.length_cons] at hstart hlength
      rcases List.mem_cons.1 h with rfl | h
      · exact absurd hstart (by simp)
      · -- the first lexeme ends before the token
        have hinside : (nextLexeme atStart c (cs ++ after)).2 ≤ cs.length := by
          have := (start_bounds_of_mem_lexFrom h).1
          omega
        rw [List.drop_append_of_le_length hinside] at h
        obtain ⟨tokens, atEnd, htail⟩ := ih _ (by rw [List.length_drop]; omega) h
          (by rw [List.length_drop]; omega) rfl
        exact ⟨_, _, .cons rfl hinside htail⟩

/-- A scan that ends in front of a character that is no mark of a string does not look behind
it. -/
theorem congr {next : Char} {back : List Char} (hnext : isSigil next = false)
    (h : Scans (next :: back) pos atStart cs tokens atEnd) (back' : List Char) :
    Scans (next :: back') pos atStart cs tokens atEnd := by
  generalize hafter : next :: back = after at h
  induction h with
  | nil pos atStart => exact .nil pos atStart
  | @cons pos atStart c cs lexeme n tokens atEnd head inside tail ih =>
    subst hafter
    refine .cons ?_ inside ih
    rw [nextLexeme_append hnext, head]
    rwa [head]

/-- The scan of a part that is not empty has a last lexeme. -/
theorem exists_last (h : Scans after pos atStart cs tokens atEnd) (hcs : cs ≠ []) :
    ∃ front c rest before atLast lexeme, cs = front ++ c :: rest ∧
      Scans (c :: rest ++ after) pos atStart front before atLast ∧
      nextLexeme atLast c (rest ++ after) = (lexeme, rest.length) ∧
      tokens = before ++ [⟨pos + front.length, lexeme⟩] ∧
      atEnd = lexeme.leavesAtStart atLast := by
  induction h with
  | nil => exact absurd rfl hcs
  | @cons pos atStart c cs lexeme n tokens atEnd head inside tail ih =>
    -- either this lexeme takes all of the part, or the last one is found behind it
    by_cases hend : n = cs.length
    · refine ⟨[], c, cs, [], atStart, lexeme, rfl, .nil pos atStart, hend ▸ head, ?_⟩
      subst hend
      rw [List.drop_length] at tail
      cases tail
      exact ⟨rfl, rfl⟩
    · have hrest : cs.drop n ≠ [] := by
        rw [Ne, List.drop_eq_nil_iff]
        omega
      obtain ⟨front, d, rest, before, atLast, last, hsplit, hfront, hlast, htokens, hatEnd⟩ :=
        ih hrest
      have hcs : cs = cs.take n ++ (front ++ d :: rest) := by
        rw [← hsplit, List.take_append_drop]
      have hlength : (cs.take n).length = n := List.length_take_of_le inside
      refine ⟨c :: (cs.take n ++ front), d, rest, ⟨pos, lexeme⟩ :: before, atLast, last, ?_, ?_,
        hlast, ?_, hatEnd⟩
      · rw [List.cons_append, List.append_assoc, ← hcs]
      · have hsame : (cs.take n ++ front) ++ (d :: rest ++ after) = cs ++ after := by
          rw [List.append_assoc, ← List.append_assoc front, ← hsplit, ← List.append_assoc,
            List.take_append_drop]
        apply Scans.cons (by rw [hsame, head])
        · rw [List.length_append, hlength]
          omega
        · rw [List.drop_append_of_le_length (by omega), List.drop_of_length_le (by omega)]
          exact hfront
      · rw [htokens, List.cons_append, List.length_cons, List.length_append, hlength]
        congr 4
        omega

end Scans

/-! ## Offsets -/

/-- The token at an offset that is larger by `distance`. -/
def Token.shift (distance : Nat) (token : Token) : Token :=
  { token with start := token.start + distance }

/-- Where a text begins only moves its tokens. -/
theorem lexFrom_add (pos distance : Nat) (atStart : Bool) (cs : List Char) :
    lexFrom (pos + distance) atStart cs = (lexFrom pos atStart cs).map (Token.shift distance) := by
  induction hlength : cs.length using Nat.strongRecOn generalizing pos atStart cs with
  | ind length ih =>
    cases cs with
    | nil => rw [lexFrom_nil, lexFrom_nil, List.map_nil]
    | cons c cs =>
      -- what the lexeme at the head is does not depend on its offset
      have hshift : pos + distance + 1 + (nextLexeme atStart c cs).2 =
          pos + 1 + (nextLexeme atStart c cs).2 + distance := by omega
      rw [List.length_cons] at hlength
      rw [lexFrom_cons, lexFrom_cons, hshift, ih _ _ _ _ _ rfl, List.map_cons, Token.shift]
      rw [List.length_drop]
      omega

theorem Scans.shift {after cs : List Char} {pos : Nat} {atStart atEnd : Bool} {tokens : List Token}
    (h : Scans after pos atStart cs tokens atEnd) (distance : Nat) :
    Scans after (pos + distance) atStart cs (tokens.map (Token.shift distance)) atEnd := by
  induction h with
  | nil pos atStart => exact .nil _ _
  | @cons pos atStart c cs lexeme n tokens atEnd head inside tail ih =>
    refine .cons head inside ?_
    rwa [show pos + distance + 1 + n = pos + 1 + n + distance by omega]

/-! ## Places where every text may go on -/

/-- Blanks and newlines are lexemes of their own whatever stands behind them. -/
theorem nextLexeme_of_isBlank {c : Char} (h : isBlank c = true) (atStart : Bool) (cs : List Char) :
    nextLexeme atStart c cs = (if c = '\n' then .newline else .blank, 0) := by
  unfold nextLexeme
  by_cases hc : c = '\n'
  · rw [if_pos hc, if_pos hc]
  · rw [if_neg hc, if_neg hc, if_pos h]

theorem isSigil_of_isBlank {c : Char} (h : isBlank c = true) : isSigil c = false := by
  by_contra hsigil
  rw [Bool.not_eq_false, isSigil, Bool.or_eq_true, beq_iff_eq, beq_iff_eq] at hsigil
  rcases hsigil with rfl | rfl <;> exact absurd h (by decide)

/-- The rest of a line holds no newline. -/
theorem ne_newline_of_mem_restOfLine {cs : List Char} {c : Char} (h : c ∈ restOfLine cs) :
    c ≠ '\n' := by
  simpa using List.mem_takeWhile_imp h

/-- A block comment that ends within the text ends with a slash. -/
theorem getElem?_commentTail {cs : List Char} (h : commentTail cs < cs.length) :
    ∃ n, commentTail cs = n + 1 ∧ cs[n]? = some '/' := by
  induction cs with
  | nil => exact absurd h (Nat.not_lt_zero _)
  | cons c cs ih =>
    rw [commentTail] at h ⊢
    split
    · next hend =>
      refine ⟨1, rfl, ?_⟩
      rw [List.getElem?_cons_succ, ← List.head?_eq_getElem?, hend.2]
    · next hend =>
      rw [if_neg hend, List.length_cons] at h
      obtain ⟨n, hn, hslash⟩ := ih (by omega)
      exact ⟨n + 1, by omega, hslash⟩

/-- What a line gives up to the end of a part of the text holds no newline. -/
theorem ne_newline_of_length_restOfLine {rest after : List Char}
    (h : (restOfLine (rest ++ after)).length = rest.length) : ∀ c ∈ rest, c ≠ '\n' := by
  have hprefix : restOfLine (rest ++ after) <+: rest ++ after := List.takeWhile_prefix _
  have heq : restOfLine (rest ++ after) = rest := by
    rw [List.prefix_iff_eq_take.1 hprefix, h, List.take_left]
  intro c hc
  rw [← heq] at hc
  exact ne_newline_of_mem_restOfLine hc

/-- A lexeme that takes a newline as its last character, with text behind it, is a newline or a
literal. -/
theorem nextLexeme_of_last_newline {atStart : Bool} {c : Char} {rest after : List Char}
    {lexeme : Lexeme} (h : nextLexeme atStart c (rest ++ after) = (lexeme, rest.length))
    (hafter : after ≠ []) (hlast : (c :: rest).getLast? = some '\n') :
    (lexeme = .newline ∧ rest = []) ∨ lexeme = .stringLiteral ∨ lexeme = .charLiteral := by
  -- what takes a character other than a newline alone, or with the rest of its line, ends otherwise
  have hshort : c ≠ '\n' → (∀ d ∈ rest, d ≠ '\n') → False := by
    intro hc hrest
    rcases List.mem_cons.1 (List.mem_of_getLast? hlast) with heq | hmem
    · exact hc heq.symm
    · exact hrest '\n' hmem rfl
  have hsingle : 0 = rest.length → ∀ d ∈ rest, d ≠ '\n' := by
    intro hlength
    rw [List.eq_nil_of_length_eq_zero hlength.symm]
    simp
  unfold nextLexeme at h
  split at h
  · obtain ⟨rfl, hlength⟩ := Prod.mk.inj h
    exact .inl ⟨rfl, List.eq_nil_of_length_eq_zero hlength.symm⟩
  next hnewline =>
  split at h
  · exact (hshort hnewline (hsingle (Prod.mk.inj h).2)).elim
  split at h
  · exact (hshort hnewline (ne_newline_of_length_restOfLine (Prod.mk.inj h).2)).elim
  split at h
  · exact (hshort hnewline (ne_newline_of_length_restOfLine (Prod.mk.inj h).2)).elim
  split at h
  · next hcomment =>
    have hlength := (Prod.mk.inj h).2
    cases rest with
    | nil => exact absurd hlength (by simp)
    | cons d rest =>
      -- with text behind it the comment is closed, so its last character is a slash
      rw [List.cons_append, List.drop_succ_cons, List.drop_zero, List.length_cons] at hlength
      have hpos := List.length_pos_iff.2 hafter
      have hlt : commentTail (rest ++ after) < (rest ++ after).length := by
        rw [List.length_append]
        omega
      obtain ⟨n, hn, hslash⟩ := getElem?_commentTail hlt
      have hrest : rest[n]? = some '/' := by
        rwa [List.getElem?_append_left (by omega)] at hslash
      rw [List.getLast?_cons_cons, List.getLast?_eq_getElem?, List.length_cons,
        show rest.length + 1 - 1 = n + 1 by omega, List.getElem?_cons_succ, hrest] at hlast
      exact absurd (Option.some.inj hlast) (by decide)
  split at h
  · exact .inr (.inl (Prod.mk.inj h).1.symm)
  split at h
  · exact .inr (.inr (Prod.mk.inj h).1.symm)
  · exact (hshort hnewline (hsingle (Prod.mk.inj h).2)).elim

namespace Scans

variable {after cs : List Char} {pos : Nat} {atStart atEnd : Bool} {tokens : List Token}

/-- A scan up to a blank goes on behind it in front of every text. -/
theorem blank {c : Char} (hc : isBlank c = true)
    (h : Scans (c :: after) pos atStart cs tokens atEnd) (after' : List Char) :
    Scans after' pos atStart (cs ++ [c])
      (tokens ++ [⟨pos + cs.length, if c = '\n' then .newline else .blank⟩])
      (Lexeme.leavesAtStart atEnd (if c = '\n' then .newline else .blank)) := by
  apply Scans.append (h.congr (isSigil_of_isBlank hc) after')
  exact .single (nextLexeme_of_isBlank hc atEnd ([] ++ after'))

/-- A part that ends with a newline is scanned alike in front of every text, unless a literal takes
the newline. -/
theorem newline (h : Scans after pos atStart (cs ++ ['\n']) tokens atEnd) (hafter : after ≠ [])
    (hlast : ∀ token ∈ tokens.getLast?,
      token.lexeme ≠ .stringLiteral ∧ token.lexeme ≠ .charLiteral) :
    tokens.getLast? = some ⟨pos + cs.length, .newline⟩ ∧
      ∀ after', Scans after' pos atStart (cs ++ ['\n']) tokens true := by
  obtain ⟨front, c, rest, before, atLast, lexeme, hsplit, hfront, hlexeme, rfl, -⟩ :=
    h.exists_last (by simp)
  have hnewline : (c :: rest).getLast? = some '\n' := by
    have := congrArg List.getLast? hsplit
    rw [List.getLast?_append, List.getLast?_append] at this
    cases hcons : (c :: rest).getLast? with
    | none => simp at hcons
    | some d =>
      rw [hcons] at this
      exact this.symm
  obtain ⟨hstring, hchar⟩ := hlast ⟨pos + front.length, lexeme⟩ (by simp)
  rcases nextLexeme_of_last_newline hlexeme hafter hnewline with ⟨rfl, rfl⟩ | rfl | rfl
  · obtain rfl : c = '\n' := by simpa using hnewline
    obtain rfl : cs = front := List.append_cancel_right hsplit
    refine ⟨by simp, ?_⟩
    intro after'
    exact hfront.blank (by decide) after'
  · exact absurd rfl hstring
  · exact absurd rfl hchar

/-- What stands in front of a directive is scanned alike in front of every text. -/
theorem directive {rest line : List Char} {n : Nat}
    (h : Scans ('#' :: rest) pos atStart cs tokens atEnd)
    (hline : nextLexeme atEnd '#' rest = (.directive line, n)) (after' : List Char) :
    Scans after' pos atStart cs tokens true := by
  obtain ⟨rfl, -⟩ := nextLexeme_directive hline
  by_cases hcs : cs = []
  · subst hcs
    cases h
    exact .nil pos true
  obtain ⟨front, c, rest', before, atLast, lexeme, rfl, hfront, hlexeme, rfl, hatEnd⟩ :=
    h.exists_last hcs
  -- only behind a blank or a newline may a directive begin
  have hblank : isBlank c = true ∧ rest' = [] := by
    cases lexeme with
    | newline =>
      obtain ⟨rfl, hlength⟩ := nextLexeme_newline hlexeme
      exact ⟨by decide, List.eq_nil_of_length_eq_zero hlength⟩
    | blank =>
      obtain ⟨hblank, -, hlength⟩ := nextLexeme_blank hlexeme
      exact ⟨hblank, List.eq_nil_of_length_eq_zero hlength⟩
    | directive line' =>
      -- behind a directive its line ends, so no other one begins there
      obtain ⟨-, -, -, hlength⟩ := nextLexeme_directive hlexeme
      have hdrop := drop_restOfLine (rest' ++ '#' :: rest)
      rw [← hlength, List.drop_left] at hdrop
      rcases hdrop with hdrop | hdrop <;> simp at hdrop
    | lineComment => cases hatEnd
    | blockComment => cases hatEnd
    | stringLiteral => cases hatEnd
    | charLiteral => cases hatEnd
    | code d => cases hatEnd
  obtain ⟨hblank, rfl⟩ := hblank
  have := hfront.blank hblank after'
  rw [nextLexeme_of_isBlank hblank] at hlexeme
  obtain ⟨rfl, -⟩ := Prod.mk.inj hlexeme
  rwa [← hatEnd] at this

end Scans

end RegionScope.Source
