import RegionScope.Proofs.Source.LiteralEnds
import RegionScope.Source.CallDepth

/-!
# Calls for nested literals

The calls for the literals in a string are those for its moves at the deepest place
(`textCalls_cons`), and the calls for a text those for its tokens (`callDepth_le_iff`). Each string
around another one takes three characters at least, a mark, a quote and a brace, so a text has
calls nested no deeper than a third of its length (`callDepth_le`); strings that are opened one in
the hole of the other reach this depth (`le_callDepth_nestedStrings`).
-/

namespace RegionScope.Source

variable {style : StringStyle} {depth calls : Nat} {c : Char} {cs text : List Char}

/-! ## Moves of a string -/

/-- The calls for the literal that stands at the head of a text at `depth` open braces; none stands
between the holes. -/
def moveCalls (depth : Nat) (cs : List Char) : Nat :=
  if depth = 0 then 0
  else if startsString cs then stringCalls cs
  else if cs.head? = some '\'' then 1 else 0

theorem textCalls_nil (style : StringStyle) (depth : Nat) : textCalls style depth [] = 0 := by
  rw [textCalls]

/-- The calls for a string are those for its moves at the deepest place. -/
theorem textCalls_cons (style : StringStyle) (depth : Nat) (c : Char) (cs : List Char) :
    textCalls style depth (c :: cs) = max (moveCalls depth (c :: cs))
      (((stringMove style depth c cs).2.map fun depth' =>
        textCalls style depth' (cs.drop ((stringMove style depth c cs).1 - 1))).getD 0) := by
  rw [textCalls.eq_def, moveCalls, stringCalls]
  simp only [List.head?_cons, Option.some.injEq]
  cases (stringMove style depth c cs).2 with
  | none =>
    dsimp only [Option.map_none, Option.getD_none]
    repeat' split
    all_goals rfl
  | some depth' =>
    dsimp only [Option.map_some, Option.getD_some]
    repeat' split
    · exact (Nat.zero_max _).symm
    · rfl
    · rfl
    · rfl
    · exact (Nat.zero_max _).symm

/-- A string without holes holds no literals. -/
theorem textCalls_of_not_interpolated (h : style.interpolated = false) (cs : List Char) :
    textCalls style 0 cs = 0 := by
  induction hlength : cs.length using Nat.strongRecOn generalizing cs with
  | ind n ih =>
    subst hlength
    cases cs with
    | nil => exact textCalls_nil style 0
    | cons c cs =>
      -- no move leads into a hole
      have hdepth : ∀ depth', (stringMove style 0 c cs).2 = some depth' → depth' = 0 := by
        intro depth' hmove
        rw [stringMove, if_pos rfl, h, Bool.false_and, if_neg Bool.false_ne_true] at hmove
        repeat' split at hmove
        all_goals cases hmove
        all_goals rfl
      rw [textCalls_cons, moveCalls, if_pos rfl, Nat.zero_max]
      cases hmove : (stringMove style 0 c cs).2 with
      | none => rfl
      | some depth' =>
        obtain rfl := hdepth depth' hmove
        rw [Option.map_some, Option.getD_some]
        refine ih _ ?_ _ rfl
        rw [List.length_drop, List.length_cons]
        omega

/-! ## Three characters for a call -/

/-- Between the holes of a string that is shorter than `n` a call needs three characters and one
for the brace, and in a hole three characters, of which the last literal needs one only. -/
def CallsBounded (n : Nat) : Prop :=
  ∀ (style : StringStyle) (cs : List Char), cs.length < n →
    3 * textCalls style 0 cs ≤ cs.length + 1 ∧ ∀ depth, 3 * textCalls style depth cs ≤ cs.length + 2

theorem CallsBounded.stringCalls (ih : CallsBounded cs.length) (h : startsString cs = true) :
    3 * stringCalls cs ≤ cs.length + 2 := by
  have hlength := length_sigils_add cs
  have hafter := List.length_pos_iff.2 (afterSigils_ne_nil h)
  rw [Source.stringCalls]
  split
  · omega
  · cases hinterpolated : (StringStyle.ofSigils (sigils cs)).interpolated with
    | false =>
      rw [textCalls_of_not_interpolated hinterpolated]
      omega
    | true =>
      have hmarks : 0 < (sigils cs).length :=
        List.length_pos_of_mem (List.contains_iff_mem.1 hinterpolated)
      have hinner := (ih (.ofSigils (sigils cs)) ((afterSigils cs).drop 1)
        (by rw [List.length_drop]; omega)).1
      rw [List.length_drop] at hinner
      omega

theorem CallsBounded.moveCalls (ih : CallsBounded cs.length) (hne : cs ≠ []) (depth : Nat) :
    3 * moveCalls depth cs ≤ cs.length + 2 := by
  have hpos := List.length_pos_iff.2 hne
  rw [Source.moveCalls]
  split
  · omega
  · split
    · next hstring => exact ih.stringCalls hstring
    · split <;> omega

theorem callsBounded (n : Nat) : CallsBounded n := by
  -- on a bound of the length: a move leaves less of the text, and a string in a hole has less
  induction n with
  | zero =>
    intro style cs hlength
    exact absurd hlength (Nat.not_lt_zero _)
  | succ n ih =>
    intro style cs hlength
    cases cs with
    | nil => exact ⟨by simp [textCalls_nil], fun depth => by simp [textCalls_nil]⟩
    | cons c cs =>
      have hshorter : CallsBounded (c :: cs).length :=
        fun style rest hrest => ih style rest (by omega)
      have hothers : ∀ depth' taken,
          3 * textCalls style depth' (cs.drop taken) ≤ cs.length + 2 := by
        intro depth' taken
        have hdrop : (cs.drop taken).length ≤ cs.length := by
          rw [List.length_drop]
          omega
        rw [List.length_cons] at hlength
        have hrest := (ih style (cs.drop taken) (by omega)).2 depth'
        omega
      rw [List.length_cons]
      refine ⟨?_, fun depth => ?_⟩
      · rw [textCalls_cons, Source.moveCalls, if_pos rfl, Nat.zero_max]
        cases (stringMove style 0 c cs).2 with
        | none => exact Nat.zero_le _
        | some depth' => exact hothers depth' _
      · have hmove := hshorter.moveCalls (List.cons_ne_nil c cs) depth
        rw [List.length_cons] at hmove
        rw [textCalls_cons]
        cases (stringMove style depth c cs).2 with
        | none =>
          rw [Option.map_none, Option.getD_none]
          omega
        | some depth' =>
          have hrest := hothers depth' ((stringMove style depth c cs).1 - 1)
          rw [Option.map_some, Option.getD_some]
          omega

/-! ## Tokens of a text -/

/-- The calls for a text stay within a bound exactly if those for each of its tokens do. -/
theorem callDepth_le_iff :
    callDepth text ≤ calls ↔ ∀ token ∈ lex text, token.calls text ≤ calls := by
  rw [callDepth]
  induction lex text with
  | nil => simp
  | cons token tokens ih => rw [List.foldr_cons, Nat.max_le, ih, List.forall_mem_cons]

/-- A literal token stands where a literal begins. -/
theorem calls_le_of_mem_lexFrom {pos : Nat} {atStart : Bool} {token : Token}
    (hdrop : text.drop pos = cs) (h : token ∈ lexFrom pos atStart cs) :
    3 * token.calls text ≤ text.length + 2 := by
  fun_induction lexFrom pos atStart cs with
  | case1 => cases h
  | case2 pos atStart c cs next ih =>
    rcases List.mem_cons.1 h with rfl | h
    · have hlength : (c :: cs).length ≤ text.length := by
        rw [← hdrop, List.length_drop]
        omega
      rw [Token.calls]
      cases hlexeme : (nextLexeme atStart c cs).1 with
      | stringLiteral =>
        have hstring := (nextLexeme_stringLiteral (Prod.ext hlexeme rfl)).1
        have hcalls := (callsBounded _).stringCalls hstring
        dsimp only
        rw [hdrop]
        omega
      | charLiteral =>
        rw [List.length_cons] at hlength
        dsimp only
        omega
      | _ => exact Nat.zero_le _
    · refine ih ?_ h
      rw [← List.drop_drop, ← List.drop_drop, hdrop]
      rfl

/-- Calls are nested no deeper than a third of the text is long. -/
theorem callDepth_le (text : List Char) : 3 * callDepth text ≤ text.length + 2 := by
  have hdepth : callDepth text ≤ (text.length + 2) / 3 := by
    rw [callDepth_le_iff]
    intro token htoken
    have := calls_le_of_mem_lexFrom rfl htoken
    omega
  omega

/-! ## Strings in the holes of strings -/

/-- Strings that are opened one in the hole of the other. -/
def nestedStrings : Nat → List Char
  | 0 => []
  | n + 1 => '$' :: '"' :: '\x7b' :: nestedStrings n

theorem startsString_nestedStrings (n : Nat) : startsString (nestedStrings (n + 1)) = true := rfl

/-- Within the first of the strings stand the others, in its hole. -/
theorem stringCalls_nestedStrings (n : Nat) :
    stringCalls (nestedStrings (n + 1)) = 1 + textCalls ⟨true, false⟩ 1 (nestedStrings n) := by
  have hbrace : (nestedStrings n).head? ≠ some '\x7b' := by
    cases n with
    | zero => nofun
    | succ n => exact fun h => absurd (Option.some.inj h) (by decide)
  have hmove : stringMove ⟨true, false⟩ 0 '\x7b' (nestedStrings n) = (1, some 1) := if_neg hbrace
  have hcalls : stringCalls (nestedStrings (n + 1)) =
      1 + textCalls ⟨true, false⟩ 0 ('\x7b' :: nestedStrings n) := rfl
  rw [hcalls, textCalls_cons, hmove, moveCalls, if_pos rfl, Nat.zero_max]
  rfl

theorem le_stringCalls_nestedStrings (n : Nat) : n + 1 ≤ stringCalls (nestedStrings (n + 1)) := by
  induction n with
  | zero =>
    rw [stringCalls_nestedStrings]
    exact Nat.le_add_right 1 _
  | succ n ih =>
    have hhole : stringCalls (nestedStrings (n + 1)) ≤
        textCalls ⟨true, false⟩ 1 (nestedStrings (n + 1)) := by
      rw [nestedStrings, textCalls_cons, moveCalls, if_neg Nat.one_ne_zero, ← nestedStrings,
        if_pos (startsString_nestedStrings n)]
      exact Nat.le_max_left _ _
    rw [stringCalls_nestedStrings]
    omega

/-- Strings in the holes of strings need a call each. -/
theorem le_callDepth_nestedStrings (n : Nat) : n ≤ callDepth (nestedStrings n) := by
  cases n with
  | zero => exact Nat.zero_le _
  | succ n =>
    have hfirst : ∃ others, lex (nestedStrings (n + 1)) = ⟨0, .stringLiteral⟩ :: others :=
      ⟨_, lexFrom_cons 0 true '$' ('"' :: '\x7b' :: nestedStrings n)⟩
    obtain ⟨others, hlex⟩ := hfirst
    have hcalls := callDepth_le_iff.1 (Nat.le_refl (callDepth (nestedStrings (n + 1))))
      ⟨0, .stringLiteral⟩ (by rw [hlex]; exact List.mem_cons_self)
    exact Nat.le_trans (le_stringCalls_nestedStrings n) hcalls

end RegionScope.Source
