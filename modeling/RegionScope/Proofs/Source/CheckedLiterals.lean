import RegionScope.Proofs.Source.CallDepths

/-!
# Literals read offset by offset

The loops that find the end of a literal go over the offsets of a fixed text. Here they may fail:
at a read behind the end of the text where the code behind it needs a character, after more rounds
than they are given, at a call when no further one may be nested, and at the end of any literal,
nested ones too, that does not lie where a literal can end (`IsLiteralEnd`). With as many rounds as
two for each character that is left they fail exactly if the literals are nested deeper than calls
may be, and otherwise the end is as far as the extent of the literal says (`charEnd?_eq`,
`stringEnd?_eq`).
-/

namespace RegionScope.Source

variable {text : List Char} {pos fuel calls : Nat} {c : Char}

theorem drop_eq_cons_of_getElem? (h : text[pos]? = some c) :
    text.drop pos = c :: text.drop (pos + 1) := by
  obtain ⟨hlt, rfl⟩ := List.getElem?_eq_some_iff.1 h
  exact List.drop_eq_getElem_cons hlt

/-- Whether a literal at `pos` may end in front of `stop`: behind its first character, and no
further than the end of the text but for a backslash there. -/
def IsLiteralEnd (text : List Char) (pos stop : Nat) : Prop := pos < stop ∧ EndsWithin text stop

instance (text : List Char) (stop : Nat) : Decidable (EndsWithin text stop) :=
  inferInstanceAs (Decidable (_ ∧ _))

instance (text : List Char) (pos stop : Nat) : Decidable (IsLiteralEnd text pos stop) :=
  inferInstanceAs (Decidable (_ ∧ _))

/-! ## The loops -/

/-- The end of a character literal, from behind its opening quote on. -/
def charTailEnd? (text : List Char) : Nat → Nat → Option Nat
  | 0, _ => none
  | fuel + 1, pos =>
    match text[pos]? with
    | none => some pos
    | some c =>
      if c = '\\' then charTailEnd? text fuel (pos + 2)
      else if c = '\'' then some (pos + 1)
      else if c = '\n' then some pos
      else charTailEnd? text fuel (pos + 1)

/-- The end of a character literal that begins at `pos`, by a call of its own. -/
def charEnd? (text : List Char) (calls fuel pos : Nat) : Option Nat :=
  match calls with
  | 0 => none
  | _ + 1 => (charTailEnd? text fuel (pos + 1)).filter fun stop => IsLiteralEnd text pos stop

/-- What one mark more says about a string. -/
def StringStyle.mark (style : StringStyle) (c : Char) : StringStyle :=
  if c = '$' then { style with interpolated := true } else { style with verbatim := true }

/-- What the marks at `pos` say and the offset behind them, where a character has to stand. -/
def readMarks? (style : StringStyle) (pos : Nat) : List Char → Option (StringStyle × Nat)
  | [] => none
  | c :: cs => if isSigil c then readMarks? (style.mark c) (pos + 1) cs else some (style, pos)

mutual

/-- The end of a string that begins at `pos`, by a call of its own and at most `calls` nested ones
with it. -/
def stringEnd? (text : List Char) : Nat → Nat → Nat → Option Nat
  | _, 0, _ => none
  | 0, _ + 1, _ => none
  | calls + 1, fuel + 1, pos =>
    ((readMarks? ⟨false, false⟩ pos (text.drop pos)).bind fun (style, quote) =>
      if startsRaw (text.drop quote) then some (quote + rawExtent (text.drop quote))
      else textEnd? text calls fuel style 0 (quote + 1)).filter fun stop =>
        IsLiteralEnd text pos stop
termination_by structural _ fuel => fuel

/-- The end of a string from within it on, at `depth` open braces of a hole and with at most `calls`
calls nested further. -/
def textEnd? (text : List Char) : Nat → Nat → StringStyle → Nat → Nat → Option Nat
  | _, 0, _, _, _ => none
  | calls, fuel + 1, style, depth, pos =>
    match text[pos]? with
    | none => some pos
    | some c =>
      -- a literal in a hole is read from its own beginning on
      if depth ≠ 0 ∧ startsString (text.drop pos) then
        (stringEnd? text calls fuel pos).bind fun stop => textEnd? text calls fuel style depth stop
      else if depth ≠ 0 ∧ c = '\'' then
        (charEnd? text calls fuel pos).bind fun stop => textEnd? text calls fuel style depth stop
      else
        match stringMove style depth c (text.drop (pos + 1)) with
        | (taken, none) => some (pos + taken)
        | (taken, some depth') => textEnd? text calls fuel style depth' (pos + taken)
termination_by structural _ fuel => fuel

end

/-! ## Character literals -/

theorem charTailEnd?_eq (hfuel : text.length - pos < fuel) :
    charTailEnd? text fuel pos = some (pos + charTail (text.drop pos)) := by
  induction fuel generalizing pos with
  | zero => exact absurd hfuel (Nat.not_lt_zero _)
  | succ fuel ih =>
    rw [charTailEnd?]
    cases hc : text[pos]? with
    | none =>
      rw [List.drop_eq_nil_of_le (List.getElem?_eq_none_iff.1 hc)]
      rfl
    | some c =>
      have hlt := (List.getElem?_eq_some_iff.1 hc).1
      rw [drop_eq_cons_of_getElem? hc, charTail_cons]
      dsimp only
      split
      · rw [ih (by omega), List.drop_drop, Nat.add_assoc]
      · split
        · rfl
        · split
          · rfl
          · rw [ih (by omega), Nat.add_assoc]

theorem isLiteralEnd_char (h : pos < text.length) :
    IsLiteralEnd text pos (pos + 1 + charTail (text.drop (pos + 1))) := by
  refine ⟨by omega, ?_⟩
  have hquote : EndsWithin text (pos + 1) := .of_le h
  exact hquote.add (endsWithin_charTail _)

/-- A character literal ends as far as its extent says, if a call is left for it. -/
theorem charEnd?_eq (calls : Nat) (h : pos < text.length) (hfuel : text.length - pos ≤ fuel) :
    charEnd? text calls fuel pos =
      if 1 ≤ calls then some (pos + 1 + charTail (text.drop (pos + 1))) else none := by
  cases calls with
  | zero => rfl
  | succ calls =>
    rw [charEnd?, charTailEnd?_eq (by omega), if_pos (Nat.le_add_left 1 calls)]
    exact Option.filter_some_pos (decide_eq_true (isLiteralEnd_char h))

/-! ## Marks -/

theorem foldl_mark (style : StringStyle) {marks : List Char}
    (h : ∀ c ∈ marks, isSigil c = true) :
    marks.foldl StringStyle.mark style =
      ⟨style.interpolated || marks.contains '$', style.verbatim || marks.contains '@'⟩ := by
  induction marks generalizing style with
  | nil => simp
  | cons c marks ih =>
    have hc : c = '$' ∨ c = '@' := by simpa [isSigil] using h c List.mem_cons_self
    rw [List.foldl_cons, ih _ fun d hd => h d (List.mem_cons_of_mem c hd)]
    rcases hc with rfl | rfl <;> simp [StringStyle.mark]

theorem readMarks?_eq_foldl (style : StringStyle) (pos : Nat) {cs : List Char}
    (h : afterSigils cs ≠ []) : readMarks? style pos cs =
      some ((sigils cs).foldl StringStyle.mark style, pos + (sigils cs).length) := by
  induction cs generalizing style pos with
  | nil => exact absurd rfl h
  | cons c cs ih =>
    rw [readMarks?]
    by_cases hc : isSigil c = true
    · have hrest : afterSigils (c :: cs) = afterSigils cs := List.dropWhile_cons_of_pos hc
      have hmarks : sigils (c :: cs) = c :: sigils cs := List.takeWhile_cons_of_pos hc
      rw [if_pos hc, ih _ _ (by rwa [hrest] at h), hmarks, List.foldl_cons, List.length_cons]
      simp only [Nat.add_assoc, Nat.add_comm]
    · have hmarks : sigils (c :: cs) = [] := List.takeWhile_cons_of_neg hc
      rw [if_neg hc, hmarks]
      rfl

/-- Marks that a character follows are read as a whole. -/
theorem readMarks?_eq (pos : Nat) {cs : List Char} (h : afterSigils cs ≠ []) :
    readMarks? ⟨false, false⟩ pos cs = some (.ofSigils (sigils cs), pos + (sigils cs).length) := by
  have hall : ∀ c ∈ sigils cs, isSigil c = true := List.all_eq_true.1 List.all_takeWhile
  rw [readMarks?_eq_foldl _ pos h, foldl_mark _ hall]
  rfl

/-! ## Strings with holes -/

theorem lt_length_of_startsString (h : startsString (text.drop pos) = true) :
    pos + (sigils (text.drop pos)).length < text.length := by
  have hlength := length_sigils_add (text.drop pos)
  have hafter := List.length_pos_iff.2 (afterSigils_ne_nil h)
  rw [List.length_drop] at hlength
  omega

theorem isLiteralEnd_string (h : startsString (text.drop pos) = true) :
    IsLiteralEnd text pos (pos + stringExtent (text.drop pos)) := by
  have hlt := lt_length_of_startsString h
  have hpos := stringExtent_pos (text.drop pos)
  refine ⟨by omega, ?_⟩
  have hbefore : EndsWithin text pos := .of_le (by omega)
  exact hbefore.add (endsWithin_stringExtent h)

/-- With `fuel` rounds the end of every string that needs no more of them is found exactly if it
needs no more calls than may be nested. -/
def StringEndsFound (text : List Char) (fuel : Nat) : Prop :=
  ∀ calls pos, startsString (text.drop pos) = true → 2 * (text.length - pos) < fuel →
    stringEnd? text calls fuel pos =
      if stringCalls (text.drop pos) ≤ calls then some (pos + stringExtent (text.drop pos))
      else none

/-- With `fuel` rounds the end of every string that needs no more of them is found from within it
exactly if it needs no more calls than may be nested further. -/
def TextEndsFound (text : List Char) (fuel : Nat) : Prop :=
  ∀ calls style depth pos, 2 * (text.length - pos) + 1 < fuel →
    textEnd? text calls fuel style depth pos =
      if textCalls style depth (text.drop pos) ≤ calls then
        some (pos + stringTail style depth (text.drop pos))
      else none

theorem TextEndsFound.stringEndsFound (h : TextEndsFound text fuel) :
    StringEndsFound text (fuel + 1) := by
  intro calls pos hstring hfuel
  have hlt := lt_length_of_startsString hstring
  have hend : IsLiteralEnd text pos (pos + stringExtent (text.drop pos)) :=
    isLiteralEnd_string hstring
  cases calls with
  | zero =>
    have hpos : 0 < stringCalls (text.drop pos) := by
      rw [stringCalls]
      split <;> omega
    rw [if_neg (Nat.not_le_of_lt hpos), stringEnd?]
  | succ calls =>
    rw [stringExtent, afterSigils_eq_drop, List.drop_drop, ← Nat.add_assoc] at hend
    rw [stringExtent, stringCalls, afterSigils_eq_drop, List.drop_drop, ← Nat.add_assoc,
      stringEnd?, readMarks?_eq pos (afterSigils_ne_nil hstring), Option.bind_some]
    have hle : pos ≤ pos + (sigils (text.drop pos)).length := Nat.le_add_right _ _
    generalize pos + (sigils (text.drop pos)).length = quote at hle hlt hend ⊢
    generalize StringStyle.ofSigils (sigils (text.drop pos)) = style at hend ⊢
    rw [quotedExtent, List.drop_drop] at hend ⊢
    dsimp only
    split
    · next hraw =>
      rw [if_pos hraw] at hend
      rw [if_pos (Nat.le_add_left 1 calls)]
      exact Option.filter_some_pos (decide_eq_true hend)
    · next hraw =>
      rw [if_neg hraw, ← Nat.add_assoc] at hend
      rw [h _ _ _ _ (by omega), Nat.add_comm 1, ← Nat.add_assoc]
      simp only [Nat.add_le_add_iff_right]
      split
      · exact Option.filter_some_pos (decide_eq_true hend)
      · rfl

theorem StringEndsFound.textEndsFound (hstrings : StringEndsFound text fuel)
    (htexts : TextEndsFound text fuel) : TextEndsFound text (fuel + 1) := by
  intro calls style depth pos hfuel
  rw [textEnd?]
  cases hc : text[pos]? with
  | none =>
    rw [List.drop_eq_nil_of_le (List.getElem?_eq_none_iff.1 hc), stringTail, textCalls_nil,
      if_pos (Nat.zero_le _)]
    rfl
  | some c =>
    have hlt := (List.getElem?_eq_some_iff.1 hc).1
    have hdrop := drop_eq_cons_of_getElem? hc
    -- behind a move that is not the last one the text is read with one round less
    have hgoesOn : ∀ taken depth',
        stringMove style depth c (text.drop (pos + 1)) = (taken, some depth') →
        (if moveCalls depth (text.drop pos) ≤ calls then
          textEnd? text calls fuel style depth' (pos + taken) else none) =
          if textCalls style depth (text.drop pos) ≤ calls then
            some (pos + stringTail style depth (text.drop pos)) else none := by
      intro taken depth' hmove
      have hpos : 0 < taken := by
        have := stringMove_pos_or_none style depth c (text.drop (pos + 1))
        rw [hmove] at this
        exact this.resolve_right (Option.some_ne_none depth')
      rw [htexts _ _ _ _ (by omega), hdrop, stringTail_cons, textCalls_cons, hmove]
      simp only [Option.map_some, Option.getD_some, List.drop_drop, Nat.max_le, ite_and]
      rw [show pos + 1 + (taken - 1) = pos + taken by omega, Nat.add_assoc]
    dsimp only
    by_cases hstring : depth ≠ 0 ∧ startsString (text.drop pos) = true
    · have hmove : stringMove style depth c (text.drop (pos + 1)) =
          (stringExtent (text.drop pos), some depth) := by
        rw [stringMove, if_neg hstring.1, ← hdrop, if_pos hstring.2]
      rw [if_pos hstring, hstrings _ pos hstring.2 (by omega), ← hgoesOn _ _ hmove, moveCalls,
        if_neg hstring.1, if_pos hstring.2]
      split <;> rfl
    rw [if_neg hstring]
    by_cases hchar : depth ≠ 0 ∧ c = '\''
    · have hnot : startsString (text.drop pos) ≠ true := fun h => hstring ⟨hchar.1, h⟩
      have hhead : (text.drop pos).head? = some '\'' := by rw [hdrop, List.head?_cons, hchar.2]
      have hmove : stringMove style depth c (text.drop (pos + 1)) =
          (1 + charTail (text.drop (pos + 1)), some depth) := by
        rw [stringMove, if_neg hchar.1, ← hdrop, if_neg hnot, if_pos hchar.2]
      rw [if_pos hchar, charEnd?_eq calls hlt (by omega), ← hgoesOn _ _ hmove, moveCalls,
        if_neg hchar.1, if_neg hnot, if_pos hhead, Nat.add_assoc]
      split <;> rfl
    rw [if_neg hchar]
    have hcalls : moveCalls depth (text.drop pos) = 0 := by
      rw [moveCalls, hdrop, List.head?_cons]
      rw [hdrop] at hstring
      split
      · rfl
      · next hdepth =>
        rw [if_neg fun h => hstring ⟨hdepth, h⟩, if_neg fun h => hchar ⟨hdepth, Option.some.inj h⟩]
    obtain ⟨taken, next, hmove⟩ : ∃ taken next,
        stringMove style depth c (text.drop (pos + 1)) = (taken, next) := ⟨_, _, rfl⟩
    rw [hmove]
    cases next with
    | none =>
      rw [hdrop] at hcalls ⊢
      rw [stringTail_cons, textCalls_cons, hcalls, hmove, Nat.zero_max]
      exact (if_pos (Nat.zero_le calls)).symm
    | some depth' =>
      rw [← hgoesOn taken depth' hmove, hcalls, if_pos (Nat.zero_le _)]

theorem endsFound (text : List Char) (fuel : Nat) :
    StringEndsFound text fuel ∧ TextEndsFound text fuel := by
  induction fuel with
  | zero =>
    exact ⟨fun _ _ _ h => absurd h (Nat.not_lt_zero _),
      fun _ _ _ _ h => absurd h (Nat.not_lt_zero _)⟩
  | succ fuel ih => exact ⟨ih.2.stringEndsFound, ih.1.textEndsFound ih.2⟩

/-- A string ends as far as its extent says, if calls may be nested as deep as its literals are. -/
theorem stringEnd?_eq (calls : Nat) (h : startsString (text.drop pos) = true)
    (hfuel : 2 * (text.length - pos) < fuel) : stringEnd? text calls fuel pos =
      if stringCalls (text.drop pos) ≤ calls then some (pos + stringExtent (text.drop pos))
      else none :=
  (endsFound text fuel).1 calls pos h hfuel

-- the text ends within a character literal in a hole, behind the backslash
example : stringEnd? ['$', '"', '\x7b', '\'', '\\'] 2 11 0 = some 6 := by decide

end RegionScope.Source
