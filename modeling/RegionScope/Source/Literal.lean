/-!
# Extent of character and string literals

How many characters a literal at the head of a text takes. Text is skipped, never read: a
string may be regular, verbatim (doubled quotes, no escapes), interpolated (holes in
braces, with literals of their own inside) or raw (a fence of three or more quotes). A
literal that is not closed ends before the newline, or with the text if it may hold
newlines.

A backslash takes the character after it along. When the backslash is the last character
of the text the extent is therefore one more than what is left of the text.
-/

namespace RegionScope.Source

/-! ## Character literals -/

/-- Extent of the part of a character literal after its opening quote. -/
def charTail : List Char → Nat
  | [] => 0
  | c :: cs =>
    if c = '\\' then
      match cs with
      | [] => 2
      | _ :: rest => 2 + charTail rest
    else if c = '\'' then 1
    else if c = '\n' then 0
    else 1 + charTail cs

/-- Extent of a character literal, whatever stands in the place of its opening quote. -/
def charExtent (cs : List Char) : Nat := 1 + charTail (cs.drop 1)

/-! ## How a string begins -/

/-- The marks that may stand before the opening quote of a string. -/
def isSigil (c : Char) : Bool := c == '$' || c == '@'

/-- The marks at the head of a text. -/
def sigils (cs : List Char) : List Char := cs.takeWhile isSigil

/-- What follows the marks. -/
def afterSigils (cs : List Char) : List Char := cs.dropWhile isSigil

theorem length_afterSigils_le (cs : List Char) : (afterSigils cs).length ≤ cs.length :=
  (List.dropWhile_suffix isSigil).length_le

/-- Behind the marks and one more character the text is shorter. -/
theorem length_afterSigils_cons (c : Char) (cs : List Char) :
    (afterSigils (c :: cs)).length - 1 < cs.length + 1 := by
  have h := length_afterSigils_le (c :: cs)
  rw [List.length_cons] at h
  omega

/-- Marks that introduce a string: none, dollars, dollars and one at sign, or an at sign
and dollars. -/
def introducesString : List Char → Bool
  | [] => true
  | c :: cs =>
    if c = '$' then
      match cs.dropWhile (· == '$') with
      | [] => true
      | d :: rest => d == '@' && rest.isEmpty
    else c == '@' && cs.all (· == '$')

/-- Whether a string literal begins here. -/
def startsString (cs : List Char) : Bool :=
  introducesString (sigils cs) && (afterSigils cs).head? == some '"'

/-- What the marks say about the text between the quotes. -/
structure StringStyle where
  interpolated : Bool
  verbatim : Bool
deriving DecidableEq, Repr

/-- A dollar anywhere makes a string interpolated, an at sign verbatim. -/
def StringStyle.ofSigils (marks : List Char) : StringStyle :=
  ⟨marks.contains '$', marks.contains '@'⟩

/-! ## Raw strings -/

/-- The quotes at the head of a text. -/
def leadingQuotes (cs : List Char) : Nat := (cs.takeWhile (· == '"')).length

/-- A raw string opens with three or more quotes. -/
def startsRaw (cs : List Char) : Bool := decide (3 ≤ leadingQuotes cs)

/-- Extent up to and with the first run of `n` quotes, or of the whole text. -/
def fenceTail (n : Nat) : List Char → Nat
  | [] => 0
  | c :: cs =>
    if (List.replicate n '"').isPrefixOf (c :: cs) then n else 1 + fenceTail n cs

/-- Extent of a raw string from its fence on. -/
def rawExtent (cs : List Char) : Nat :=
  leadingQuotes cs + fenceTail (leadingQuotes cs) (cs.drop (leadingQuotes cs))

/-! ## Strings with holes -/

/-- Extent of the part of a string after its opening quote. `depth` counts the open braces
of the hole that the text stands in, and is 0 between the holes. -/
def stringTail (style : StringStyle) (depth : Nat) : List Char → Nat
  | [] => 0
  | c :: cs =>
    if depth = 0 then
      if style.interpolated && c == '{' then
        if cs.head? = some '{' then 2 + stringTail style 0 (cs.drop 1)
        else 1 + stringTail style 1 cs
      else if c == '\\' && !style.verbatim then
        match cs with
        | [] => 2
        | _ :: rest => 2 + stringTail style 0 rest
      else if c = '"' then
        if style.verbatim && cs.head? == some '"' then 2 + stringTail style 0 (cs.drop 1) else 1
      else if c == '\n' && !style.verbatim then 0
      else 1 + stringTail style 0 cs
    else if startsString (c :: cs) then
      let marks := sigils (c :: cs)
      let quote := afterSigils (c :: cs)
      let extent := marks.length +
        if startsRaw quote then rawExtent quote
        else 1 + stringTail (.ofSigils marks) 0 (quote.drop 1)
      extent + stringTail style depth (cs.drop (extent - 1))
    else if c = '\'' then
      1 + charTail cs + stringTail style depth (cs.drop (charTail cs))
    else if c = '{' then 1 + stringTail style (depth + 1) cs
    else if c = '}' then 1 + stringTail style (depth - 1) cs
    else 1 + stringTail style depth cs
termination_by cs => cs.length
decreasing_by
  all_goals simp only [List.length_cons, List.length_drop]
  all_goals first
    | omega
    | exact length_afterSigils_cons c cs

/-- Extent of a string from its opening quote on, whatever stands in the quote's place. -/
def quotedExtent (style : StringStyle) (cs : List Char) : Nat :=
  if startsRaw cs then rawExtent cs else 1 + stringTail style 0 (cs.drop 1)

/-- Extent of a string with the marks before its quote. -/
def stringExtent (cs : List Char) : Nat :=
  (sigils cs).length + quotedExtent (.ofSigils (sigils cs)) (afterSigils cs)

/-- A string within a hole is skipped as a whole. -/
theorem stringTail_of_startsString (style : StringStyle) {depth : Nat} (c : Char) (cs : List Char)
    (hdepth : depth ≠ 0) (h : startsString (c :: cs) = true) :
    stringTail style depth (c :: cs) =
      stringExtent (c :: cs) + stringTail style depth (cs.drop (stringExtent (c :: cs) - 1)) := by
  rw [stringTail.eq_def]
  simp only [if_neg hdepth, if_pos h]
  rfl

/-- What a string takes next at `c :: cs`, and the depth at which it goes on; none if it ends
there. -/
def stringMove (style : StringStyle) (depth : Nat) (c : Char) (cs : List Char) : Nat × Option Nat :=
  if depth = 0 then
    if style.interpolated && c == '{' then
      if cs.head? = some '{' then (2, some 0) else (1, some 1)
    else if c == '\\' && !style.verbatim then (2, some 0)
    else if c = '"' then
      if style.verbatim && cs.head? == some '"' then (2, some 0) else (1, none)
    else if c == '\n' && !style.verbatim then (0, none)
    else (1, some 0)
  else if startsString (c :: cs) then (stringExtent (c :: cs), some depth)
  else if c = '\'' then (1 + charTail cs, some depth)
  else if c = '{' then (1, some (depth + 1))
  else if c = '}' then (1, some (depth - 1))
  else (1, some depth)

/-- Extent of a string at the head of a text; none if the text ends within the marks, so
that nothing stands in the place of the opening quote. -/
def stringExtent? (cs : List Char) : Option Nat :=
  if (afterSigils cs).isEmpty then none else some (stringExtent cs)

end RegionScope.Source
