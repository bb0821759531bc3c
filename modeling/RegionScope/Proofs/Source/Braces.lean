import RegionScope.Proofs.Brackets
import RegionScope.Proofs.Source.Tokens
import RegionScope.Proofs.Source.Frontier

/-!
# Pairs of braces

The significant braces of a text match like brackets (`bracePairs`): a closing brace with nothing
open is passed over, and a brace that is never closed reaches to the end of the text. Two pairs
lie apart or one inside the other (`bracePairs_laminar`).

`Scan` says what a pass knows between two tokens about the pairs whose opening brace it has seen:
which of them are still open, and that these are the ones that have not been closed before.
-/

namespace RegionScope.Source

open RegionScope.Brackets

/-- The offsets of an opening brace and of the brace that closes it, or the end of the text. -/
structure BracePair where
  opening : Nat
  closing : Nat
deriving DecidableEq, Repr

/-- The offset at which the brace is closed inside of which `depth` others are open, `stop` if it
is never closed. -/
def closingOffset (stop depth : Nat) (tokens : List Token) : Nat :=
  ((closer? Token.opensBrace Token.closesBrace depth tokens).map (·.start)).getD stop

/-- The pairs of braces of a list of tokens in the order of the opening braces. -/
def bracePairsOf (stop : Nat) (tokens : List Token) : List BracePair :=
  (pairs Token.opensBrace Token.closesBrace tokens).map fun pair =>
    ⟨pair.1.start, (pair.2.map (·.start)).getD stop⟩

/-- The pairs of braces of a text in the order of the opening braces. -/
def bracePairs (text : List Char) : List BracePair := bracePairsOf text.length (lex text)

/-- The offset of the first token, `stop` if there is none. -/
def startOr (stop : Nat) (tokens : List Token) : Nat := (tokens.head?.map (·.start)).getD stop

/-- The offset of the first significant token, `stop` if there is none. -/
def significantOr (stop : Nat) (tokens : List Token) : Nat :=
  ((tokens.find? (·.lexeme.isSignificant)).map (·.start)).getD stop

/-- The first significant offset behind `pos`, the end of the text if there is none. -/
def nextSignificant (text : List Char) (pos : Nat) : Nat :=
  significantOr text.length ((lex text).filter (pos < ·.start))

/-! ## Offsets in an ordered list of tokens -/

/-- The tokens stand in increasing order in front of `stop`. -/
def Ordered (stop : Nat) (tokens : List Token) : Prop :=
  tokens.Pairwise (·.start < ·.start) ∧ ∀ token ∈ tokens, token.start < stop

section Ordered

variable {stop depth : Nat} {token : Token} {rest : List Token}

theorem ordered_lex (text : List Char) : Ordered text.length (lex text) :=
  ⟨lex_pairwise_lt text, fun _ h => start_lt_of_mem_lex h⟩

theorem Ordered.tail (h : Ordered stop (token :: rest)) : Ordered stop rest :=
  ⟨(List.pairwise_cons.1 h.1).2, fun t ht => h.2 t (List.mem_cons_of_mem token ht)⟩

theorem startOr_cons : startOr stop (token :: rest) = token.start := rfl

theorem Ordered.start_lt_startOr (h : Ordered stop (token :: rest)) :
    token.start < startOr stop rest := by
  cases rest with
  | nil => exact h.2 token List.mem_cons_self
  | cons next rest => exact (List.pairwise_cons.1 h.1).1 next List.mem_cons_self

theorem Ordered.startOr_le (h : Ordered stop rest) (hmem : token ∈ rest) :
    startOr stop rest ≤ token.start := by
  cases rest with
  | nil => cases hmem
  | cons next rest =>
    rcases List.mem_cons.1 hmem with rfl | hmem
    · exact Nat.le_refl _
    · exact Nat.le_of_lt ((List.pairwise_cons.1 h.1).1 token hmem)

theorem Ordered.startOr_le_stop (h : Ordered stop rest) : startOr stop rest ≤ stop := by
  cases rest with
  | nil => exact Nat.le_refl _
  | cons next rest => exact Nat.le_of_lt (h.2 next List.mem_cons_self)

/-- A brace that is still open is not closed before the next token. -/
theorem Ordered.startOr_le_closingOffset (h : Ordered stop rest) (depth : Nat) :
    startOr stop rest ≤ closingOffset stop depth rest := by
  unfold closingOffset
  cases hcloser : closer? Token.opensBrace Token.closesBrace depth rest with
  | none => exact h.startOr_le_stop
  | some token => exact h.startOr_le (mem_of_closer? hcloser)

theorem closingOffset_cons_of_opensBrace (h : token.opensBrace = true) :
    closingOffset stop depth (token :: rest) = closingOffset stop (depth + 1) rest := by
  rw [closingOffset, closer?_cons_of_opens h, closingOffset]

theorem closingOffset_zero_cons_of_closesBrace (hopens : token.opensBrace = false)
    (h : token.closesBrace = true) : closingOffset stop 0 (token :: rest) = token.start := by
  rw [closingOffset, closer?_zero_cons_of_closes hopens h]
  rfl

theorem closingOffset_succ_cons_of_closesBrace (hopens : token.opensBrace = false)
    (h : token.closesBrace = true) :
    closingOffset stop (depth + 1) (token :: rest) = closingOffset stop depth rest := by
  rw [closingOffset, closer?_succ_cons_of_closes hopens h, closingOffset]

theorem closingOffset_cons_of_neither (hopens : token.opensBrace = false)
    (h : token.closesBrace = false) :
    closingOffset stop depth (token :: rest) = closingOffset stop depth rest := by
  rw [closingOffset, closer?_cons_of_neither hopens h, closingOffset]

theorem bracePairsOf_nil : bracePairsOf stop [] = [] := rfl

theorem bracePairsOf_cons_of_opensBrace (h : token.opensBrace = true) :
    bracePairsOf stop (token :: rest) =
      ⟨token.start, closingOffset stop 0 rest⟩ :: bracePairsOf stop rest := by
  rw [bracePairsOf, pairs_cons_of_opens h, List.map_cons, bracePairsOf, closingOffset]

theorem bracePairsOf_cons_of_not_opensBrace (h : token.opensBrace = false) :
    bracePairsOf stop (token :: rest) = bracePairsOf stop rest := by
  rw [bracePairsOf, pairs_cons_of_not_opens h, bracePairsOf]

theorem significantOr_cons_of_isSignificant (h : token.lexeme.isSignificant = true) :
    significantOr stop (token :: rest) = token.start := by
  simp [significantOr, h]

theorem significantOr_cons_of_not_isSignificant (h : token.lexeme.isSignificant = false) :
    significantOr stop (token :: rest) = significantOr stop rest := by
  simp [significantOr, h]

/-- Behind the offset of a token stand the tokens behind it. -/
theorem nextSignificant_eq {text : List Char} {before : List Token}
    (hsplit : before ++ token :: rest = lex text) :
    nextSignificant text token.start = significantOr text.length rest := by
  obtain ⟨hbefore, hrest⟩ := start_lt_of_lex_eq hsplit.symm
  have hnone : before.filter (token.start < ·.start) = [] := by
    rw [List.filter_eq_nil_iff]
    intro t ht
    have := hbefore t ht
    simp only [decide_eq_true_eq]
    omega
  have hall : rest.filter (token.start < ·.start) = rest := by
    rw [List.filter_eq_self]
    intro t ht
    exact decide_eq_true (hrest t ht)
  rw [nextSignificant, ← hsplit, List.filter_append, hnone, List.nil_append,
    List.filter_cons_of_neg (by simp), hall]

end Ordered

/-! ## Pairs lie apart or one inside the other -/

theorem Ordered.startOr_le_opening {stop : Nat} {tokens : List Token} (h : Ordered stop tokens)
    {pair : BracePair} (hpair : pair ∈ bracePairsOf stop tokens) :
    startOr stop tokens ≤ pair.opening := by
  induction tokens with
  | nil => cases hpair
  | cons token rest ih =>
    rw [startOr_cons]
    have hlt := h.start_lt_startOr
    cases hopens : token.opensBrace with
    | false =>
      rw [bracePairsOf_cons_of_not_opensBrace hopens] at hpair
      have := ih h.tail hpair
      omega
    | true =>
      rw [bracePairsOf_cons_of_opensBrace hopens] at hpair
      rcases List.mem_cons.1 hpair with rfl | hpair
      · exact Nat.le_refl _
      · have := ih h.tail hpair
        omega

theorem Ordered.closingOffset_le {stop : Nat} {tokens : List Token} (h : Ordered stop tokens)
    (depth : Nat) : closingOffset stop depth tokens ≤ stop := by
  unfold closingOffset
  cases hcloser : closer? Token.opensBrace Token.closesBrace depth tokens with
  | none => exact Nat.le_refl _
  | some token => exact Nat.le_of_lt (h.2 token (mem_of_closer? hcloser))

/-- A pair is closed behind its opening brace, at the latest at the end. -/
theorem Ordered.bounds_of_mem {stop : Nat} {tokens : List Token} (h : Ordered stop tokens)
    {pair : BracePair} (hpair : pair ∈ bracePairsOf stop tokens) :
    pair.opening < pair.closing ∧ pair.closing ≤ stop := by
  induction tokens with
  | nil => cases hpair
  | cons token rest ih =>
    cases hopens : token.opensBrace with
    | false =>
      rw [bracePairsOf_cons_of_not_opensBrace hopens] at hpair
      exact ih h.tail hpair
    | true =>
      rw [bracePairsOf_cons_of_opensBrace hopens] at hpair
      rcases List.mem_cons.1 hpair with rfl | hpair
      · have hle := h.tail.startOr_le_closingOffset 0
        exact ⟨Nat.lt_of_lt_of_le h.start_lt_startOr hle, h.tail.closingOffset_le 0⟩
      · exact ih h.tail hpair

/-- An open brace around others is closed behind them, unless it is never closed. -/
theorem Ordered.closingOffset_lt {stop : Nat} {tokens : List Token} (h : Ordered stop tokens)
    {inner outer : Nat} (hlt : inner < outer) :
    closingOffset stop inner tokens < closingOffset stop outer tokens ∨
      closingOffset stop outer tokens = stop := by
  induction tokens generalizing inner outer with
  | nil => exact .inr rfl
  | cons token rest ih =>
    cases hopens : token.opensBrace with
    | true =>
      rw [closingOffset_cons_of_opensBrace hopens, closingOffset_cons_of_opensBrace hopens]
      exact ih h.tail (Nat.succ_lt_succ hlt)
    | false =>
      cases hcloses : token.closesBrace with
      | false =>
        rw [closingOffset_cons_of_neither hopens hcloses,
          closingOffset_cons_of_neither hopens hcloses]
        exact ih h.tail hlt
      | true =>
        obtain ⟨outer, rfl⟩ := Nat.exists_eq_succ_of_ne_zero (Nat.ne_zero_of_lt hlt)
        rw [closingOffset_succ_cons_of_closesBrace hopens hcloses]
        cases inner with
        | zero =>
          -- the inner brace is closed here, and the outer one behind it
          rw [closingOffset_zero_cons_of_closesBrace hopens hcloses]
          have hle := h.tail.startOr_le_closingOffset outer
          exact .inl (Nat.lt_of_lt_of_le h.start_lt_startOr hle)
        | succ inner =>
          rw [closingOffset_succ_cons_of_closesBrace hopens hcloses]
          exact ih h.tail (Nat.lt_of_succ_lt_succ hlt)

/-- A pair that opens behind an open brace opens behind the place where that brace is closed, or
is closed before that place, unless the open brace is never closed. -/
theorem Ordered.closing_cases {stop : Nat} {tokens : List Token} (h : Ordered stop tokens)
    (depth : Nat) {pair : BracePair} (hpair : pair ∈ bracePairsOf stop tokens) :
    closingOffset stop depth tokens < pair.opening ∨
      pair.closing < closingOffset stop depth tokens ∨ closingOffset stop depth tokens = stop := by
  induction tokens generalizing depth with
  | nil => cases hpair
  | cons token rest ih =>
    cases hopens : token.opensBrace with
    | true =>
      rw [closingOffset_cons_of_opensBrace hopens]
      rw [bracePairsOf_cons_of_opensBrace hopens] at hpair
      rcases List.mem_cons.1 hpair with rfl | hpair
      · -- the pair begins here, inside of the open brace
        exact .inr (h.tail.closingOffset_lt (Nat.zero_lt_succ depth))
      · exact ih h.tail (depth + 1) hpair
    | false =>
      rw [bracePairsOf_cons_of_not_opensBrace hopens] at hpair
      cases hcloses : token.closesBrace with
      | false =>
        rw [closingOffset_cons_of_neither hopens hcloses]
        exact ih h.tail depth hpair
      | true =>
        cases depth with
        | zero =>
          -- the open brace is closed here, in front of the pair
          rw [closingOffset_zero_cons_of_closesBrace hopens hcloses]
          have hle := h.tail.startOr_le_opening hpair
          exact .inl (Nat.lt_of_lt_of_le h.start_lt_startOr hle)
        | succ depth =>
          rw [closingOffset_succ_cons_of_closesBrace hopens hcloses]
          exact ih h.tail depth hpair

theorem Ordered.bracePairsOf_pairwise {stop : Nat} {tokens : List Token} (h : Ordered stop tokens) :
    (bracePairsOf stop tokens).Pairwise fun outer inner => outer.opening < inner.opening ∧
      (outer.closing < inner.opening ∨ inner.closing < outer.closing ∨ outer.closing = stop) := by
  induction tokens with
  | nil => exact List.Pairwise.nil
  | cons token rest ih =>
    cases hopens : token.opensBrace with
    | false =>
      rw [bracePairsOf_cons_of_not_opensBrace hopens]
      exact ih h.tail
    | true =>
      rw [bracePairsOf_cons_of_opensBrace hopens]
      refine List.pairwise_cons.2 ⟨?_, ih h.tail⟩
      intro inner hinner
      have hle := h.tail.startOr_le_opening hinner
      exact ⟨Nat.lt_of_lt_of_le h.start_lt_startOr hle, h.tail.closing_cases 0 hinner⟩

/-- Of two pairs of a text the later one opens behind the end of the earlier one, or is closed
before it, or the earlier one is never closed. -/
theorem bracePairs_laminar (text : List Char) :
    (bracePairs text).Pairwise fun outer inner => outer.opening < inner.opening ∧
      (outer.closing < inner.opening ∨ inner.closing < outer.closing ∨
        outer.closing = text.length) :=
  (ordered_lex text).bracePairsOf_pairwise

/-! ## The open pairs of a pass -/

/-- A pair of braces with the node that its opening brace opens, and with the block below that
node if it owns one. -/
structure Enclosure where
  owner : Nat
  block? : Option Nat
  pair : BracePair

/-- The enclosures that the place `pos` lies in, the innermost one first. -/
def enclosing (placed : List Enclosure) (pos : Nat) : List Enclosure :=
  (placed.filter fun e => e.pair.opening ≤ pos ∧ pos ≤ e.pair.closing).reverse

/-- The enclosures strictly around the place `pos`, the innermost one first. -/
def strictlyEnclosing (placed : List Enclosure) (pos : Nat) : List Enclosure :=
  (placed.filter fun e => e.pair.opening < pos ∧ pos < e.pair.closing).reverse

/-- What a pass knows between two tokens: the enclosures whose opening brace it has seen, and
those of them that are open, the innermost one first. -/
structure Scan (stop : Nat) (rest : List Token) (placed opened : List Enclosure) : Prop where
  ordered : Ordered stop rest
  opening_lt : ∀ e ∈ placed, e.pair.opening < startOr stop rest
  closing_eq : ∀ depth e, opened[depth]? = some e → e.pair.closing = closingOffset stop depth rest
  live : placed.filter (fun e => startOr stop rest ≤ e.pair.closing) = opened.reverse

namespace Scan

variable {stop : Nat} {token : Token} {rest : List Token} {placed opened : List Enclosure}
  {e : Enclosure}

/-- What is open is not closed before the next token. -/
theorem startOr_le_closing (h : Scan stop rest placed opened) (he : e ∈ opened) :
    startOr stop rest ≤ e.pair.closing := by
  obtain ⟨depth, hdepth⟩ := List.mem_iff_getElem?.1 he
  rw [h.closing_eq depth e hdepth]
  exact h.ordered.startOr_le_closingOffset depth

/-- Enclosures with the ends of open braces are not closed before the next token. -/
theorem live_of_closing_eq (hordered : Ordered stop rest)
    (hclosing : ∀ depth e, opened[depth]? = some e →
      e.pair.closing = closingOffset stop depth rest) :
    opened.reverse.filter (fun e => startOr stop rest ≤ e.pair.closing) = opened.reverse := by
  rw [List.filter_eq_self]
  intro e he
  obtain ⟨depth, hdepth⟩ := List.mem_iff_getElem?.1 (List.mem_reverse.1 he)
  rw [hclosing depth e hdepth]
  exact decide_eq_true (hordered.startOr_le_closingOffset depth)

/-- What was closed before one token is so before the next token. -/
theorem live_tail (h : Scan stop (token :: rest) placed opened) :
    placed.filter (fun e => startOr stop rest ≤ e.pair.closing) =
      opened.reverse.filter (fun e => startOr stop rest ≤ e.pair.closing) := by
  have hlt := h.ordered.start_lt_startOr
  rw [← h.live, List.filter_filter]
  apply List.filter_congr
  intro e _
  rw [startOr_cons, ← Bool.decide_and]
  exact decide_eq_decide.2 (by omega)

theorem start (stop : Nat) {tokens : List Token} (h : Ordered stop tokens) :
    Scan stop tokens [] [] where
  ordered := h
  opening_lt := fun e he => by cases he
  closing_eq := fun depth e he => by cases he
  live := rfl

theorem opening_lt_tail (h : Scan stop (token :: rest) placed opened) (he : e ∈ placed) :
    e.pair.opening < startOr stop rest :=
  Nat.lt_trans (h.opening_lt e he) h.ordered.start_lt_startOr

/-- A token that is no brace changes nothing. -/
theorem pass (h : Scan stop (token :: rest) placed opened) (hopens : token.opensBrace = false)
    (hcloses : token.closesBrace = false) : Scan stop rest placed opened := by
  have hclosing : ∀ depth e, opened[depth]? = some e →
      e.pair.closing = closingOffset stop depth rest := by
    intro depth e he
    rw [h.closing_eq depth e he, closingOffset_cons_of_neither hopens hcloses]
  refine ⟨h.ordered.tail, fun e he => h.opening_lt_tail he, hclosing, ?_⟩
  rw [h.live_tail, live_of_closing_eq h.ordered.tail hclosing]

/-- An opening brace opens the pair that it begins. -/
theorem descend (h : Scan stop (token :: rest) placed opened) (hopens : token.opensBrace = true)
    (he : e.pair = ⟨token.start, closingOffset stop 0 rest⟩) :
    Scan stop rest (placed ++ [e]) (e :: opened) := by
  have hclosing : ∀ depth e', (e :: opened)[depth]? = some e' →
      e'.pair.closing = closingOffset stop depth rest := by
    intro depth e' he'
    cases depth with
    | zero =>
      obtain rfl := Option.some.inj he'
      rw [he]
    | succ depth => rw [h.closing_eq depth e' he', closingOffset_cons_of_opensBrace hopens]
  refine ⟨h.ordered.tail, ?_, hclosing, ?_⟩
  · intro e' he'
    rcases List.mem_append.1 he' with hold | hnew
    · exact h.opening_lt_tail hold
    · obtain rfl := List.mem_singleton.1 hnew
      rw [he]
      exact h.ordered.start_lt_startOr
  · rw [List.filter_append, h.live_tail, ← List.filter_append, ← List.reverse_cons,
      live_of_closing_eq h.ordered.tail hclosing]

/-- A closing brace closes the innermost open pair. -/
theorem close (h : Scan stop (token :: rest) placed (e :: opened))
    (hopens : token.opensBrace = false) (hcloses : token.closesBrace = true) :
    Scan stop rest placed opened := by
  have hclosing : ∀ depth e', opened[depth]? = some e' →
      e'.pair.closing = closingOffset stop depth rest := by
    intro depth e' he'
    rw [h.closing_eq (depth + 1) e' he', closingOffset_succ_cons_of_closesBrace hopens hcloses]
  refine ⟨h.ordered.tail, fun e he => h.opening_lt_tail he, hclosing, ?_⟩
  -- the innermost pair ends at this token, and nothing else does
  have hclosed : e.pair.closing = token.start := by
    rw [h.closing_eq 0 e rfl, closingOffset_zero_cons_of_closesBrace hopens hcloses]
  have hgone : ¬ startOr stop rest ≤ e.pair.closing := by
    rw [hclosed]
    exact Nat.not_le.2 h.ordered.start_lt_startOr
  rw [h.live_tail, List.reverse_cons, List.filter_append,
    List.filter_cons_of_neg (by simpa using hgone), List.filter_nil, List.append_nil,
    live_of_closing_eq h.ordered.tail hclosing]

/-- A closing brace with nothing open closes nothing. -/
theorem close_nil (h : Scan stop (token :: rest) placed []) : Scan stop rest placed [] where
  ordered := h.ordered.tail
  opening_lt := fun e he => h.opening_lt_tail he
  closing_eq := fun depth e he => by cases he
  live := h.live_tail

/-- The next token stands in what is open. -/
theorem enclosing_startOr (h : Scan stop rest placed opened) :
    enclosing placed (startOr stop rest) = opened := by
  have hlive : placed.filter (fun e => e.pair.opening ≤ startOr stop rest ∧
      startOr stop rest ≤ e.pair.closing) = opened.reverse := by
    rw [← h.live]
    refine List.filter_congr fun e he => decide_eq_decide.2 ?_
    exact and_iff_right (Nat.le_of_lt (h.opening_lt e he))
  rw [enclosing, hlive, List.reverse_reverse]

/-- An opening brace stands strictly in what is open before it. -/
theorem strictlyEnclosing_start (h : Scan stop (token :: rest) placed opened)
    (hopens : token.opensBrace = true) : strictlyEnclosing placed token.start = opened := by
  have hlive := h.live
  rw [startOr_cons] at hlive
  have hstrict : placed.filter (fun e => e.pair.opening < token.start ∧
      token.start < e.pair.closing) = opened.reverse := by
    rw [← hlive]
    refine List.filter_congr fun e he => decide_eq_decide.2 ?_
    have hopening : e.pair.opening < token.start := h.opening_lt e he
    rw [and_iff_right hopening]
    constructor
    · exact Nat.le_of_lt
    · -- an opening brace closes nothing, so what is open reaches beyond it
      intro hle
      have hmem : e ∈ opened.reverse := by
        rw [← hlive]
        exact List.mem_filter.2 ⟨he, decide_eq_true hle⟩
      obtain ⟨depth, hdepth⟩ := List.mem_iff_getElem?.1 (List.mem_reverse.1 hmem)
      rw [h.closing_eq depth e hdepth, closingOffset_cons_of_opensBrace hopens]
      exact Nat.lt_of_lt_of_le h.ordered.start_lt_startOr
        (h.ordered.tail.startOr_le_closingOffset (depth + 1))
  rw [strictlyEnclosing, hstrict, List.reverse_reverse]

end Scan

/-- A place before an enclosure does not lie in it. -/
theorem enclosing_append {placed : List Enclosure} {e : Enclosure} {pos : Nat}
    (h : pos < e.pair.opening) : enclosing (placed ++ [e]) pos = enclosing placed pos := by
  have hnot : ¬ (e.pair.opening ≤ pos ∧ pos ≤ e.pair.closing) := by omega
  simp [enclosing, hnot]

theorem strictlyEnclosing_append {placed : List Enclosure} {e : Enclosure} {pos : Nat}
    (h : pos ≤ e.pair.opening) :
    strictlyEnclosing (placed ++ [e]) pos = strictlyEnclosing placed pos := by
  have hnot : ¬ (e.pair.opening < pos ∧ pos < e.pair.closing) := by omega
  simp [strictlyEnclosing, hnot]

/-- A brace lies in the enclosure that it opens. -/
theorem enclosing_append_opening {placed : List Enclosure} {e : Enclosure}
    (h : e.pair.opening ≤ e.pair.closing) :
    enclosing (placed ++ [e]) e.pair.opening = e :: enclosing placed e.pair.opening := by
  simp [enclosing, h]

end RegionScope.Source
