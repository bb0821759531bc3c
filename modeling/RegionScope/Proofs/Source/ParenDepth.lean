import Mathlib.Data.List.Infix
import RegionScope.Proofs.Source.Braces
import RegionScope.Proofs.Source.OpenNodes

/-!
# The depth of parentheses

The parentheses that are open at an offset are those of its brace level: the ones behind all braces
that are open there, without what stands in pairs that are closed before (`parenDepth`). In front of
every offset the pass has counted them on its innermost level (`parens_upTo`).

The pass keeps a count for each open pair and one for the root. Between two tokens each of them is
the count over the tokens that stand in that pair and in no pair inside of it (`Counting`). What
stands between two braces that match changes nothing around them, so behind a closed pair the whole
stack is what it was in front of its opening brace (`levels_behind_pair`).
-/

namespace RegionScope.Source

open RegionScope.Brackets RegionScope.Text

/-- Whether an offset lies in a pair, behind its opening brace and not behind its closing one. -/
def BracePair.Holds (pair : BracePair) (pos : Nat) : Prop :=
  pair.opening < pos ∧ pos ≤ pair.closing

instance (pair : BracePair) (pos : Nat) : Decidable (pair.Holds pos) :=
  inferInstanceAs (Decidable (_ ∧ _))

/-- Whether the offset `start` stands in front of `pos` on its brace level: behind every brace that
is open at `pos`, and in no pair that is closed in front of `pos`. -/
def OnLevel (text : List Char) (pos start : Nat) : Prop :=
  start < pos ∧ ∀ pair ∈ bracePairs text,
    (pair.Holds pos → pair.opening < start) ∧ (pair.closing < pos → ¬ pair.Holds start)

instance (text : List Char) (pos start : Nat) : Decidable (OnLevel text pos start) :=
  inferInstanceAs (Decidable (_ ∧ ∀ _ ∈ _, _))

/-- The parentheses that are open at an offset: the opening ones without the closing ones on its
brace level, where a closing one beyond the open ones does not count. -/
def parenDepth (text : List Char) (pos : Nat) : Nat :=
  ((lex text).filter fun token => OnLevel text pos token.start).foldl Outline.parenStep 0

/-- The pairs that an offset lies in, the innermost one first. -/
def openAt (text : List Char) (pos : Nat) : List BracePair :=
  ((bracePairs text).filter fun pair => pair.Holds pos).reverse

/-- The count over the tokens that lie in the pairs of `key` and in no others. -/
def levelDepth (text : List Char) (before : List Token) (key : List BracePair) : Nat :=
  (before.filter fun token => openAt text token.start = key).foldl Outline.parenStep 0

namespace Outline

/-- The open parentheses of the open levels, the innermost one first. -/
def depths (s : Outline) : List Nat := (s.level :: s.outer).map (·.parens)

end Outline

variable {text : List Char} {before rest : List Token} {token : Token} {pos : Nat}

/-! ## The level of an offset -/

theorem mem_openAt_iff {pair : BracePair} :
    pair ∈ openAt text pos ↔ pair ∈ bracePairs text ∧ pair.Holds pos := by
  rw [openAt, List.mem_reverse, List.mem_filter, decide_eq_true_iff]

theorem openAt_congr {pos' : Nat} (h : ∀ pair ∈ bracePairs text, pair.Holds pos ↔ pair.Holds pos') :
    openAt text pos = openAt text pos' := by
  rw [openAt, openAt]
  congr 1
  exact List.filter_congr fun pair hpair => decide_eq_decide.2 (h pair hpair)

/-- What stands on the level of an offset lies in the same pairs. -/
theorem onLevel_iff {start : Nat} (h : start < pos) :
    OnLevel text pos start ↔ openAt text start = openAt text pos := by
  constructor
  · rintro ⟨-, hlevel⟩
    refine openAt_congr fun pair hpair => ?_
    obtain ⟨hopen, hclosed⟩ := hlevel pair hpair
    constructor
    · intro hstart
      refine ⟨Nat.lt_trans hstart.1 h, Nat.le_of_not_lt fun hlt => hclosed hlt hstart⟩
    · intro hpos
      exact ⟨hopen hpos, (Nat.le_of_lt h).trans hpos.2⟩
  · intro heq
    have hholds : ∀ pair ∈ bracePairs text, pair.Holds start ↔ pair.Holds pos := by
      intro pair hpair
      have hmem : pair ∈ openAt text start ↔ pair ∈ openAt text pos := by rw [heq]
      rwa [mem_openAt_iff, mem_openAt_iff, and_iff_right hpair, and_iff_right hpair] at hmem
    refine ⟨h, fun pair hpair => ⟨fun hpos => ((hholds pair hpair).2 hpos).1, fun hlt hstart => ?_⟩⟩
    have := ((hholds pair hpair).1 hstart).2
    omega

/-- The depth is the count over the tokens in front that lie in the same pairs. -/
theorem parenDepth_eq (hsplit : before ++ rest = lex text) (hbefore : ∀ t ∈ before, t.start < pos)
    (hrest : ∀ t ∈ rest, pos ≤ t.start) :
    parenDepth text pos = levelDepth text before (openAt text pos) := by
  have hnone : rest.filter (fun t => OnLevel text pos t.start) = [] := by
    rw [List.filter_eq_nil_iff]
    intro t ht hlevel
    have hlt := (of_decide_eq_true hlevel).1
    exact absurd (hrest t ht) (Nat.not_le.2 hlt)
  rw [parenDepth, levelDepth, ← hsplit, List.filter_append, hnone, List.append_nil]
  congr 1
  exact List.filter_congr fun t ht => decide_eq_decide.2 (onLevel_iff (hbefore t ht))

theorem levelDepth_concat (text : List Char) (before : List Token) (token : Token)
    (key : List BracePair) : levelDepth text (before ++ [token]) key =
      if openAt text token.start = key then Outline.parenStep (levelDepth text before key) token
      else levelDepth text before key := by
  rw [levelDepth, List.filter_append, List.foldl_append, ← levelDepth]
  by_cases hkey : openAt text token.start = key
  · rw [if_pos hkey, List.filter_cons_of_pos (by exact decide_eq_true hkey)]
    rfl
  · rw [if_neg hkey, List.filter_cons_of_neg (by simpa using hkey)]
    rfl

/-- A brace is no parenthesis. -/
theorem parenStep_of_brace (h : token.opensBrace = true ∨ token.closesBrace = true) (depth : Nat) :
    Outline.parenStep depth token = depth := by
  have hlexeme : token.lexeme = .code '\x7b' ∨ token.lexeme = .code '\x7d' :=
    h.imp Token.opensBrace_iff.1 Token.closesBrace_iff.1
  unfold Outline.parenStep
  rcases hlexeme with hlexeme | hlexeme
  · rw [hlexeme, if_neg (by decide), if_neg (by decide)]
  · rw [hlexeme, if_neg (by decide), if_neg (by decide)]

theorem levelDepth_concat_brace (h : token.opensBrace = true ∨ token.closesBrace = true)
    (key : List BracePair) :
    levelDepth text (before ++ [token]) key = levelDepth text before key := by
  rw [levelDepth_concat, parenStep_of_brace h, ite_self]

/-- In a pair that opens behind all tokens no parentheses are open. -/
theorem levelDepth_eq_zero {pair : BracePair} (h : ∀ t ∈ before, t.start ≤ pair.opening)
    (key : List BracePair) : levelDepth text before (pair :: key) = 0 := by
  have hnone : before.filter (fun t => openAt text t.start = pair :: key) = [] := by
    rw [List.filter_eq_nil_iff]
    intro t ht hkey
    have hmem : pair ∈ openAt text t.start := by
      rw [of_decide_eq_true hkey]
      exact List.mem_cons_self
    exact absurd (mem_openAt_iff.1 hmem).2.1 (Nat.not_lt.2 (h t ht))
  rw [levelDepth, hnone]
  rfl

/-- Only the level of a token counts it. -/
theorem map_levelDepth_concat {key : List BracePair} (h : openAt text token.start = key) :
    key.tails.map (levelDepth text (before ++ [token])) =
      Outline.parenStep (levelDepth text before key) token ::
        (key.tails.map (levelDepth text before)).tail := by
  have hself : levelDepth text (before ++ [token]) key =
      Outline.parenStep (levelDepth text before key) token := by
    rw [levelDepth_concat, if_pos h]
  cases key with
  | nil => exact congrArg (· :: []) hself
  | cons pair key =>
    rw [List.tails_cons, List.map_cons, List.map_cons, List.tail_cons, hself]
    congr 1
    refine List.map_congr_left fun outer houter => ?_
    rw [levelDepth_concat, if_neg]
    -- the levels around lie in fewer pairs
    intro heq
    have hlength := ((List.mem_tails _ _).1 houter).length_le
    rw [← heq, h, List.length_cons] at hlength
    omega

/-! ## The counts of a pass -/

/-- The pairs that the next token lies in are those that are open. -/
theorem openAt_startOr {placed opened : List Enclosure}
    (hscan : Scan text.length rest placed opened)
    (hpairs : placed.map (·.pair) ++ bracePairsOf text.length rest = bracePairs text) :
    openAt text (startOr text.length rest) = opened.map (·.pair) := by
  have hplaced : placed.filter (fun e => e.pair.Holds (startOr text.length rest)) =
      opened.reverse := by
    rw [← hscan.live]
    exact List.filter_congr fun e he => decide_eq_decide.2 (and_iff_right (hscan.opening_lt e he))
  have hrest : (bracePairsOf text.length rest).filter
      (fun pair => pair.Holds (startOr text.length rest)) = [] := by
    rw [List.filter_eq_nil_iff]
    intro pair hpair hholds
    exact absurd (of_decide_eq_true hholds).1
      (Nat.not_lt.2 (hscan.ordered.startOr_le_opening hpair))
  rw [openAt, ← hpairs, List.filter_append, hrest, List.append_nil, List.filter_map,
    ← List.map_reverse]
  show ((placed.filter fun e => e.pair.Holds (startOr text.length rest)).reverse).map _ = _
  rw [hplaced, List.reverse_reverse]

/-- Between two tokens the pass has, for each open pair and for the root, the count over the tokens
so far that stand in it and in no pair inside of it. -/
def Counting (text : List Char) (before rest : List Token) (s : Outline) : Prop :=
  ∃ placed opened, Scan text.length rest placed opened ∧
    placed.map (·.pair) ++ bracePairsOf text.length rest = bracePairs text ∧
    s.depths = (opened.map (·.pair)).tails.map (levelDepth text before)

namespace Counting

variable {lines : LineIndex} {s : Outline}

theorem start (text : List Char) : Counting text [] (lex text) .start :=
  ⟨[], [], Scan.start _ (ordered_lex text), rfl, rfl⟩

theorem parens_of_depths {key : List BracePair}
    (h : s.depths = key.tails.map (levelDepth text before)) :
    s.level.parens = levelDepth text before key := by
  cases key with
  | nil => exact (List.cons.inj h).1
  | cons pair key =>
    rw [List.tails_cons, List.map_cons] at h
    exact (List.cons.inj h).1

theorem outer_of_depths {key : List BracePair}
    (h : s.depths = key.tails.map (levelDepth text before)) : s.outer.length = key.length := by
  have hlength := congrArg List.length h
  rw [Outline.depths, List.length_map, List.length_cons, List.length_map,
    List.length_tails] at hlength
  omega

theorem pass (h : Counting text before (token :: rest) s) (hopens : token.opensBrace = false)
    (hcloses : token.closesBrace = false) :
    Counting text (before ++ [token]) rest (s.step lines token) := by
  obtain ⟨placed, opened, hscan, hpairs, hdepths⟩ := h
  have hlevel : openAt text token.start = opened.map (·.pair) := openAt_startOr hscan hpairs
  obtain ⟨hstep, houter⟩ := Outline.levels_of_neither lines s hopens hcloses
  refine ⟨placed, opened, hscan.pass hopens hcloses, ?_, ?_⟩
  · rw [← hpairs, bracePairsOf_cons_of_not_opensBrace hopens]
  · rw [map_levelDepth_concat hlevel, ← hdepths, ← parens_of_depths hdepths, Outline.depths, houter,
      hstep]
    rfl

/-- The level that a brace opens has no tokens yet. -/
theorem descend (hsplit : before ++ token :: rest = lex text)
    (h : Counting text before (token :: rest) s) (hopens : token.opensBrace = true) :
    Counting text (before ++ [token]) rest (s.step lines token) := by
  obtain ⟨placed, opened, hscan, hpairs, hdepths⟩ := h
  obtain ⟨hstep, houter⟩ := Outline.levels_of_opensBrace lines s hopens
  let e : Enclosure := ⟨0, none, ⟨token.start, closingOffset text.length 0 rest⟩⟩
  refine ⟨placed ++ [e], e :: opened, hscan.descend hopens rfl, ?_, ?_⟩
  · rw [← hpairs, bracePairsOf_cons_of_opensBrace hopens, List.map_append, List.append_assoc]
    rfl
  · have hfront : ∀ t ∈ before ++ [token], t.start ≤ e.pair.opening := by
      intro t ht
      rcases List.mem_append.1 ht with ht | ht
      · exact Nat.le_of_lt ((start_lt_of_lex_eq hsplit.symm).1 t ht)
      · exact Nat.le_of_eq (congrArg Token.start (List.mem_singleton.1 ht))
    have hzero : levelDepth text (before ++ [token]) (e.pair :: opened.map (·.pair)) = 0 :=
      levelDepth_eq_zero hfront _
    have hsame : (opened.map (·.pair)).tails.map (levelDepth text (before ++ [token])) =
        s.depths := by
      rw [hdepths]
      exact List.map_congr_left fun key _ => levelDepth_concat_brace (.inl hopens) key
    rw [List.map_cons, List.tails_cons, List.map_cons, hzero, hsame, Outline.depths, houter,
      List.map_cons, hstep]
    rfl

/-- Behind a closing brace the counts of the levels around are what they were. -/
theorem close (h : Counting text before (token :: rest) s) (hcloses : token.closesBrace = true) :
    Counting text (before ++ [token]) rest (s.step lines token) := by
  obtain ⟨placed, opened, hscan, hpairs, hdepths⟩ := h
  have hopens := Token.opensBrace_of_closesBrace hcloses
  have hsame : ∀ keys : List (List BracePair), keys.map (levelDepth text (before ++ [token])) =
      keys.map (levelDepth text before) := fun keys =>
    List.map_congr_left fun key _ => levelDepth_concat_brace (.inr hcloses) key
  have hlength := outer_of_depths hdepths
  rw [List.length_map] at hlength
  rw [bracePairsOf_cons_of_not_opensBrace hopens] at hpairs
  cases opened with
  | nil =>
    have hnil : s.outer = [] := List.eq_nil_of_length_eq_zero hlength
    obtain ⟨hstep, houter⟩ := Outline.levels_of_closesBrace_last lines hcloses hnil
    refine ⟨placed, [], hscan.close_nil, hpairs, ?_⟩
    rw [hsame, ← hdepths, Outline.depths, Outline.depths, hstep, houter, hnil]
  | cons e opened =>
    obtain ⟨level, outer, hcons⟩ := List.exists_cons_of_length_eq_add_one hlength
    obtain ⟨hstep, houter⟩ := Outline.levels_of_closesBrace lines hcloses hcons
    refine ⟨placed, opened, hscan.close hopens hcloses, hpairs, ?_⟩
    rw [List.map_cons, List.tails_cons, List.map_cons, Outline.depths, hcons] at hdepths
    rw [hsame, ← (List.cons.inj hdepths).2, Outline.depths, hstep, houter]

theorem step (hsplit : before ++ token :: rest = lex text)
    (h : Counting text before (token :: rest) s) :
    Counting text (before ++ [token]) rest (s.step lines token) := by
  cases hopens : token.opensBrace with
  | true => exact h.descend hsplit hopens
  | false =>
    cases hcloses : token.closesBrace with
    | true => exact h.close hcloses
    | false => exact h.pass hopens hcloses

theorem run (lines : LineIndex) (hsplit : before ++ rest = lex text) :
    Counting text before rest (Outline.run lines before) := by
  induction before using List.reverseRecOn generalizing rest with
  | nil =>
    obtain rfl : rest = lex text := hsplit
    exact start text
  | append_singleton before token ih =>
    rw [List.append_assoc, List.singleton_append] at hsplit
    rw [Outline.run, List.foldl_append]
    exact (ih hsplit).step hsplit

end Counting

/-! ## The depth in front of an offset -/

/-- The braces of a pair are tokens, or the pair is never closed. -/
theorem exists_of_mem_bracePairs {pair : BracePair} (h : pair ∈ bracePairs text) :
    (∃ t ∈ lex text, t.start = pair.opening) ∧
      (pair.closing = text.length ∨ ∃ t ∈ lex text, t.start = pair.closing) := by
  obtain ⟨⟨opening, closing?⟩, hmem, rfl⟩ := List.mem_map.1 h
  obtain ⟨before, after, hsplit, -, rfl⟩ := mem_pairs_iff.1 hmem
  refine ⟨⟨opening, by rw [hsplit]; simp, rfl⟩, ?_⟩
  cases hcloser : closer? Token.opensBrace Token.closesBrace 0 after with
  | none => exact .inl rfl
  | some token =>
    have hafter : token ∈ after := mem_of_closer? hcloser
    exact .inr ⟨token, by rw [hsplit]; simp [hafter], rfl⟩

/-- An offset lies in the same pairs as the first token that does not stand in front of it. -/
theorem openAt_eq_startOr (hsplit : before ++ rest = lex text) (hpos : pos ≤ text.length)
    (hbefore : ∀ t ∈ before, t.start < pos) (hrest : ∀ t ∈ rest, pos ≤ t.start) :
    openAt text pos = openAt text (startOr text.length rest) := by
  have hordered : Ordered text.length rest := by
    have := ordered_lex text
    rw [← hsplit] at this
    exact ⟨(List.pairwise_append.1 this.1).2.1, fun t ht => this.2 t (List.mem_append_right _ ht)⟩
  have hnext : pos ≤ startOr text.length rest := by
    cases rest with
    | nil => exact hpos
    | cons token rest => exact hrest token List.mem_cons_self
  -- no token stands between the offset and that token
  have hside : ∀ t ∈ lex text, t.start < pos ∨ startOr text.length rest ≤ t.start := by
    intro t ht
    rw [← hsplit] at ht
    rcases List.mem_append.1 ht with ht | ht
    · exact .inl (hbefore t ht)
    · exact .inr (hordered.startOr_le ht)
  refine openAt_congr fun pair hpair => ?_
  obtain ⟨⟨opening, hopening, hstart⟩, hclosing⟩ := exists_of_mem_bracePairs hpair
  have hleft := hside opening hopening
  have hright : pair.closing < pos ∨ startOr text.length rest ≤ pair.closing := by
    rcases hclosing with hend | ⟨closing, hclosing, hstart⟩
    · exact .inr (hend ▸ hordered.startOr_le_stop)
    · exact hstart ▸ hside closing hclosing
  unfold BracePair.Holds
  omega

/-- Every offset splits the tokens into those in front of it and the others. -/
theorem exists_split (text : List Char) (pos : Nat) : ∃ before rest, before ++ rest = lex text ∧
    (∀ t ∈ before, t.start < pos) ∧ ∀ t ∈ rest, pos ≤ t.start := by
  refine ⟨_, _, List.takeWhile_append_dropWhile (p := fun t : Token => t.start < pos),
    fun t ht => ?_, ?_⟩
  · have hlt : decide (t.start < pos) = true :=
      List.mem_takeWhile_imp (p := fun t : Token => t.start < pos) ht
    exact of_decide_eq_true hlt
  have hnot := List.head?_dropWhile_not (fun t : Token => t.start < pos) (lex text)
  have hsorted := (lex_pairwise_lt text).sublist
    (List.dropWhile_sublist fun t : Token => t.start < pos)
  cases hrest : (lex text).dropWhile fun t : Token => t.start < pos with
  | nil => exact List.forall_mem_nil _
  | cons first rest =>
    rw [hrest, List.head?_cons] at hnot
    rw [hrest] at hsorted
    have hle : pos ≤ first.start := Nat.le_of_not_lt (of_decide_eq_false hnot)
    exact List.forall_mem_cons.2 ⟨hle, fun t ht =>
      hle.trans (Nat.le_of_lt ((List.pairwise_cons.1 hsorted).1 t ht))⟩

/-- In front of every offset of a text the pass has counted the parentheses of its level. -/
theorem parens_upTo (text : List Char) (hpos : pos ≤ text.length) :
    (Outline.upTo text pos).level.parens = parenDepth text pos := by
  obtain ⟨before, rest, hsplit, hbefore, hrest⟩ := exists_split text pos
  obtain ⟨placed, opened, hscan, hpairs, hdepths⟩ := Counting.run (.ofText text) hsplit
  rw [Outline.upTo_eq_run hsplit.symm hbefore hrest, Counting.parens_of_depths hdepths,
    parenDepth_eq hsplit hbefore hrest, openAt_eq_startOr hsplit hpos hbefore hrest,
    openAt_startOr hscan hpairs]

/-! ## Behind a pair -/

/-- What closes `depth` levels more than it opens leaves the levels around them. -/
theorem outer_of_balanced (lines : LineIndex) {s : Outline} {depth : Nat} {inside : List Token}
    (h : BalancedFrom Token.opensBrace Token.closesBrace depth inside)
    (hdepth : depth ≤ s.outer.length) :
    (inside.foldl (Outline.step lines) s).outer = s.outer.drop depth := by
  induction inside generalizing s depth with
  | nil =>
    obtain rfl := balancedFrom_nil_iff.1 h
    rfl
  | cons token inside ih =>
    obtain ⟨next, hnext⟩ := h.exists_next
    have hinside := (balancedFrom_cons_iff hnext).1 h
    rw [List.foldl_cons]
    cases hopens : token.opensBrace with
    | true =>
      obtain ⟨-, houter⟩ := Outline.levels_of_opensBrace lines s hopens
      rw [hopens, if_pos rfl] at hnext
      obtain rfl : next = depth + 1 := by omega
      rw [ih hinside (by rw [houter, List.length_cons]; omega), houter, List.drop_succ_cons]
    | false =>
      cases hcloses : token.closesBrace with
      | true =>
        rw [hopens, hcloses, if_neg nofun, if_pos rfl] at hnext
        obtain rfl : depth = next + 1 := by omega
        obtain ⟨level, outer, hcons⟩ := List.exists_cons_of_length_pos (Nat.zero_lt_of_lt hdepth)
        obtain ⟨-, houter⟩ := Outline.levels_of_closesBrace lines hcloses hcons
        rw [hcons, List.length_cons] at hdepth
        rw [ih hinside (by rw [houter]; omega), houter, hcons, List.drop_succ_cons]
      | false =>
        obtain ⟨-, houter⟩ := Outline.levels_of_neither lines s hopens hcloses
        rw [hopens, hcloses, if_neg nofun, if_neg nofun] at hnext
        obtain rfl : next = depth := by omega
        rw [ih hinside (by rwa [houter]), houter]

/-- Behind a pair that is closed the open levels, with their nodes and their parentheses, are those
in front of its opening brace. -/
theorem levels_behind_pair {pair : BracePair} (hpair : pair ∈ bracePairs text)
    (hclosed : pair.closing < text.length) :
    (Outline.upTo text (pair.closing + 1)).level = (Outline.upTo text pair.opening).level ∧
      (Outline.upTo text (pair.closing + 1)).outer = (Outline.upTo text pair.opening).outer := by
  obtain ⟨⟨opening, closing?⟩, hmem, rfl⟩ := List.mem_map.1 hpair
  obtain ⟨before, after, hsplit, hopens, rfl⟩ := mem_pairs_iff.1 hmem
  cases hcloser : closer? Token.opensBrace Token.closesBrace 0 after with
  | none =>
    rw [hcloser] at hclosed
    exact absurd hclosed (Nat.lt_irrefl _)
  | some closing =>
    obtain ⟨inside, behind, rfl, hcloses, -, hbalanced⟩ := closer?_eq_some_iff.1 hcloser
    have hupTo : Outline.upTo text (closing.start + 1) =
        Outline.run (.ofText text) (before ++ opening :: inside ++ [closing]) := by
      have hbehind : lex text = (before ++ opening :: inside) ++ closing :: behind := by
        rw [hsplit, List.append_assoc, List.cons_append]
      exact Outline.upTo_behind hbehind
    -- the opening brace saves the level, and the closing one takes it back
    show (Outline.upTo text (closing.start + 1)).level = _ ∧
      (Outline.upTo text (closing.start + 1)).outer = _
    rw [hupTo, Outline.upTo_start hsplit, Outline.run, List.foldl_append, List.foldl_append,
      List.foldl_cons, ← Outline.run]
    obtain ⟨-, hopened⟩ := Outline.levels_of_opensBrace (.ofText text)
      (Outline.run (.ofText text) before) hopens
    have hinside := outer_of_balanced (.ofText text) hbalanced (Nat.zero_le
      ((Outline.run (.ofText text) before).step (.ofText text) opening).outer.length)
    rw [List.drop_zero, hopened] at hinside
    exact Outline.levels_of_closesBrace _ hcloses hinside

end RegionScope.Source
