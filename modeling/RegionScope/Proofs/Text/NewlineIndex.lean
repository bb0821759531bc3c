import RegionScope.Proofs.Text.Lines

/-!
# The newlines of a text by offset

The newlines of a text stand at offsets (`newlineOffsets`). A search for the next newline that is
repeated behind each one that it finds comes upon all of them in order (`searchNewlines_eq`), and
these are the breaks of the index (`breaks_ofText`). The line of a position is one more than the
number of newlines at offsets below it, whether the position stands in the text or not
(`line_eq_newlinesBelow`).
-/

namespace RegionScope.Text

/-- The offsets of the newlines of a text, first to last. -/
def newlineOffsets (text : List Char) : List Nat :=
  (List.range text.length).filter fun i => text[i]? = some '\n'

/-- The number of newlines at offsets below `pos`. -/
def newlinesBelow (text : List Char) (pos : Int) : Nat :=
  (newlineOffsets text).countP fun i : Nat => (i : Int) < pos

/-! ## Repeated search -/

/-- The offset of the first newline at `pos` or behind it. -/
def nextNewline? (text : List Char) (pos : Nat) : Option Nat :=
  ((text.drop pos).findIdx? (· == '\n')).map (pos + ·)

theorem nextNewline?_bounds {text : List Char} {pos i : Nat} (h : nextNewline? text pos = some i) :
    pos ≤ i ∧ i < text.length := by
  obtain ⟨k, hk, rfl⟩ := Option.map_eq_some_iff.1 h
  obtain ⟨hlt, -⟩ := List.findIdx?_eq_some_iff_getElem.1 hk
  rw [List.length_drop] at hlt
  omega

/-- The newlines from `pos` on, each one searched for behind the one that was found before it. -/
def searchNewlines (text : List Char) (pos : Nat) : List Nat :=
  match _h : nextNewline? text pos with
  | none => []
  | some i => i :: searchNewlines text (i + 1)
termination_by text.length - pos
decreasing_by
  have := nextNewline?_bounds _h
  omega

theorem nextNewline?_of_length_le {text : List Char} {pos : Nat} (h : text.length ≤ pos) :
    nextNewline? text pos = none := by
  rw [nextNewline?, List.drop_of_length_le h]
  rfl

theorem nextNewline?_of_newline {text : List Char} {pos : Nat} (h : text[pos]? = some '\n') :
    nextNewline? text pos = some pos := by
  obtain ⟨hlt, hget⟩ := List.getElem?_eq_some_iff.1 h
  rw [nextNewline?, List.drop_eq_getElem_cons hlt, hget]
  rfl

theorem nextNewline?_of_ne {text : List Char} {pos : Nat} (hlt : pos < text.length)
    (h : text[pos]? ≠ some '\n') : nextNewline? text pos = nextNewline? text (pos + 1) := by
  have hget : (text[pos] == '\n') = false := by simpa [List.getElem?_eq_getElem hlt] using h
  rw [nextNewline?, nextNewline?, List.drop_eq_getElem_cons hlt, List.findIdx?_cons, hget,
    if_neg Bool.false_ne_true, Option.map_map]
  congr 1
  funext k
  show pos + (k + 1) = pos + 1 + k
  omega

theorem searchNewlines_of_none {text : List Char} {pos : Nat} (h : nextNewline? text pos = none) :
    searchNewlines text pos = [] := by
  rw [searchNewlines]
  split
  · rfl
  · next i hi => rw [h] at hi; cases hi

theorem searchNewlines_of_some {text : List Char} {pos i : Nat}
    (h : nextNewline? text pos = some i) :
    searchNewlines text pos = i :: searchNewlines text (i + 1) := by
  rw [searchNewlines]
  split
  · next hi => rw [h] at hi; cases hi
  · next j hj => rw [h] at hj; cases hj; rfl

/-- Searches that have the same answer go on alike. -/
theorem searchNewlines_congr {text : List Char} {pos pos' : Nat}
    (h : nextNewline? text pos = nextNewline? text pos') :
    searchNewlines text pos = searchNewlines text pos' := by
  cases hnext : nextNewline? text pos' with
  | none => rw [searchNewlines_of_none hnext, searchNewlines_of_none (h.trans hnext)]
  | some i => rw [searchNewlines_of_some hnext, searchNewlines_of_some (h.trans hnext)]

theorem searchNewlines_eq_filter (text : List Char) (pos : Nat) :
    searchNewlines text pos =
      (List.range' pos (text.length - pos)).filter fun i => text[i]? = some '\n' := by
  -- the induction is on what is left to be searched: a newline is found at once, and any other
  -- character leaves the search as it is behind that character
  generalize hrest : text.length - pos = rest
  induction rest generalizing pos with
  | zero =>
    have hend := nextNewline?_of_length_le (Nat.sub_eq_zero_iff_le.1 hrest)
    rw [searchNewlines_of_none hend]
    rfl
  | succ rest ih =>
    have hlt : pos < text.length := by omega
    have hih := ih (pos + 1) (by omega)
    rw [List.range'_succ]
    by_cases hnewline : text[pos]? = some '\n'
    · rw [List.filter_cons_of_pos (by simpa using hnewline), ← hih]
      exact searchNewlines_of_some (nextNewline?_of_newline hnewline)
    · rw [List.filter_cons_of_neg (by simpa using hnewline), ← hih]
      exact searchNewlines_congr (nextNewline?_of_ne hlt hnewline)

/-- The repeated search finds every newline, and in order. -/
theorem searchNewlines_eq (text : List Char) : searchNewlines text 0 = newlineOffsets text := by
  rw [searchNewlines_eq_filter, Nat.sub_zero, ← List.range_eq_range', newlineOffsets]

/-! ## The index -/

theorem newlineOffsets_cons (c : Char) (cs : List Char) :
    newlineOffsets (c :: cs) =
      (if c = '\n' then [0] else []) ++ (newlineOffsets cs).map (· + 1) := by
  rw [newlineOffsets, List.length_cons, List.range_succ_eq_map, List.filter_cons, List.filter_map]
  by_cases hc : c = '\n'
  · simp [hc, newlineOffsets, Function.comp_def]
  · simp [hc, newlineOffsets, Function.comp_def]

namespace LineIndex

theorem breaksFrom_eq_map (pos : Nat) (text : List Char) :
    breaksFrom pos text = (newlineOffsets text).map fun i => ((pos + i : Nat) : Int) := by
  induction text generalizing pos with
  | nil => rfl
  | cons c cs ih =>
    have hshift : breaksFrom (pos + 1) cs =
        ((newlineOffsets cs).map (· + 1)).map fun i => ((pos + i : Nat) : Int) := by
      rw [ih, List.map_map]
      refine List.map_congr_left fun i _ => congrArg Nat.cast ?_
      show pos + 1 + i = pos + (i + 1)
      omega
    rw [breaksFrom, newlineOffsets_cons, hshift, List.map_append]
    by_cases hc : c = '\n'
    · rw [if_pos hc, if_pos hc]
      rfl
    · rw [if_neg hc, if_neg hc]
      rfl

/-- The breaks of a text are the offsets of its newlines. -/
theorem breaks_ofText (text : List Char) :
    (ofText text).breaks.toList = (newlineOffsets text).map fun i : Nat => (i : Int) := by
  rw [ofText, List.toList_toArray, breaksFrom_eq_map]
  simp only [Nat.zero_add]

end LineIndex

/-- The newlines below an offset are those of the text in front of it. -/
theorem newlinesBelow_eq (text : List Char) (pos : Int) :
    newlinesBelow text pos = newlines (text.take pos.toNat) := by
  have hcount := LineIndex.countP_breaksFrom 0 text pos
  rw [LineIndex.breaksFrom_eq_map, List.countP_map] at hcount
  simp only [Nat.zero_add, Int.ofNat_zero, Int.sub_zero] at hcount
  exact hcount

theorem line_eq_newlinesBelow (text : List Char) (pos : Int) :
    (LineIndex.ofText text).line pos = newlinesBelow text pos + 1 := by
  rw [LineIndex.line_ofText, newlinesBelow_eq]

theorem newlinesBelow_le (text : List Char) (pos : Int) :
    newlinesBelow text pos ≤ newlines text := by
  rw [newlinesBelow_eq]
  exact (List.take_sublist _ text).count_le '\n'

theorem newlinesBelow_mono (text : List Char) {pos pos' : Int} (hle : pos ≤ pos') :
    newlinesBelow text pos ≤ newlinesBelow text pos' := by
  refine List.countP_mono_left fun i _ hi => decide_eq_true ?_
  exact Int.lt_of_lt_of_le (of_decide_eq_true hi) hle

end RegionScope.Text
