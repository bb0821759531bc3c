import RegionScope.Proofs.Source.RightEdge
import RegionScope.Proofs.Text.NewlineIndex
import RegionScope.Proofs.Tree.Thinning

/-!
# Lines of nodes

Directives, owners and blocks all show the line of the offset at which they start, whatever index
the lines are looked up in (`showsLines_outlineWith`). With the index of the text itself this line
is one more than the number of newlines in front of the node (`line_numbers`).
-/

namespace RegionScope

open RegionScope.Text

namespace Tree

variable {t : Tree} {lines : LineIndex} {label : Label}

/-- Whether every node but the first shows the line of its start. -/
def ShowsLines (lines : LineIndex) (t : Tree) : Prop :=
  ∀ i label, 0 < i → t.label? i = some label → label.line = lines.line label.start

theorem ShowsLines.add (h : t.ShowsLines lines) (hlabel : label.line = lines.line label.start)
    (parent : Option Nat) : (t.add label parent).ShowsLines lines := by
  intro i shown hi hshown
  rw [label?_add] at hshown
  split at hshown
  · cases hshown
    exact hlabel
  · exact h i shown hi hshown

theorem showsLines_single (lines : LineIndex) (label : Label) :
    (Tree.empty.add label none).ShowsLines lines := by
  intro i shown hi hshown
  have hlt : i < Tree.empty.size + 1 := size_add .. ▸ lt_size_of_label? hshown
  exact absurd hlt (Nat.not_lt.2 hi)

end Tree

namespace Source

open RegionScope.Tree

/-- All that is added to the tree shows the line of its start. -/
theorem showsLines_treeInvariant (lines : LineIndex) :
    Frontier.TreeInvariant lines fun t _ _ => t.ShowsLines lines where
  start := showsLines_single lines _
  place := by
    intro t node around d h
    exact h.add rfl (some node)
  openPlain := by
    rintro t node around label header pos h rfl -
    exact h.add rfl (some node)
  openBlock := by
    intro t node around label header pos brace h hlabel _
    have howner : (t.add label (some node)).ShowsLines lines := h.add (hlabel ▸ rfl) (some node)
    exact howner.add rfl (some t.size)
  close := by
    intro t node next around h
    exact h

theorem showsLines_outlineWith (lines : LineIndex) (text : List Char) :
    (outlineWith lines text).ShowsLines lines :=
  (showsLines_treeInvariant lines).run (lex text)

/-- What a node of an outline shows as its line, the root included. -/
theorem line_of_label? {text : List Char} {i : Nat} {label : Label}
    (h : (outline text).label? i = some label) :
    label.line = newlinesBelow text label.start + 1 := by
  rcases Nat.eq_zero_or_pos i with rfl | hi
  · -- the root shows line 1 without being looked up, and no newline stands before its start
    rw [label?_outline_zero] at h
    cases h
    rw [newlinesBelow_eq]
    rfl
  · rw [showsLines_outlineWith (.ofText text) text i label hi h, line_eq_newlinesBelow]
    rfl

/-- The breaks of a text are what a search for newlines finds that is repeated behind each newline,
and these are the offsets of all its newlines in order. The line of a position, in the text or
outside of it, is one more than the number of newlines at offsets below the position, and so it
never falls as the position grows. Every node of the outline shows the line of its own start, one
more than the number of newlines before it; this is at least 1 and at most one more than the number
of newlines in the text. -/
theorem line_numbers (text : List Char) :
    ((LineIndex.ofText text).breaks.toList =
        (searchNewlines text 0).map (fun i : Nat => (i : Int)) ∧
      searchNewlines text 0 = newlineOffsets text) ∧
    (∀ pos, (LineIndex.ofText text).line pos = newlinesBelow text pos + 1) ∧
    (∀ pos pos', pos ≤ pos' →
      (LineIndex.ofText text).line pos ≤ (LineIndex.ofText text).line pos') ∧
    ∀ i < (outline text).size, ∃ label, (outline text).label? i = some label ∧
      label.line = newlinesBelow text label.start + 1 ∧
      1 ≤ label.line ∧ label.line ≤ newlines text + 1 := by
  refine ⟨⟨?_, searchNewlines_eq text⟩, line_eq_newlinesBelow text, ?_, ?_⟩
  · rw [searchNewlines_eq, LineIndex.breaks_ofText]
  · intro pos pos' hle
    rw [line_eq_newlinesBelow, line_eq_newlinesBelow]
    exact Nat.succ_le_succ (newlinesBelow_mono text hle)
  · intro i hi
    obtain ⟨label, hlabel⟩ := exists_label?_of_lt hi
    have hline := line_of_label? hlabel
    have hle := newlinesBelow_le text label.start
    refine ⟨label, hlabel, hline, ?_, ?_⟩ <;> omega

/-- A newline belongs to the line that it ends. Positions in front of the text are on line 1, those
behind it on the last line. -/
example :
    [-3, 0, 1, 2, 4, 5, 8, 9, 40].map (LineIndex.ofText "a\nbb\nccc\n".toList).line =
      [1, 1, 1, 2, 2, 3, 3, 4, 4] := by
  decide +kernel

end Source

end RegionScope
