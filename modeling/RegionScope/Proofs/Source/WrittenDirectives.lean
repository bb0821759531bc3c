import Mathlib.Data.Bool.AllAny
import RegionScope.Proofs.Directive.Names
import RegionScope.Proofs.Source.LineStarts

/-!
# Directive lines that are written into a text

Wherever a directive line stands in a text, at the start of a line and between tokens, the outline
has one directive node on that line, with the kind of the keyword and the name that was written
(`directive_of_written`). The name of every directive node of every text is trimmed and holds no
comment.
-/

namespace RegionScope.Source

open RegionScope.Text RegionScope.Tree RegionScope.Directive

variable {cs indent pre post text : List Char} {pos : Nat} {atStart : Bool}

/-! ## The line in the text -/

/-- The flat scan passes over the blanks in front of a directive. -/
theorem scanDirectives_indent (h : ∀ c ∈ indent, isBlank c = true ∧ c ≠ '\n') (cs : List Char) :
    scanDirectives pos atStart (indent ++ cs) =
      scanDirectives (pos + indent.length) atStart cs := by
  induction indent generalizing pos with
  | nil => rfl
  | cons c indent ih =>
    obtain ⟨⟨hblank, hnewline⟩, hindent⟩ := List.forall_mem_cons.1 h
    rw [List.cons_append, scanDirectives, if_neg hnewline, if_pos hblank, ih hindent,
      List.length_cons, Nat.add_assoc, Nat.add_comm 1]

theorem scanDirectives_hash (pos : Nat) (cs : List Char) :
    ⟨pos, '#' :: restOfLine cs⟩ ∈ scanDirectives pos true ('#' :: cs) := by
  rw [scanDirectives, if_neg (by decide), if_neg (by decide), if_pos (by decide)]
  exact List.mem_cons_self

/-- Whether a directive line stands behind `pre` and in front of `post` in a text: between tokens
and at the start of a line, and up to the end of the line or a carriage return. -/
structure StandsIn (w : WrittenDirective) (pre post : List Char) : Prop where
  token : ∃ token ∈ lex (pre ++ (w.text ++ post)), token.start = pre.length
  start : ∀ c ∈ pre.getLast?, c = '\n'
  stop : ∀ c ∈ post.head?, c = '\n' ∨ c = '\r'

namespace StandsIn

variable {w : WrittenDirective}

/-- The line is one of the directive lines of the text. -/
theorem mem_directiveLines (h : StandsIn w pre post) :
    ⟨pre.length + w.indent.length, '#' :: restOfLine (w.afterHash ++ post)⟩ ∈
      directiveLines (pre ++ (w.text ++ post)) := by
  obtain ⟨token, htoken, hstart⟩ := h.token
  obtain ⟨tokens, atEnd, hscans⟩ := Scans.of_mem htoken (by rw [hstart, Nat.zero_add])
  have hne : w.text ++ post ≠ [] := by simp [WrittenDirective.text]
  have hhead : (w.text ++ post).head? ≠ some '\n' := by
    intro hc
    cases hindent : w.indent with
    | nil =>
      rw [WrittenDirective.text, hindent] at hc
      exact absurd (Option.some.inj hc) (by decide)
    | cons c indent =>
      rw [WrittenDirective.text, hindent] at hc
      exact (w.indent_blank c (by rw [hindent]; exact List.mem_cons_self)).2 (Option.some.inj hc)
  obtain rfl := hscans.atEnd_of_lineStart h.start hne hhead
  rw [← filterMap_directive?_lex, lex, hscans.lexFrom_append, List.filterMap_append,
    filterMap_directive?_lexFrom, WrittenDirective.text, List.append_assoc,
    scanDirectives_indent w.indent_blank, Nat.zero_add]
  exact List.mem_append_right _ (scanDirectives_hash _ _)

theorem read_line (h : StandsIn w pre post) :
    read ('#' :: restOfLine (w.afterHash ++ post)) = (w.kind, w.name) := by
  have hline : ∀ c ∈ w.afterHash, (c != '\n') = true := by
    intro c hc
    rw [bne_iff_ne]
    rintro rfl
    exact w.newline_not_mem_afterHash hc
  rw [restOfLine, List.takeWhile_append_of_pos hline]
  apply w.read_hash
  -- a line ends at a newline, so a carriage return may be left of what follows
  intro c hc
  cases post with
  | nil => cases hc
  | cons d post =>
    rcases h.stop d rfl with rfl | rfl
    · cases hc
    · exact (Option.some.inj hc).symm

/-- What the directive of the line shows. -/
theorem directiveLabel_eq (h : StandsIn w pre post) :
    directiveLabel (.ofText (pre ++ (w.text ++ post)))
        ⟨pre.length + w.indent.length, '#' :: restOfLine (w.afterHash ++ post)⟩ =
      ⟨.directive w.kind, pre.length + w.indent.length, newlines pre + 1,
        String.ofList w.name⟩ := by
  have htake : (pre ++ (w.text ++ post)).take (pre.length + w.indent.length) = pre ++ w.indent := by
    rw [WrittenDirective.text, List.append_assoc, List.take_length_add_append, List.take_left]
  have hindent : newlines w.indent = 0 :=
    List.count_eq_zero.2 fun hmem => (w.indent_blank _ hmem).2 rfl
  rw [directiveLabel, h.read_line, LineIndex.line_ofText_natCast, htake, newlines_append, hindent]
  rfl

end StandsIn

/-- The names that directive nodes show. -/
theorem name_of_isDirective {i : Nat} {label : Label} (h : (outline text).label? i = some label)
    (hdirective : label.kind.isDirective = true) :
    Trimmed label.name.toList ∧ ¬ HasComment label.name.toList := by
  have hshown : (outline text).directiveLabel? i = some label := by
    rw [directiveLabel?, h]
    exact Option.filter_some_pos hdirective
  have hmem : label ∈ (outline text).directiveLabels :=
    List.mem_filterMap.2 ⟨i, List.mem_range.2 (lt_size_of_label? h), hshown⟩
  rw [directiveLabels_outline] at hmem
  obtain ⟨d, -, rfl⟩ := List.mem_map.1 hmem
  have hname : (directiveLabel (.ofText text) d).name.toList = (read d.line).2 :=
    String.toList_ofList
  rw [hname]
  exact ⟨trimmed_read _, not_hasComment_read _⟩

theorem mem_directivesBelow_of_label? {i : Nat} {label : Label}
    (h : (outline text).label? i = some label) (hdirective : label.kind.isDirective = true) :
    i ∈ (outline text).directivesBelow 0 := by
  rw [mem_directivesBelow_iff, isDirective, directive?, kind?, h]
  exact hdirective

/-- A directive line that stands in a text is read back: the one directive node on its line has the
kind of the keyword that was written, and the name, whatever blanks and comment are around it.
Names of directive nodes are trimmed and hold no comment in every text. -/
theorem directive_of_written {w : WrittenDirective} (h : StandsIn w pre post) :
    (∃ i, (outline (pre ++ (w.text ++ post))).label? i =
        some ⟨.directive w.kind, pre.length + w.indent.length, newlines pre + 1,
          String.ofList w.name⟩ ∧
      ∀ j label, (outline (pre ++ (w.text ++ post))).label? j = some label →
        label.kind.isDirective = true → label.line = newlines pre + 1 → j = i) ∧
      ∀ text i label, (outline text).label? i = some label → label.kind.isDirective = true →
        Trimmed label.name.toList ∧ ¬ HasComment label.name.toList := by
  refine ⟨?_, fun text i label => name_of_isDirective⟩
  have hmem := List.mem_map_of_mem
    (f := fun d => some (directiveLabel (.ofText (pre ++ (w.text ++ post))) d)) h.mem_directiveLines
  rw [← map_label?_directivesBelow, h.directiveLabel_eq] at hmem
  obtain ⟨i, -, hi⟩ := List.mem_map.1 hmem
  have hbelow := mem_directivesBelow_of_label? hi rfl
  refine ⟨i, hi, fun j label hj hdirective hline => ?_⟩
  exact eq_of_line_eq (mem_directivesBelow_of_label? hj hdirective) hbelow hj hi hline

/-- An indented line with blanks beyond ASCII, a name with a slash in it, and a comment that holds
another one and a carriage return. -/
def indentedEndRegion : WrittenDirective where
  indent := [' ', '\t']
  lead := [' ', '\u00a0']
  keyword := "endregion"
  kind := .endRegion
  gap := ['\t', ' ']
  name := ['a', ' ', '/', ' ', 'b']
  trailing := ['\u2003', ' ']
  comment := some "c // d\r/".toList
  indent_blank := List.all_iff_forall_prop.1 (by decide)
  lead_blank := List.all_iff_forall_prop.1 (by decide)
  ofKeyword := by decide
  gap_isGap := List.all_iff_forall_prop.1 (by decide)
  gap_nonempty := by decide
  isName := ⟨⟨by rintro c ⟨⟩; decide, by rintro c ⟨⟩; decide⟩, by decide, by decide, by decide,
    List.all_iff_forall_prop.1 (by decide)⟩
  trailing_blank := List.all_iff_forall_prop.1 (by decide)
  comment_line := by simp

/-- The line between the braces of a class. -/
theorem directive_of_written_indented :
    let pre := "class C\n\x7b\n".toList
    let post := "\n\x7d\n".toList
    StandsIn indentedEndRegion pre post ∧
      ∃ i, (outline (pre ++ (indentedEndRegion.text ++ post))).label? i =
          some ⟨.directive .endRegion, 12, 3, "a / b"⟩ ∧
        ∀ j label, (outline (pre ++ (indentedEndRegion.text ++ post))).label? j = some label →
          label.kind.isDirective = true → label.line = 3 → j = i := by
  intro pre post
  have hstands : StandsIn indentedEndRegion pre post :=
    ⟨by decide +kernel, by simp [pre], by simp [post]⟩
  exact ⟨hstands, (directive_of_written hstands).1⟩

end RegionScope.Source
