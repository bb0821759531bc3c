import RegionScope.Proofs.Source.Closers
import RegionScope.Proofs.Source.NestingSites
import RegionScope.Proofs.Source.Raising

/-!
# Texts put one behind the other

A text may be cut between two lines where a token starts, only the root is open, and neither a
parenthesis nor a header is (`Seam`). Then nothing that is scanned before the cut reaches over it,
and the pass goes on behind it as at the start of a text. So the directives of the whole are those
of the first part, and behind them those of the second, at their new places and in bodies with
higher numbers (`markers_append`).
-/

namespace RegionScope.Source

open RegionScope.Text RegionScope.Tree

/-- The texts `a` and `b`, one behind the other, may be taken apart: `a` holds whole lines, and
where `b` begins a token starts, with only the root open, no open parenthesis and no header. -/
structure Seam (a b : List Char) : Prop where
  newline : a = [] ∨ a.getLast? = some '\n'
  starts : b = [] ∨ ∃ token ∈ lex (a ++ b), token.start = a.length
  root_open : (Outline.upTo (a ++ b) a.length).openNodes = [0]
  idle : (Outline.upTo (a ++ b) a.length).isIdle = true

/-- The edit that puts `a` in front of `b`. -/
def Edit.behind (a b : List Char) : Edit where
  lines := .ofText b
  lines' := .ofText (a ++ b)
  keep := fun _ => true
  move := fun label =>
    { label with start := label.start + a.length, line := label.line + newlines a }
  keep_of_isDirective := fun _ _ => rfl
  kind_move := fun _ => rfl

variable {a b : List Char}

theorem at_behind (pos : Nat) : (Edit.behind a b).At pos (pos + a.length) := by
  have htake : (a ++ b).take (pos + a.length) = a ++ b.take pos := by
    rw [Nat.add_comm, List.take_length_add_append]
  have hline : ((newlines (b.take pos) + 1 : Nat) : Int) + newlines a =
      (newlines a + newlines (b.take pos) + 1 : Nat) := by omega
  intro kind name
  simp only [Edit.behind, LineIndex.line_ofText_natCast, htake, newlines_append, hline]
  rw [Int.natCast_add pos]

/-- The tokens of the text behind are those that it has alone, at their new places. -/
theorem moves_behind : List.Forall₂ (Edit.behind a b).Moves (lex b)
    ((lex b).map (Token.shift a.length)) := by
  rw [List.forall₂_map_right_iff]
  apply List.forall₂_same.2
  intro token _
  exact ⟨rfl, at_behind token.start⟩

/-- The tokens of the text in front are on the lines that they are on without the text behind. -/
theorem moves_front : List.Forall₂
    (Edit.relined (.ofText a) (.ofText (a ++ b))).Moves (lex a) (lex a) := by
  apply List.forall₂_same.2
  intro token htoken
  exact ⟨rfl, at_relined (line_ofText_append htoken b)⟩

/-- The root is in no body. -/
theorem scope_root (lines : LineIndex) (tokens : List Token) (parens : Nat) :
    (⟨0, parens⟩ : Level).scope (Outline.run lines tokens).tree =
      ⟨.compilationUnit, parens, none⟩ := by
  have hroot := ((WellKinded.treeInvariant lines).at_end tokens).root
  have hbody : (Outline.run lines tokens).tree.body? 0 = none := by
    apply body?_eq_none_iff.2
    intro i hi
    obtain rfl : i = 0 := Nat.le_zero.1 (le_of_mem_lineage hi)
    exact fun hblock => absurd (hroot.symm.trans hblock) (by simp)
  show Scope.mk (((Outline.run lines tokens).tree.kind? 0).getD _) parens
    ((Outline.run lines tokens).tree.bodyNumber? 0) = _
  rw [show (Outline.run lines tokens).tree.kind? 0 = some .compilationUnit from hroot,
    bodyNumber?_eq_none_iff.2 hbody]
  rfl

namespace Seam

variable (seam : Seam a b) (hb : b ≠ [])

include seam hb

/-- The text in front is scanned as without the text behind. -/
theorem scans : (∀ after, Scans after 0 true a (lex a) true) ∧
    Outline.upTo (a ++ b) a.length = Outline.run (.ofText (a ++ b)) (lex a) := by
  obtain ⟨tokens, hscans, hupTo⟩ : ∃ tokens, (∀ after, Scans after 0 true a tokens true) ∧
      Outline.upTo (a ++ b) a.length = Outline.run (.ofText (a ++ b)) tokens := by
    rcases seam.newline with rfl | hnewline
    · refine ⟨[], fun after => .nil 0 true, ?_⟩
      have hnone : (lex b).takeWhile (fun token => decide (token.start < 0)) = [] := by
        cases lex b <;> simp
      exact congrArg _ hnone
    · have hnil : ∀ after, Scans after 0 true [] [] true := fun after => .nil 0 true
      have hscans := @NestingSite.exists_scans [] a b [] hnil hnewline
      rw [List.nil_append, List.length_nil, Nat.zero_add] at hscans
      exact hscans (seam.starts.resolve_left hb) seam.idle
  have hlex : lex a = tokens := by
    have := (hscans []).lexFrom_append
    rwa [List.append_nil, lexFrom_nil, List.append_nil] at this
  rw [hlex]
  exact ⟨hscans, hupTo⟩

theorem lex_append : lex (a ++ b) = lex a ++ (lex b).map (Token.shift a.length) := by
  rw [lex, ((seam.scans hb).1 b).lexFrom_append, lexFrom_add]
  rfl

/-- At the cut the pass is in the root. -/
theorem atRoot : (Sketch.run (.ofText (a ++ b)) (lex a)).AtRoot := by
  have hupTo := (seam.scans hb).2
  have hidle := seam.idle
  have hopen := seam.root_open
  rw [hupTo] at hidle hopen
  obtain ⟨hparens, hblank⟩ := NestingSite.idle_sketch hidle
  obtain ⟨hlevel, houter⟩ := List.cons.inj hopen
  rw [← Outline.sketch_run] at hparens hblank ⊢
  have hroot : (Outline.run (.ofText (a ++ b)) (lex a)).level = ⟨0, 0⟩ :=
    congr (congrArg Level.mk hlevel) hparens
  refine ⟨?_, ?_, hblank⟩
  · show Level.scope _ (Outline.run (.ofText (a ++ b)) (lex a)).level = _
    rw [hroot, scope_root]
  · show List.map _ (Outline.run (.ofText (a ++ b)) (lex a)).outer = []
    rw [List.map_eq_nil_iff.1 houter, List.map_nil]

/-- The directives of two texts one behind the other are those of the first, and those of the second
at their new places, with the numbers of their bodies raised. -/
theorem markers_append : ∃ n, (outline (a ++ b)).markers = (outline a).markers ++
    ((outline b).markers.map (Marker.move (Edit.behind a b).move)).map (Marker.raise n) := by
  have hroot := seam.atRoot hb
  have hfront : (Sketch.run (.ofText (a ++ b)) (lex a)).settle.known = (outline a).markers := by
    have := ((Sketch.Agrees.start _).run (@moves_front a b)).settle.known
    rw [outline, markers_outlineWith]
    exact this.trans (List.map_id' _)
  generalize hσ : Sketch.run (.ofText (a ++ b)) (lex a) = σ at hroot hfront
  -- behind the cut the pass is that over the second text, behind what is known and the bodies
  have hsettle : σ.settle =
      ({ Sketch.start with header := σ.header } : Sketch).raise (outline a).markers σ.bodies := by
    apply Sketch.ext
    · exact hroot.scope
    · exact hroot.outer
    · rfl
    · exact hfront.trans (List.append_nil _).symm
    · rfl
    · rfl
  have hstart : Sketch.Agrees (Edit.behind a b) Sketch.start
      { Sketch.start with header := σ.header } :=
    ⟨rfl, rfl, (SameHeader.of_blanks hroot.blank).symm, rfl, rfl, rfl⟩
  have hback := (hstart.run moves_behind).settle.known
  have hwhole : (outline (a ++ b)).markers =
      (((lex b).map (Token.shift a.length)).foldl
        (Sketch.step (.ofText (a ++ b))) σ).settle.known := by
    rw [outline, markers_outlineWith, seam.lex_append hb, Sketch.run, List.foldl_append,
      ← Sketch.run, hσ]
  refine ⟨σ.bodies, ?_⟩
  rw [hwhole, ← Sketch.settle_foldl hroot, hsettle, Sketch.raise_foldl, Sketch.raise_settle]
  refine congrArg (fun known => (outline a).markers ++ known.map (Marker.raise σ.bodies))
    (hback.trans ?_)
  exact congrArg _ (markers_outlineWith (.ofText b) b).symm

end Seam

end RegionScope.Source
