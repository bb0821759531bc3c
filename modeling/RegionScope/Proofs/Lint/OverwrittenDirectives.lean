import RegionScope.Proofs.Lint.MarkerReports
import RegionScope.Proofs.Source.Overwriting

/-!
# Directives that are overwritten

Where directive lines are overwritten by spaces their nodes are gone from the outline, and nothing
else is: the other nodes keep what they show, their parents and their order. If no region and no end
of one is overwritten the warnings about regions stay (`overwritten_directives`).
-/

namespace RegionScope

open RegionScope.Tree RegionScope.Source

variable {kept : Nat → Bool} {text text' : List Char}

/-- In a thinned outline the kept nodes stand below the root in the order in which they stood. -/
theorem descendants_eq_of_thins (h : Thins kept id (outline text) (outline text'))
    (hroot : kept 0 = true) :
    (outline text').descendants 0 =
      (((outline text).descendants 0).filter kept).map (rank kept) := by
  have hrange := h.range_size_eq
  rw [range_size_outline, range_size_outline, List.filter_cons_of_pos hroot,
    List.map_cons] at hrange
  exact (List.cons.inj hrange).2

/-- The regions that are warned about are the same if regions and their ends are kept. -/
theorem flagged_eq_of_thins (h : Thins kept id (outline text) (outline text'))
    (hblocks : ∀ i, (outline text).kind? i = some .block → kept i = true)
    (hregions : ∀ i, (outline text).isRegion i = true → kept i = true)
    (hends : ∀ i, (outline text).isEndRegion i = true → kept i = true) :
    Marker.flagged (outline text').markers = Marker.flagged (outline text).markers := by
  let isPaired : Marker → Bool := fun m => m.isRegion || m.isEndRegion
  have hpaired : ∀ i, isPaired ((outline text).marker i) =
      ((outline text).isRegion i || (outline text).isEndRegion i) := by
    intro i
    rw [← isRegion_marker, ← isEndRegion_marker]
    rfl
  -- all that is gone is neither a region nor the end of one
  have hfilter : (outline text').markers.filter isPaired =
      (outline text).markers.filter isPaired := by
    rw [h.markers_eq hblocks, markers, List.filter_map, List.filter_map, List.filter_filter,
      List.filter_filter]
    congr 1
    apply List.filter_congr
    intro i _
    rw [Function.comp_apply, hpaired]
    cases hregion : (outline text).isRegion i with
    | true => simp [hregions i hregion]
    | false =>
      cases hend : (outline text).isEndRegion i with
      | true => simp [hends i hend]
      | false => simp
  have hregion : ∀ m : Marker, m.isRegion = true → isPaired m = true :=
    fun m hm => Bool.or_eq_true_iff.2 (.inl hm)
  have hend : ∀ m : Marker, m.isEndRegion = true → isPaired m = true :=
    fun m hm => Bool.or_eq_true_iff.2 (.inr hm)
  rw [← Marker.flagged_filter hregion hend, hfilter, Marker.flagged_filter hregion hend]

theorem Regions.run_eq_map (path : Option String) (text : List Char) :
    run (.ofText path text) = (Marker.flagged (outline text).markers).map warning := by
  rw [run_ofText, flagged_markers, List.map_filterMap]

/-- What of `drop` is neither a region nor the end of one. -/
def dropOthers (drop : Nat → Bool) (text : List Char) (i : Nat) : Bool :=
  drop i && !((outline text).isRegion i || (outline text).isEndRegion i)

/-- Where neither regions nor their ends are overwritten the same regions are warned about. -/
theorem flagged_dropOthers (drop : Nat → Bool) (text : List Char) :
    Marker.flagged (outline (overwriteDirectives (dropOthers drop text) text)).markers =
      Marker.flagged (outline text).markers := by
  apply flagged_eq_of_thins (thins_overwriteDirectives (dropOthers drop text) text)
  · intro i hi
    rw [isSpared, isDirective_of_kind? hi]
    simp [Kind.isDirective, Kind.directive?]
  · intro i hi
    simp [isSpared, dropOthers, hi]
  · intro i hi
    simp [isSpared, dropOthers, hi]

/-- Whatever directives of a text are overwritten by spaces, the outline of the result is the
outline of the text without just their nodes: every other node shows what it showed, has the parent
that it had, and is in its place in document order. If regions and their ends are spared the
warnings about regions are the same. -/
theorem overwritten_directives (drop : Nat → Bool) (path : Option String) (text : List Char) :
    Thins (isSpared drop text) id (outline text) (outline (overwriteDirectives drop text)) ∧
      (outline (overwriteDirectives drop text)).descendants 0 =
        (((outline text).descendants 0).filter (isSpared drop text)).map
          (rank (isSpared drop text)) ∧
      Regions.run (.ofText path (overwriteDirectives (dropOthers drop text) text)) =
        Regions.run (.ofText path text) ∧
      (lintText Registry.builtin.rules path
          (overwriteDirectives (dropOthers drop text) text)).filter (fun issue => !issue.isError) =
        (lintText Registry.builtin.rules path text).filter fun issue => !issue.isError := by
  have hthins := thins_overwriteDirectives drop text
  have hroot : isSpared drop text 0 = true := by
    rw [isSpared, isDirective_outline_zero, Bool.and_false, Bool.not_false]
  have hflagged := flagged_dropOthers drop text
  refine ⟨hthins, descendants_eq_of_thins hthins hroot, ?_, ?_⟩
  · rw [Regions.run_eq_map, Regions.run_eq_map, hflagged]
  · rw [warnings_lintText, warnings_lintText, regionWarnings_eq_map, regionWarnings_eq_map,
      hflagged]

end RegionScope
