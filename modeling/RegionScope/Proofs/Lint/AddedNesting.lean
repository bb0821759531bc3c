import RegionScope.Proofs.Lint.MarkerReports
import RegionScope.Proofs.Source.NestingSites

/-!
# Statements put around lines

A statement may be put around lines of a body, again and again: the reports about the text stay the
same, on the lines to which the braces move them (`lintText_nest`). What is added under a body
leaves its directives in it, and none of the braces inside of it matters to them.
-/

namespace RegionScope

open RegionScope.Text RegionScope.Source

/-- Where lines of a text are put into `n` statements one inside of the other, the issues are the
same in the same order: on their lines before, `2 * n` lines further down within these lines, and
`3 * n` lines further down behind them. The same regions are contained in bodies. -/
theorem lintText_nest (path : Option String) {pre mid post : List Char}
    (site : NestingSite pre mid post) (n : Nat) :
    lintText Registry.builtin.rules path (pre ++ nest n mid ++ post) =
        (lintText Registry.builtin.rules path (pre ++ mid ++ post)).map
          (Issue.moveLine (nestedLine pre mid n)) ∧
      regionDecisions (pre ++ nest n mid ++ post) = regionDecisions (pre ++ mid ++ post) := by
  have hmarkers := site.markers_nest n
  have hkind : ∀ label, ((Edit.nesting pre mid post n).move label).kind = label.kind :=
    fun _ => rfl
  constructor
  · rw [lintText_eq_issues, lintText_eq_issues, hmarkers]
    apply Marker.issues_map_move hkind
    · exact fun _ => rfl
    · exact fun _ => rfl
    · exact nestedLine_lt_iff pre mid n
  · rw [regionDecisions_eq_map, regionDecisions_eq_map, hmarkers,
      Marker.map_inOneBody_map_move hkind]

/-- A region in the body of a method may be put into two statements. -/
theorem lintText_nest_region_in_method :
    NestingSite "void M()\n\x7b\n".toList "#region A\nF();\n#endregion\n".toList "\x7d\n".toList ∧
      lintText Registry.builtin.rules none ("void M()\n\x7b\n".toList ++
          nest 2 "#region A\nF();\n#endregion\n".toList ++ "\x7d\n".toList) =
        (lintText Registry.builtin.rules none ("void M()\n\x7b\n".toList ++
          "#region A\nF();\n#endregion\n".toList ++ "\x7d\n".toList)).map (Issue.moveLine
            (nestedLine "void M()\n\x7b\n".toList "#region A\nF();\n#endregion\n".toList 2)) ∧
      regionDecisions ("void M()\n\x7b\n".toList ++
          nest 2 "#region A\nF();\n#endregion\n".toList ++ "\x7d\n".toList) = [true] := by
  have hsite : NestingSite "void M()\n\x7b\n".toList "#region A\nF();\n#endregion\n".toList
      "\x7d\n".toList := by
    constructor
    · decide
    · decide
    all_goals decide +kernel
  obtain ⟨hlint, hdecisions⟩ := lintText_nest none hsite 2
  exact ⟨hsite, hlint, hdecisions.trans (by decide +kernel)⟩

end RegionScope
