import RegionScope.Proofs.Directive.Concatenation
import RegionScope.Proofs.Lint.MarkerReports
import RegionScope.Proofs.Source.Seams

/-!
# Reports about texts one behind the other

Where a text may be cut, and no directive of the first part is without a partner, the issues are
those of the first part and behind them those of the second, on their new lines (`lintText_append`).
Nothing of the first part is still open then in which a directive of the second could be matched,
bodies are told apart by their numbers alone, and every line of the second part lies behind those
of the first.
-/

namespace RegionScope

open DirectiveKind (Role Family)
open RegionScope.Source RegionScope.Text RegionScope.Tree

variable {a b text : List Char}

/-! ## Balanced directives -/

/-- When the rule about pairs is silent no directive is without a partner. -/
theorem Pairing.not_unpaired_of_run_eq_nil {context : Context} (h : run context = []) (k : Nat) :
    ¬ Unpaired context.tree.roleOf context.directives k := by
  intro hunpaired
  obtain ⟨d, hd, has⟩ := hunpaired
  have hk : k ∈ unpairedPlaces context := by
    refine List.mem_filter.2 ⟨List.mem_range.2 ?_, decide_eq_true ⟨d, hd, has⟩⟩
    exact (List.getElem?_eq_some_iff.1 hd).1
  rw [run_eq_filterMap, List.filterMap_eq_nil_iff] at h
  have hnone := h k hk
  rw [Option.mem_def.1 hd, Option.bind_some] at hnone
  -- it belongs to a family, so there is a message about it
  have hrole : context.tree.roleOf d ≠ .alone := by
    intro hrole
    rw [hrole] at has
    exact has
  have hsome := isSome_unpairedError? hrole
  rw [hnone] at hsome
  cases hsome

namespace Marker

/-- What the directive does in its family. -/
def role (m : Marker) : Role := m.kind.role

theorem isRegion_eq_opensIn : isRegion = opensIn role .region := by
  funext m
  rw [isRegion, opensIn, role]
  cases m.kind <;> rfl

theorem isEndRegion_eq_closesIn : isEndRegion = closesIn role .region := by
  funext m
  rw [isEndRegion, closesIn, role]
  cases m.kind <;> rfl

/-- When the rule about pairs is silent the directives are balanced in both families. -/
theorem balancedIn_of_run_eq_nil (h : Pairing.run (.ofText none text) = []) (family : Family) :
    BalancedIn role family (outline text).markers := by
  have hbalanced := ((forall_not_unpaired_iff _).1
    (Pairing.not_unpaired_of_run_eq_nil h)).1 family
  have hrole : role ∘ (outline text).marker = (outline text).roleOf := by
    funext i
    rw [Function.comp_apply, role, kind_marker, Pairing.role_getD]
  rw [markers_outline]
  apply Brackets.balancedFrom_map
  rw [BalancedIn, Context.tree_ofText, ← hrole] at hbalanced
  exact hbalanced

/-! ## Reports about more directives -/

variable {markers : List Marker}

theorem errors_append (h : ∀ family, BalancedIn role family markers) (more : List Marker) :
    errors (markers ++ more) = errors markers ++ errors more := by
  have hgroups := directiveGroups_append h more
  rw [errors, show (fun m : Marker => m.kind.role) = role from rfl, hgroups, List.filterMap_append]
  rfl

theorem flagged_append (h : BalancedIn role .region markers) (more : List Marker) :
    flagged (markers ++ more) = flagged markers ++ flagged more := by
  rw [BalancedIn, ← isRegion_eq_opensIn, ← isEndRegion_eq_closesIn] at h
  rw [flagged, regions, Brackets.pairs_append h, List.filter_append, List.map_append]
  rfl

/-- Every issue about some directives stands on the line of one of them. -/
theorem exists_sortLine_eq {issue : Issue}
    (h : issue ∈ errors markers ++ (flagged markers).map regionWarning) :
    ∃ m ∈ markers, issue.sortLine = m.label.line := by
  rcases List.mem_append.1 h with h | h
  · obtain ⟨group, hgroup, h⟩ := List.mem_filterMap.1 h
    obtain ⟨first, hfirst, h⟩ := Option.bind_eq_some_iff.1 h
    obtain ⟨message, -, h⟩ := Option.bind_eq_some_iff.1 h
    have hmem : first ∈ markers :=
      (flatten_directiveGroups_perm _ markers).mem_iff.1
        (List.mem_flatten.2 ⟨group, hgroup, List.mem_of_head? hfirst⟩)
    split at h
    · cases h
    · obtain rfl := Option.some.inj h
      exact ⟨first, hmem, Issue.sortLine_make⟩
  · obtain ⟨label, hlabel, rfl⟩ := List.mem_map.1 h
    obtain ⟨⟨region, partner⟩, hregion, rfl⟩ := List.mem_map.1 hlabel
    have hpair : (region, partner) ∈ regions markers := (List.mem_filter.1 hregion).1
    obtain ⟨before, after, rfl, -⟩ := Brackets.mem_pairs_iff.1 hpair
    exact ⟨region, by simp, Issue.sortLine_make⟩

/-- The issues about balanced directives stand in front of those about directives on later
lines. -/
theorem issues_append (h : ∀ family, BalancedIn role family markers) {more : List Marker}
    (hlines : ∀ m ∈ markers, ∀ m' ∈ more, m.label.line < m'.label.line) :
    issues (markers ++ more) = issues markers ++ issues more := by
  have hkeys : ∀ issue ∈ errors markers ++ (flagged markers).map regionWarning,
      ∀ issue' ∈ errors more ++ (flagged more).map regionWarning,
        issue.sortKey < issue'.sortKey := by
    intro issue hissue issue' hissue'
    obtain ⟨m, hm, hline⟩ := exists_sortLine_eq hissue
    obtain ⟨m', hm', hline'⟩ := exists_sortLine_eq hissue'
    apply Prod.Lex.toLex_lt_toLex.2
    left
    rw [hline, hline']
    exact hlines m hm m' hm'
  have hsorted := (Issue.isStableSort_sort _).append (Issue.isStableSort_sort _) hkeys
  rw [issues, errors_append h, flagged_append (h .region), List.map_append]
  exact (Issue.isStableSort_sort _).unique hsorted

/-! ## Bodies with other numbers -/

variable (n : Nat)

theorem error?_map_raise (group : List Marker) : error? (group.map (raise n)) = error? group := by
  have hlast : (group.map (raise n)).getLast?.map kind = group.getLast?.map kind := by
    rw [List.getLast?_map, Option.map_map]
    rfl
  unfold error?
  rw [hlast, List.head?_map]
  cases group.head? <;> rfl

theorem errors_map_raise (markers : List Marker) :
    errors (markers.map (raise n)) = errors markers := by
  rw [errors, directiveGroups_map, List.filterMap_map, errors]
  apply List.filterMap_congr
  intro group _
  exact error?_map_raise n group

theorem inOneBody_raise (region : Marker × Option Marker) :
    inOneBody (region.1.raise n, region.2.map (raise n)) = inOneBody region := by
  obtain ⟨⟨label, body⟩, partner⟩ := region
  cases partner with
  | none => cases body <;> rfl
  | some e => cases body <;> cases hbody : e.body <;> simp [inOneBody, raise, hbody]

theorem flagged_map_raise (markers : List Marker) :
    flagged (markers.map (raise n)) = flagged markers := by
  have hinOneBody : (inOneBody ∘ fun region : Marker × Option Marker =>
      (region.1.raise n, region.2.map (raise n))) = inOneBody :=
    funext (inOneBody_raise n)
  rw [flagged, regions, Brackets.pairs_map, List.filter_map, hinOneBody, List.map_map]
  rfl

/-- By their numbers bodies are told apart, so it does not matter from which number on they are
counted. -/
theorem issues_map_raise (markers : List Marker) :
    issues (markers.map (raise n)) = issues markers := by
  rw [issues, errors_map_raise, flagged_map_raise, issues]

end Marker

/-! ## Lines of directives -/

theorem exists_label_eq_of_mem_markers {m : Marker} (h : m ∈ (outline text).markers) :
    ∃ d ∈ directiveLines text, m.label = directiveLabel (.ofText text) d := by
  rw [markers_outline] at h
  obtain ⟨i, hi, rfl⟩ := List.mem_map.1 h
  have hmem : (outline text).label? i ∈
      ((outline text).directivesBelow 0).map (outline text).label? := List.mem_map_of_mem hi
  rw [map_label?_directivesBelow] at hmem
  obtain ⟨d, hd, hlabel⟩ := List.mem_map.1 hmem
  exact ⟨d, hd, label_marker hlabel.symm⟩

/-- The directives of whole lines stand on these lines. -/
theorem line_le_of_mem_markers (ha : a = [] ∨ a.getLast? = some '\n') {m : Marker}
    (h : m ∈ (outline a).markers) : m.label.line ≤ newlines a := by
  obtain ⟨d, hd, hlabel⟩ := exists_label_eq_of_mem_markers h
  obtain ⟨before, after, hsplit, hstart, -⟩ := directiveLine_of_mem hd
  have hlast : a.getLast? = some '\n' := by
    refine ha.resolve_left ?_
    rintro rfl
    simp at hsplit
  have hlt : d.start < a.length := by
    rw [hsplit, ← hstart]
    simp
  have := newlines_take_lt hlast hlt
  rw [hlabel, directiveLabel_line]
  omega

theorem pos_line_of_mem_markers {m : Marker} (h : m ∈ (outline text).markers) :
    0 < m.label.line := by
  obtain ⟨d, -, hlabel⟩ := exists_label_eq_of_mem_markers h
  rw [hlabel, directiveLabel_line]
  omega

/-! ## The reports -/

/-- Where a text may be cut, and the rule about pairs is silent about its first part, its issues are
those of the first part, followed by those of the second part with each line increased by the number
of newlines in the first. -/
theorem lintText_append (path : Option String) (seam : Seam a b)
    (hsilent : Pairing.run (.ofText path a) = []) :
    lintText Registry.builtin.rules path (a ++ b) = lintText Registry.builtin.rules path a ++
      (lintText Registry.builtin.rules path b).map (Issue.moveLine (· + newlines a)) := by
  by_cases hb : b = []
  · subst hb
    have hnil : lintText Registry.builtin.rules path [] = [] := by
      rw [lintText_eq_issues]
      decide +kernel
    rw [hnil, List.append_nil, List.map_nil, List.append_nil]
  obtain ⟨n, hmarkers⟩ := seam.markers_append hb
  have hmoved : Marker.issues ((outline b).markers.map (Marker.move (Edit.behind a b).move)) =
      (Marker.issues (outline b).markers).map (Issue.moveLine (· + newlines a)) := by
    apply Marker.issues_map_move
    · exact fun _ => rfl
    · exact fun _ => rfl
    · exact fun _ => rfl
    · exact fun line line' => by omega
  rw [lintText_eq_issues, lintText_eq_issues, lintText_eq_issues, hmarkers,
    Marker.issues_append (Marker.balancedIn_of_run_eq_nil hsilent), Marker.issues_map_raise, hmoved]
  -- the directives behind the cut are on later lines
  intro m hm m' hm'
  obtain ⟨moved, hmoved, rfl⟩ := List.mem_map.1 hm'
  obtain ⟨behind, hbehind, rfl⟩ := List.mem_map.1 hmoved
  have hfront := line_le_of_mem_markers seam.newline hm
  have hpos := pos_line_of_mem_markers hbehind
  show m.label.line < behind.label.line + newlines a
  omega

/-- Behind a class, and directives that still wait, there may be a body and a loose end of a
region. -/
theorem lintText_append_behind_class :
    let a := "class C\n\x7b\n#region A\n#endregion\n\x7d\n#if X\n#endif\n".toList
    let b := "\x7b\n#region B\n#endregion\n#endregion\nvoid M(\n".toList
    Seam a b ∧ Pairing.run (.ofText none a) = [] ∧
      lintText Registry.builtin.rules none (a ++ b) = lintText Registry.builtin.rules none a ++
        (lintText Registry.builtin.rules none b).map (Issue.moveLine (· + newlines a)) := by
  intro a b
  have hseam : Seam a b := by
    constructor
    · right
      decide
    · right
      decide +kernel
    all_goals decide +kernel
  have hsilent : Pairing.run (.ofText none a) = [] := List.isEmpty_iff.1 (by decide +kernel)
  exact ⟨hseam, hsilent, lintText_append none hseam hsilent⟩

end RegionScope
