import RegionScope.Lint.Registry
import RegionScope.Proofs.Directive.RegionPairs
import RegionScope.Proofs.Lint.Sorting
import RegionScope.Proofs.Source.DirectiveOrder

/-!
# Reports about regions

The warnings about a text are one for each region that lies, with its end if it has one, below one
outermost block, in document order and at the line of the region (`region_reports`). The two rules
look up groups by different routes: the one groups the directives of the context, the other those
below the root of the region. On an outline both are the same groups, so a line carries a warning
and an error exactly if its region is never ended and lies in a block.
-/

namespace RegionScope

open RegionScope.Tree RegionScope.Source

/-- The warning about a region. -/
def regionWarning (region : Label) : Issue :=
  Issue.make "WARNING" (Regions.message region.name) (some region.line)
    (some "regions_within_elements")

namespace Context

variable {text : List Char} {i : Nat}

theorem tree_ofText (path : Option String) (text : List Char) :
    (Context.ofText path text).tree = outline text := rfl

theorem directives_ofText (path : Option String) (text : List Char) :
    (Context.ofText path text).directives = (outline text).directivesBelow 0 := rfl

theorem directive?_eq_some_iff {context : Context} {kind : DirectiveKind} {label : Label} :
    context.directive? i = some (kind, label) ↔
      context.tree.label? i = some label ∧ context.tree.directive? i = some kind := by
  cases hshown : context.tree.label? i with
  | none => simp [directive?, hshown]
  | some shown =>
    cases hkind : shown.kind.directive? with
    | none => simp [directive?, Tree.directive?, kind?, hshown, hkind]
    | some kind' => simp [directive?, Tree.directive?, kind?, hshown, hkind, and_comm]

theorem directive?_eq_none_iff {context : Context} :
    context.directive? i = none ↔ context.tree.directive? i = none := by
  cases hshown : context.tree.label? i with
  | none => simp [directive?, Tree.directive?, kind?, hshown]
  | some shown =>
    cases hkind : shown.kind.directive? with
    | none => simp [directive?, Tree.directive?, kind?, hshown, hkind]
    | some kind' => simp [directive?, Tree.directive?, kind?, hshown, hkind]

end Context

/-! ## Warnings -/

namespace Regions

/-- The warning about a region before the rule puts its name on it. -/
def warning (region : Label) : Issue :=
  Issue.make "WARNING" (message region.name) (some region.line) none

theorem report?_eq (context : Context) (i : Nat) : report? context i =
    if context.tree.isRegion i = true ∧ context.tree.isContained i = true
    then (context.tree.label? i).map warning else none := by
  unfold report?
  cases h : context.directive? i with
  | none =>
    have hnot : ¬ context.tree.isRegion i = true := by
      rw [isRegion_iff, Context.directive?_eq_none_iff.1 h]
      simp
    rw [if_neg fun hboth => hnot hboth.1]
    rfl
  | some content =>
    obtain ⟨kind, label⟩ := content
    obtain ⟨hlabel, hkind⟩ := Context.directive?_eq_some_iff.1 h
    have hregion : context.tree.isRegion i = true ↔ kind = .region := by
      rw [isRegion_iff, hkind, Option.some.injEq]
    simp only [hregion, hlabel]
    rfl

end Regions

variable {path : Option String} {text : List Char}

/-- The regions of a text that are warned about. -/
def flaggedRegions (text : List Char) : List (Nat × Option Nat) :=
  (outline text).regionPairs.filter fun region => (outline text).InOneBlock region

theorem lt_size_of_mem_directivesBelow {t : Tree} {i : Nat} (h : i ∈ t.directivesBelow 0) :
    i < t.size :=
  lt_size_of_isDirective (List.mem_filter.1 h).2

/-- The rule about regions reports the regions that lie in one block with their ends. -/
theorem Regions.run_ofText (path : Option String) (text : List Char) :
    Regions.run (.ofText path text) = (flaggedRegions text).filterMap fun region =>
      ((outline text).label? region.1).map warning := by
  have hpairs : ((outline text).directivesBelow 0).filterMap (report? (.ofText path text)) =
      (outline text).regionPairs.filterMap fun region =>
        if (outline text).InOneBlock region then ((outline text).label? region.1).map warning
        else none := by
    apply Brackets.filterMap_pairs
    intro before i after hsplit
    rw [report?_eq, Context.tree_ofText]
    cases hregion : (outline text).isRegion i with
    | false => simp
    | true =>
      -- the rule looks the group up below the root, which is node 0
      have hpair :
          (i, Brackets.closer? (outline text).isRegion (outline text).isEndRegion 0 after) ∈
            (outline text).regionPairs :=
        Brackets.mem_pairs_iff.2 ⟨before, after, hsplit, hregion, rfl⟩
      have hsize := lt_size_of_mem_directivesBelow (mem_directivesBelow_of_mem_regionPairs hpair)
      have hcontained := isContained_iff ((outline_growsRight text).root_eq_zero hsize) hpair
      simp only [true_and, hcontained, if_true]
  rw [run, Context.directives_ofText, hpairs, flaggedRegions, List.filterMap_filter]
  simp

/-- Regions stand on lines that increase in document order. -/
theorem regionPairs_pairwise_line (text : List Char) :
    (outline text).regionPairs.Pairwise fun p q => ∀ a b, (outline text).label? p.1 = some a →
      (outline text).label? q.1 = some b → a.line < b.line := by
  have hfirst : ((outline text).regionPairs.map Prod.fst).Pairwise fun i j => ∀ a b,
      (outline text).label? i = some a → (outline text).label? j = some b → a.line < b.line := by
    rw [regionPairs, Brackets.map_fst_pairs]
    exact (directivesBelow_pairwise_line text).filter _
  exact List.pairwise_map.1 hfirst

theorem exists_label_of_mem_regionPairs {region : Nat × Option Nat} {t : Tree}
    (h : region ∈ t.regionPairs) :
    ∃ label, t.label? region.1 = some label ∧ t.directive? region.1 = some .region := by
  obtain ⟨r, partner⟩ := region
  have hregion := isRegion_iff.1 (isRegion_of_mem_regionPairs h)
  cases hlabel : t.label? r with
  | none => simp [Tree.directive?, kind?, hlabel] at hregion
  | some label => exact ⟨label, rfl, hregion⟩

/-! ## Errors -/

namespace Pairing

theorem report?_eq_some_iff {context : Context} {group : List Nat} {issue : Issue} :
    report? context group = some issue ↔ ∃ i first label message,
      group.head? = some i ∧ context.directive? i = some (first, label) ∧
        unmatchedMessage? first = some message ∧
        isComplete first ((group.getLast?.bind context.tree.directive?).getD .other) = false ∧
        issue = Issue.make "ERROR" message (some label.line) none := by
  constructor
  · intro h
    obtain ⟨i, hhead, h⟩ := Option.bind_eq_some_iff.1 h
    obtain ⟨⟨first, label⟩, hfirst, h⟩ := Option.bind_eq_some_iff.1 h
    obtain ⟨message, hmessage, h⟩ := Option.bind_eq_some_iff.1 h
    dsimp only at h
    split at h
    · cases h
    · next hcomplete =>
      exact ⟨i, first, label, message, hhead, hfirst, hmessage, Bool.eq_false_iff.2 hcomplete,
        (Option.some.inj h).symm⟩
  · rintro ⟨i, first, label, message, hhead, hfirst, hmessage, hcomplete, rfl⟩
    simp [report?, hhead, hfirst, hmessage, hcomplete]

/-- The errors about a text stand on different lines: each on the line of the first directive of
its group. -/
theorem nodup_line?_run (text : List Char) :
    ((run (.ofText none text)).map Issue.line?).Nodup := by
  have hgroups := List.nodup_flatten.1 ((flatten_directiveGroups_perm (outline text).roleOf
    ((outline text).directivesBelow 0)).nodup_iff.2 (nodup_directivesBelow _ 0))
  rw [run, List.Nodup, List.pairwise_map, List.pairwise_filterMap]
  apply hgroups.2.imp_of_mem
  intro g g' hg hg' hdisjoint issue h issue' h' hline
  obtain ⟨i, first, label, message, hhead, hfirst, -, -, rfl⟩ := report?_eq_some_iff.1 h
  obtain ⟨i', first', label', message', hhead', hfirst', -, -, rfl⟩ := report?_eq_some_iff.1 h'
  rw [Issue.line?_make, Issue.line?_make, Option.some.injEq] at hline
  -- groups are disjoint, and a line holds one directive only
  have hmem := mem_of_mem_groups hg (List.mem_of_head? hhead)
  have hmem' := mem_of_mem_groups hg' (List.mem_of_head? hhead')
  have heq := eq_of_line_eq hmem hmem' (Context.directive?_eq_some_iff.1 hfirst).1
    (Context.directive?_eq_some_iff.1 hfirst').1 hline
  exact hdisjoint (List.mem_of_head? hhead) (heq ▸ List.mem_of_head? hhead')

/-- A region has an error on its line exactly if it is never ended. -/
theorem mem_line?_run_iff {region : Nat × Option Nat} {label : Label}
    (h : region ∈ (outline text).regionPairs)
    (hlabel : (outline text).label? region.1 = some label) :
    some label.line ∈ (run (.ofText none text)).map Issue.line? ↔ region.2 = none := by
  obtain ⟨r, partner⟩ := region
  have hgroup := mem_groups_of_mem_regionPairs h
  have hregion := isRegion_iff.1 (isRegion_of_mem_regionPairs h)
  rw [List.mem_map]
  constructor
  · rintro ⟨issue, hissue, hline⟩
    obtain ⟨g, hg, hreport⟩ := List.mem_filterMap.1 hissue
    obtain ⟨i, first, shown, message, hhead, hfirst, -, hcomplete, rfl⟩ :=
      report?_eq_some_iff.1 hreport
    obtain ⟨hshown, hkind⟩ := Context.directive?_eq_some_iff.1 hfirst
    rw [Issue.line?_make, Option.some.injEq] at hline
    -- the error is about the group of the region, as no other directive stands on the line
    obtain rfl : i = r := eq_of_line_eq
      (mem_of_mem_groups hg (List.mem_of_head? hhead))
      (mem_directivesBelow_of_mem_regionPairs h) hshown hlabel hline
    obtain rfl : g = i :: partner.toList := eq_of_mem_directiveGroups (nodup_directivesBelow _ 0) hg
      hgroup (List.mem_of_head? hhead) List.mem_cons_self
    cases partner with
    | none => rfl
    | some e =>
      have hend := isEndRegion_iff.1 (isEndRegion_of_mem_regionPairs h)
      rw [Context.tree_ofText] at hkind
      rw [hregion, Option.some.injEq] at hkind
      simp [← hkind, hend, isComplete, Context.tree_ofText] at hcomplete
  · rintro rfl
    refine ⟨Issue.make "ERROR" "#region without matching #endregion" (some label.line) none, ?_,
      Issue.line?_make⟩
    refine List.mem_filterMap.2 ⟨[r], hgroup, report?_eq_some_iff.2 ?_⟩
    refine ⟨r, .region, label, _, rfl, Context.directive?_eq_some_iff.2 ⟨hlabel, hregion⟩, rfl, ?_,
      rfl⟩
    simp [Context.tree_ofText, hregion, isComplete]

end Pairing

/-! ## All issues of a text -/

/-- The errors about a text, as the rule about pairs signs them. -/
def pairingErrors (text : List Char) : List Issue :=
  (Pairing.run (.ofText none text)).map (Issue.stamp "directive_pairing")

/-- The warnings about a text in the order of its regions. -/
def regionWarnings (text : List Char) : List Issue :=
  (flaggedRegions text).filterMap fun region =>
    ((outline text).label? region.1).map regionWarning

theorem lintText_builtin (path : Option String) (text : List Char) :
    lintText Registry.builtin.rules path text =
      Issue.sort (pairingErrors text ++ regionWarnings text) := by
  have hstamp : (Regions.run (.ofText path text)).map (Issue.stamp "regions_within_elements") =
      regionWarnings text := by
    rw [Regions.run_ofText, List.map_filterMap, regionWarnings]
    apply List.filterMap_congr
    intro region _
    rw [Option.map_map]
    apply Option.map_congr
    intro label _
    exact Issue.stamp_make
  rw [← hstamp]
  simp only [lintText, runRules, Registry.builtin, List.flatMap_cons, List.flatMap_nil,
    List.append_nil]
  rfl

theorem mem_regionWarnings_iff {issue : Issue} : issue ∈ regionWarnings text ↔
    ∃ region ∈ (outline text).regionPairs, ∃ label, (outline text).label? region.1 = some label ∧
      (outline text).InOneBlock region ∧ issue = regionWarning label := by
  rw [regionWarnings, List.mem_filterMap]
  constructor
  · rintro ⟨region, hregion, h⟩
    obtain ⟨hpair, hblock⟩ := List.mem_filter.1 hregion
    obtain ⟨label, hlabel, rfl⟩ := Option.map_eq_some_iff.1 h
    exact ⟨region, hpair, label, hlabel, of_decide_eq_true hblock, rfl⟩
  · rintro ⟨region, hpair, label, hlabel, hblock, rfl⟩
    refine ⟨region, List.mem_filter.2 ⟨hpair, decide_eq_true hblock⟩, ?_⟩
    rw [hlabel, Option.map_some]

theorem isError_of_mem_pairingErrors {issue : Issue} (h : issue ∈ pairingErrors text) :
    issue.isError = true := by
  obtain ⟨error, herror, rfl⟩ := List.mem_map.1 h
  obtain ⟨g, -, hreport⟩ := List.mem_filterMap.1 herror
  obtain ⟨i, first, label, message, -, -, -, -, rfl⟩ := Pairing.report?_eq_some_iff.1 hreport
  rw [Issue.stamp_make, Issue.isError_make]
  rfl

theorem line?_pairingErrors (text : List Char) :
    (pairingErrors text).map Issue.line? = (Pairing.run (.ofText none text)).map Issue.line? := by
  rw [pairingErrors, List.map_map]
  apply List.map_congr_left
  intro issue hissue
  obtain ⟨g, -, hreport⟩ := List.mem_filterMap.1 hissue
  obtain ⟨i, first, label, message, -, -, -, -, rfl⟩ := Pairing.report?_eq_some_iff.1 hreport
  show (Issue.stamp _ _).line? = _
  rw [Issue.stamp_make, Issue.line?_make, Issue.line?_make]

theorem isError_of_mem_regionWarnings {issue : Issue} (h : issue ∈ regionWarnings text) :
    issue.isError = false := by
  obtain ⟨region, -, label, -, -, rfl⟩ := mem_regionWarnings_iff.1 h
  exact Issue.isError_make

theorem regionWarnings_pairwise (text : List Char) :
    (regionWarnings text).Pairwise fun a b => a.sortLine < b.sortLine := by
  rw [regionWarnings, List.pairwise_filterMap]
  apply ((regionPairs_pairwise_line text).filter _).imp
  intro p q hlines a ha b hb
  obtain ⟨label, hlabel, rfl⟩ := Option.map_eq_some_iff.1 ha
  obtain ⟨label', hlabel', rfl⟩ := Option.map_eq_some_iff.1 hb
  rw [regionWarning, regionWarning, Issue.sortLine_make, Issue.sortLine_make]
  exact hlines label label' hlabel hlabel'

/-- The issues that are no errors are the warnings about regions, in document order. -/
theorem warnings_lintText (path : Option String) (text : List Char) :
    (lintText Registry.builtin.rules path text).filter (fun issue => !issue.isError) =
      regionWarnings text := by
  have hfilter : (pairingErrors text ++ regionWarnings text).filter (fun issue => !issue.isError) =
      regionWarnings text := by
    rw [List.filter_append, List.filter_eq_nil_iff.2, List.nil_append, List.filter_eq_self.2]
    · intro issue h
      rw [isError_of_mem_regionWarnings h]
      rfl
    · intro issue h
      rw [isError_of_mem_pairingErrors h]
      simp
  rw [lintText_builtin, Issue.filter_sort, hfilter]
  rw [hfilter]
  exact regionWarnings_pairwise text

theorem line?_regionWarning {label : Label} : (regionWarning label).line? = some label.line :=
  Issue.line?_make

theorem nodup_line?_regionWarnings (text : List Char) :
    ((regionWarnings text).map Issue.line?).Nodup := by
  rw [regionWarnings, List.Nodup, List.pairwise_map, List.pairwise_filterMap]
  apply ((regionPairs_pairwise_line text).filter _).imp
  intro p q hlines a ha b hb hline
  obtain ⟨label, hlabel, rfl⟩ := Option.map_eq_some_iff.1 ha
  obtain ⟨label', hlabel', rfl⟩ := Option.map_eq_some_iff.1 hb
  rw [line?_regionWarning, line?_regionWarning, Option.some.injEq] at hline
  exact Int.ne_of_lt (hlines label label' hlabel hlabel') hline

theorem mem_line?_regionWarnings_iff {line : Int} :
    some line ∈ (regionWarnings text).map Issue.line? ↔
      ∃ region ∈ (outline text).regionPairs, ∃ label,
        (outline text).label? region.1 = some label ∧ label.line = line ∧
          (outline text).InOneBlock region := by
  rw [List.mem_map]
  constructor
  · rintro ⟨issue, hissue, hline⟩
    obtain ⟨region, hpair, label, hlabel, hblock, rfl⟩ := mem_regionWarnings_iff.1 hissue
    rw [line?_regionWarning, Option.some.injEq] at hline
    exact ⟨region, hpair, label, hlabel, hline, hblock⟩
  · rintro ⟨region, hpair, label, hlabel, rfl, hblock⟩
    have hwarning : regionWarning label ∈ regionWarnings text :=
      mem_regionWarnings_iff.2 ⟨region, hpair, label, hlabel, hblock, rfl⟩
    exact ⟨regionWarning label, hwarning, line?_regionWarning⟩

/-- The warnings are those of the rule about regions, whatever name they give. -/
theorem exists_warning_mem_lintText_iff {line : Int} :
    (∃ name, Issue.make "WARNING" (Regions.message name) (some line)
      (some "regions_within_elements") ∈ lintText Registry.builtin.rules path text) ↔
      some line ∈ (regionWarnings text).map Issue.line? := by
  rw [List.mem_map]
  constructor
  · rintro ⟨name, hissue⟩
    have hwarning : Issue.make "WARNING" (Regions.message name) (some line)
        (some "regions_within_elements") ∈ regionWarnings text := by
      rw [← warnings_lintText, List.mem_filter, Issue.isError_make]
      exact ⟨hissue, rfl⟩
    exact ⟨_, hwarning, Issue.line?_make⟩
  · rintro ⟨issue, hissue, hline⟩
    obtain ⟨region, -, label, -, -, rfl⟩ := mem_regionWarnings_iff.1 hissue
    rw [line?_regionWarning, Option.some.injEq] at hline
    subst hline
    rw [← warnings_lintText] at hissue
    exact ⟨label.name, (List.mem_filter.1 hissue).1⟩

/-- Every region that is warned about has its warning. -/
theorem map_some_regionWarnings (text : List Char) : (regionWarnings text).map some =
    (flaggedRegions text).map fun region =>
      ((outline text).label? region.1).map regionWarning := by
  rw [regionWarnings, List.map_filterMap, ← List.filterMap_eq_map]
  apply List.filterMap_congr
  intro region hregion
  obtain ⟨label, hlabel, -⟩ := exists_label_of_mem_regionPairs (List.mem_filter.1 hregion).1
  rw [Function.comp_apply, hlabel]
  rfl

/-- A line carries one issue of each of the two rules at most. -/
theorem countAt_lintText (line : Int) :
    Issue.countAt line (lintText Registry.builtin.rules path text) =
      (if some line ∈ (Pairing.run (.ofText none text)).map Issue.line? then 1 else 0) +
        (if some line ∈ (regionWarnings text).map Issue.line? then 1 else 0) := by
  have herrors : ((pairingErrors text).map Issue.line?).Nodup := by
    rw [line?_pairingErrors]
    exact Pairing.nodup_line?_run text
  rw [lintText_builtin, Issue.countAt_sort, Issue.countAt_append, Issue.countAt_eq herrors,
    Issue.countAt_eq (nodup_line?_regionWarnings text), line?_pairingErrors]

/-- A region without an end that has a block above it lies in one block. -/
theorem inOneBlock_of_mem_ancestors {t : Tree} {r b : Nat} (hr : t.directive? r = some .region)
    (hb : b ∈ t.ancestors r) (hblock : t.kind? b = some .block) : t.InOneBlock (r, none) := by
  obtain ⟨outer, houter⟩ := exists_isOuterBlock (isDirective_of_directive? hr) hb hblock
  exact ⟨outer, houter, nofun⟩

/-- A line carries a warning and an error exactly if a region that is never ended stands on it in a
block. -/
theorem mem_both_lines_iff {line : Int} :
    (some line ∈ (Pairing.run (.ofText none text)).map Issue.line? ∧
      some line ∈ (regionWarnings text).map Issue.line?) ↔
      ∃ r label b, (r, none) ∈ (outline text).regionPairs ∧
        (outline text).label? r = some label ∧ label.line = line ∧
          b ∈ (outline text).ancestors r ∧ (outline text).kind? b = some .block := by
  rw [mem_line?_regionWarnings_iff]
  constructor
  · rintro ⟨herror, ⟨r, partner⟩, hpair, label, hlabel, rfl, b, houter, -⟩
    obtain rfl : partner = none := (Pairing.mem_line?_run_iff hpair hlabel).1 herror
    exact ⟨r, label, b, hpair, hlabel, rfl, houter.mem_ancestors, houter.block⟩
  · rintro ⟨r, label, b, hpair, hlabel, rfl, hb, hblock⟩
    have hregion := isRegion_iff.1 (isRegion_of_mem_regionPairs hpair)
    exact ⟨(Pairing.mem_line?_run_iff hpair hlabel).2 rfl, (r, none), hpair, label, hlabel, rfl,
      inOneBlock_of_mem_ancestors hregion hb hblock⟩

/-- The two rules on a text, wherever it stands. A line carries a warning exactly if the region on
it lies, with its end if it has one, below one outermost block, and there is one warning for each
such region, in document order. A line carries two issues at most, and two exactly if a region that
is never ended stands on it in a block. -/
theorem region_reports (path : Option String) (text : List Char) :
    (∀ line, (∃ name, Issue.make "WARNING" (Regions.message name) (some line)
        (some "regions_within_elements") ∈ lintText Registry.builtin.rules path text) ↔
      ∃ region ∈ (outline text).regionPairs, ∃ label,
        (outline text).label? region.1 = some label ∧ label.line = line ∧
          (outline text).InOneBlock region) ∧
    ((lintText Registry.builtin.rules path text).filter fun issue => !issue.isError).map some =
      (flaggedRegions text).map (fun region =>
        ((outline text).label? region.1).map regionWarning) ∧
    (∀ line, Issue.countAt line (lintText Registry.builtin.rules path text) ≤ 2) ∧
    ∀ line, Issue.countAt line (lintText Registry.builtin.rules path text) = 2 ↔
      ∃ r label b, (r, none) ∈ (outline text).regionPairs ∧
        (outline text).label? r = some label ∧ label.line = line ∧
          b ∈ (outline text).ancestors r ∧ (outline text).kind? b = some .block := by
  refine ⟨?_, ?_, ?_, ?_⟩
  · intro line
    rw [exists_warning_mem_lintText_iff, mem_line?_regionWarnings_iff]
  · rw [warnings_lintText, map_some_regionWarnings]
  · intro line
    rw [countAt_lintText]
    split <;> split <;> omega
  · intro line
    rw [countAt_lintText, ← mem_both_lines_iff]
    split <;> split <;> simp [*]

end RegionScope
