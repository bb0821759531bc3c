import RegionScope.Proofs.Directive.GroupOrder
import RegionScope.Proofs.Lint.PairingReports
import RegionScope.Proofs.Tree.BodyNumbers

/-!
# Reports from directives and their bodies

What the two rules report about a text they can tell from its directives in order, each with the
number of its body (`lintText_eq_issues`): the errors from the groups of these markers, the warnings
from the regions among them. So the reports do not change when directives are added or left out that
no rule asks about, and move with the lines of the directives.
-/

namespace RegionScope

open RegionScope.Tree RegionScope.Source

namespace Marker

/-- The kind of the directive. -/
def kind (e : Marker) : DirectiveKind := e.label.kind.directive?.getD .other

/-- Whether the directive opens a region. -/
def isRegion (e : Marker) : Bool := e.kind == .region

/-- Whether the directive ends a region. -/
def isEndRegion (e : Marker) : Bool := e.kind == .endRegion

/-- The report for a group of directives, at the line of its first member. -/
def error? (group : List Marker) : Option Issue := do
  let first ← group.head?
  let message ← Pairing.unmatchedMessage? first.kind
  if Pairing.isComplete first.kind ((group.getLast?.map kind).getD .other) then none
  else some (Issue.make "ERROR" message (some first.label.line) (some "directive_pairing"))

/-- The errors about a list of directives. -/
def errors (markers : List Marker) : List Issue :=
  (directiveGroups (fun e => e.kind.role) markers).filterMap error?

/-- Whether a region lies in a body together with its end, if it has one. -/
def inOneBody (region : Marker × Option Marker) : Bool :=
  region.1.body.isSome && region.2.all fun e => e.body == region.1.body

/-- The regions with their ends, if they have one. -/
def regions (markers : List Marker) : List (Marker × Option Marker) :=
  Brackets.pairs isRegion isEndRegion markers

/-- What the regions show that lie in bodies. -/
def flagged (markers : List Marker) : List Label :=
  ((regions markers).filter inOneBody).map (·.1.label)

/-- The issues about a list of directives. -/
def issues (markers : List Marker) : List Issue :=
  Issue.sort (errors markers ++ (flagged markers).map regionWarning)

end Marker

/-! ## The markers of a tree -/

variable {t : Tree} {i r : Nat} {partner : Option Nat} {text : List Char}

theorem kind_marker (t : Tree) (i : Nat) : (t.marker i).kind = (t.directive? i).getD .other := by
  rw [Marker.kind, marker, directive?, kind?]
  cases t.label? i <;> rfl

theorem isRegion_marker (t : Tree) : Marker.isRegion ∘ t.marker = t.isRegion := by
  funext i
  rw [Function.comp_apply, Marker.isRegion, kind_marker, Tree.isRegion]
  cases t.directive? i <;> rfl

theorem isEndRegion_marker (t : Tree) : Marker.isEndRegion ∘ t.marker = t.isEndRegion := by
  funext i
  rw [Function.comp_apply, Marker.isEndRegion, kind_marker, Tree.isEndRegion]
  cases t.directive? i <;> rfl

theorem label_marker {label : Label} (h : t.label? i = some label) :
    (t.marker i).label = label := by
  rw [marker, h, Option.getD_some]

/-- The markers of an outline are those of its directives in document order. -/
theorem markers_outline (text : List Char) : (outline text).markers =
    ((outline text).directivesBelow 0).map (outline text).marker := by
  have hroot : ¬ (outline text).isDirective 0 = true :=
    Bool.eq_false_iff.1 (isDirective_outline_zero text)
  rw [markers, range_size_outline, List.filter_cons_of_neg hroot, directivesBelow]

/-! ## Errors -/

/-- The error about a group of nodes is that about their markers. -/
theorem error?_map_marker {context : Context} {group : List Nat}
    (h : ∀ i ∈ group, i < context.tree.size) : Marker.error? (group.map context.tree.marker) =
      (Pairing.report? context group).map (Issue.stamp "directive_pairing") := by
  cases group with
  | nil => rfl
  | cons i rest =>
    obtain ⟨label, hlabel⟩ := exists_label?_of_lt (h i List.mem_cons_self)
    have hlast : (((i :: rest).map context.tree.marker).getLast?.map Marker.kind).getD .other =
        ((i :: rest).getLast?.bind context.tree.directive?).getD .other := by
      rw [List.getLast?_map, Option.map_map]
      cases (i :: rest).getLast? with
      | none => rfl
      | some j => exact kind_marker context.tree j
    have hshown := label_marker hlabel
    unfold Marker.error? Pairing.report?
    rw [hlast]
    -- what is no directive counts as one of no family, about which there is no message
    cases hkind : context.tree.directive? i with
    | none =>
      have hfirst : (context.tree.marker i).kind = .other := by rw [kind_marker, hkind]; rfl
      simp [hfirst, Context.directive?_eq_none_iff.2 hkind, Pairing.unmatchedMessage?]
    | some kind =>
      have hfirst : (context.tree.marker i).kind = kind := by rw [kind_marker, hkind]; rfl
      have hdirective := Context.directive?_eq_some_iff.2 ⟨hlabel, hkind⟩
      cases hmessage : Pairing.unmatchedMessage? kind with
      | none => simp [hfirst, hdirective, hmessage]
      | some message =>
        simp only [List.map_cons, List.head?_cons, Option.bind_eq_bind, Option.bind_some, hfirst,
          hdirective, hmessage, hshown]
        split
        · rfl
        · rw [Option.map_some, Issue.stamp_make]

theorem errors_markers (text : List Char) :
    Marker.errors (outline text).markers = pairingErrors text := by
  have hrole : (fun e : Marker => e.kind.role) ∘ (outline text).marker = (outline text).roleOf := by
    funext i
    rw [Function.comp_apply, kind_marker, Pairing.role_getD]
  -- the markers of the groups are the groups of the markers, since the roles are the same
  rw [Marker.errors, markers_outline, directiveGroups_map, hrole, List.filterMap_map, pairingErrors,
    Pairing.run, List.map_filterMap]
  apply List.filterMap_congr
  intro g hg
  apply @error?_map_marker (.ofText none text) g
  intro i hi
  exact lt_size_of_mem_directivesBelow (mem_of_mem_groups hg hi)

/-! ## Warnings -/

theorem lt_size_of_mem_regionPairs (h : (r, partner) ∈ t.regionPairs) :
    r < t.size ∧ ∀ e, partner = some e → e < t.size := by
  refine ⟨lt_size_of_mem_directivesBelow (mem_directivesBelow_of_mem_regionPairs h), ?_⟩
  intro e he
  have hmem : e ∈ r :: partner.toList := by simp [he]
  exact lt_size_of_mem_directivesBelow
    (mem_of_mem_groups (mem_groups_of_mem_regionPairs h) hmem)

/-- A region lies in one block with its end exactly if their bodies have one number. -/
theorem inOneBody_marker_iff (h : (r, partner) ∈ t.regionPairs) :
    Marker.inOneBody (t.marker r, partner.map t.marker) = true ↔ t.InOneBlock (r, partner) := by
  have hr := isDirective_of_directive? (isRegion_iff.1 (isRegion_of_mem_regionPairs h))
  have he : ∀ e, partner = some e → t.isDirective e = true := by
    intro e he
    subst he
    exact isDirective_of_directive? (isEndRegion_iff.1 (isEndRegion_of_mem_regionPairs h))
  have hsize := (lt_size_of_mem_regionPairs h).2
  -- to lie in one block is to have one body, and bodies are told apart by their numbers
  rw [← shareBody_iff_inOneBlock hr he, shareBody_cons_iff]
  cases hbody : t.body? r with
  | none => simp [Marker.inOneBody, marker, bodyNumber?, hbody]
  | some b =>
    have hnumber : t.bodyNumber? r = some (t.outerBlocks.idxOf b) := by
      rw [bodyNumber?, hbody, Option.map_some]
    cases partner with
    | none => simp [Marker.inOneBody, marker, hnumber]
    | some e =>
      have hsame := body?_eq_iff_bodyNumber?_eq (hsize e rfl) hbody
      simp [Marker.inOneBody, marker, hnumber, hsame]

/-- The regions among the markers are those of the outline. -/
theorem regions_markers (text : List Char) : Marker.regions (outline text).markers =
    (outline text).regionPairs.map fun region =>
      ((outline text).marker region.1, region.2.map (outline text).marker) := by
  rw [Marker.regions, markers_outline, Brackets.pairs_map, isRegion_marker, isEndRegion_marker,
    regionPairs]

theorem flagged_markers (text : List Char) : Marker.flagged (outline text).markers =
    (flaggedRegions text).filterMap fun region => (outline text).label? region.1 := by
  have hfilter : (outline text).regionPairs.filter (Marker.inOneBody ∘ fun region =>
      ((outline text).marker region.1, region.2.map (outline text).marker)) =
      flaggedRegions text := by
    apply List.filter_congr
    rintro ⟨r, partner⟩ h
    rw [Function.comp_apply, Bool.eq_iff_iff, decide_eq_true_iff]
    exact inOneBody_marker_iff h
  rw [Marker.flagged, regions_markers, List.filter_map, hfilter, List.map_map,
    ← List.filterMap_eq_map]
  apply List.filterMap_congr
  rintro ⟨r, partner⟩ h
  obtain ⟨label, hlabel⟩ :=
    exists_label?_of_lt (lt_size_of_mem_regionPairs (List.mem_filter.1 h).1).1
  rw [Function.comp_apply, Function.comp_apply, label_marker hlabel, hlabel]

/-- Whether each region of a text is contained in a body, in document order. -/
def regionDecisions (text : List Char) : List Bool :=
  (((outline text).directivesBelow 0).filter (outline text).isRegion).map (outline text).isContained

theorem regionDecisions_eq_map (text : List Char) :
    regionDecisions text = (Marker.regions (outline text).markers).map Marker.inOneBody := by
  rw [regionDecisions, regions_markers, ← Brackets.map_fst_pairs, ← regionPairs, List.map_map,
    List.map_map]
  apply List.map_congr_left
  rintro ⟨r, partner⟩ h
  have hroot := (outline_growsRight text).root_eq_zero (lt_size_of_mem_regionPairs h).1
  rw [Function.comp_apply, Function.comp_apply, Bool.eq_iff_iff, isContained_iff hroot h,
    inOneBody_marker_iff h]

theorem regionWarnings_eq_map (text : List Char) :
    regionWarnings text = (Marker.flagged (outline text).markers).map regionWarning := by
  rw [flagged_markers, List.map_filterMap, regionWarnings]

/-- The issues of a text are those of its directives with their bodies. -/
theorem lintText_eq_issues (path : Option String) (text : List Char) :
    lintText Registry.builtin.rules path text = Marker.issues (outline text).markers := by
  rw [lintText_builtin, Marker.issues, errors_markers, regionWarnings_eq_map]

/-! ## Directives that no rule asks about -/

/-- The regions that are warned about are told from regions and their ends alone. -/
theorem Marker.flagged_filter {p : Marker → Bool} (hregion : ∀ m, isRegion m = true → p m = true)
    (hend : ∀ m, isEndRegion m = true → p m = true) (markers : List Marker) :
    flagged (markers.filter p) = flagged markers := by
  rw [flagged, regions, Brackets.pairs_filter hregion hend, flagged, regions]

/-! ## Moved lines -/

/-- The issue on the line to which its line is moved. -/
def Issue.moveLine (f : Int → Int) (issue : Issue) : Issue :=
  ⟨issue.fields.map fun field =>
    match field with
    | ("line", .int line) => ("line", .int (f line))
    | _ => field⟩

theorem Issue.moveLine_make (f : Int → Int) (severity message : String) (line : Int) (id : String) :
    (make severity message (some line) (some id)).moveLine f =
      make severity message (some (f line)) (some id) := by
  simp [moveLine, make]

theorem Issue.messageText_make {severity message : String} {line : Option Int}
    {plugin : Option String} : (make severity message line plugin).messageText = message := by
  simp [make, messageText, get?, Json.Fields.get?, List.lookup_cons, Json.display]

namespace Marker

theorem exists_of_error? {group : List Marker} {issue : Issue} (h : error? group = some issue) :
    ∃ message line, issue = Issue.make "ERROR" message (some line) (some "directive_pairing") := by
  obtain ⟨first, -, h⟩ := Option.bind_eq_some_iff.1 h
  obtain ⟨message, -, h⟩ := Option.bind_eq_some_iff.1 h
  split at h
  · cases h
  · exact ⟨message, first.label.line, (Option.some.inj h).symm⟩

variable {f : Int → Int} {relabel : Label → Label}
  (hkind : ∀ label, (relabel label).kind = label.kind)
  (hname : ∀ label, (relabel label).name = label.name)
  (hline : ∀ label, (relabel label).line = f label.line)

include hkind

theorem kind_move (m : Marker) : (m.move relabel).kind = m.kind := by
  rw [kind, move, hkind, kind]

theorem regions_map_move (markers : List Marker) :
    regions (markers.map (move relabel)) = (regions markers).map fun region =>
      (region.1.move relabel, region.2.map (move relabel)) := by
  have hregion : isRegion ∘ move relabel = isRegion := by
    funext m
    rw [Function.comp_apply, isRegion, kind_move hkind, isRegion]
  have hend : isEndRegion ∘ move relabel = isEndRegion := by
    funext m
    rw [Function.comp_apply, isEndRegion, kind_move hkind, isEndRegion]
  rw [regions, Brackets.pairs_map, hregion, hend, regions]

omit hkind in
/-- What directives show plays no part in the bodies that they lie in. -/
theorem inOneBody_move (relabel : Label → Label) :
    (inOneBody ∘ fun region : Marker × Option Marker =>
      (region.1.move relabel, region.2.map (move relabel))) = inOneBody := by
  funext ⟨m, partner⟩
  cases partner <;> rfl

theorem flagged_map_move (markers : List Marker) :
    flagged (markers.map (move relabel)) = (flagged markers).map relabel := by
  rw [flagged, regions_map_move hkind, List.filter_map, inOneBody_move, List.map_map, flagged,
    List.map_map]
  rfl

/-- The regions on moved lines are in bodies exactly if they were. -/
theorem map_inOneBody_map_move (markers : List Marker) :
    (regions (markers.map (move relabel))).map inOneBody = (regions markers).map inOneBody := by
  rw [regions_map_move hkind, List.map_map, inOneBody_move]

include hline

theorem error?_map_move (group : List Marker) :
    error? (group.map (move relabel)) = (error? group).map (Issue.moveLine f) := by
  cases group with
  | nil => rfl
  | cons m rest =>
    have hlast : (((m :: rest).map (move relabel)).getLast?.map kind).getD .other =
        ((m :: rest).getLast?.map kind).getD .other := by
      rw [List.getLast?_map, Option.map_map]
      congr 2
      funext m
      exact kind_move hkind m
    unfold error?
    rw [hlast, List.map_cons, List.head?_cons, List.head?_cons]
    simp only [Option.bind_eq_bind, Option.bind_some, kind_move hkind]
    cases Pairing.unmatchedMessage? m.kind with
    | none => rfl
    | some message =>
      simp only [Option.bind_some]
      split
      · rfl
      · rw [Option.map_some, Issue.moveLine_make, move, hline]

theorem errors_map_move (markers : List Marker) :
    errors (markers.map (move relabel)) = (errors markers).map (Issue.moveLine f) := by
  have hrole : (fun m : Marker => m.kind.role) ∘ move relabel = fun m => m.kind.role := by
    funext m
    rw [Function.comp_apply, kind_move hkind]
  rw [errors, directiveGroups_map, hrole, List.filterMap_map, errors, List.map_filterMap]
  apply List.filterMap_congr
  intro g _
  exact error?_map_move hkind hline g

include hname

/-- The issues about directives on moved lines are the issues at those lines, in the same order if
the lines keep theirs. -/
theorem issues_map_move (hf : ∀ line line', f line < f line' ↔ line < line')
    (markers : List Marker) :
    issues (markers.map (move relabel)) = (issues markers).map (Issue.moveLine f) := by
  have hinj : ∀ line line', f line = f line' ↔ line = line' := by
    intro line line'
    constructor
    · intro heq
      have hlt := hf line line'
      have hgt := hf line' line
      omega
    · exact fun heq => congrArg f heq
  have hmade : ∀ issue ∈ errors markers ++ (flagged markers).map regionWarning,
      ∃ severity message line id, issue = Issue.make severity message (some line) (some id) := by
    intro issue hissue
    rcases List.mem_append.1 hissue with hissue | hissue
    · obtain ⟨group, -, herror⟩ := List.mem_filterMap.1 hissue
      obtain ⟨message, line, rfl⟩ := exists_of_error? herror
      exact ⟨_, _, _, _, rfl⟩
    · obtain ⟨label, -, rfl⟩ := List.mem_map.1 hissue
      exact ⟨_, _, _, _, rfl⟩
  have hwarnings : ((flagged markers).map relabel).map regionWarning =
      ((flagged markers).map regionWarning).map (Issue.moveLine f) := by
    rw [List.map_map, List.map_map]
    apply List.map_congr_left
    intro label _
    rw [Function.comp_apply, Function.comp_apply, regionWarning, regionWarning, Issue.moveLine_make,
      hname, hline]
  rw [issues, issues, errors_map_move hkind hline, flagged_map_move hkind, hwarnings,
    ← List.map_append, Issue.sort, Issue.sort]
  -- sorting commutes with a map under which issues compare as before
  symm
  apply List.map_mergeSort
  intro a ha b hb
  obtain ⟨severity, message, line, id, rfl⟩ := hmade a ha
  obtain ⟨severity', message', line', id', rfl⟩ := hmade b hb
  rw [Issue.moveLine_make, Issue.moveLine_make, Bool.eq_iff_iff, Issue.le_iff, Issue.le_iff]
  simp only [Issue.sortLine_make, Issue.messageText_make, hf, hinj]

end Marker

end RegionScope
