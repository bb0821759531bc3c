import RegionScope.Proofs.Directive.Unpaired
import RegionScope.Proofs.Lint.RegionReports

/-!
# Reports about pairing

The rule about pairs looks at the first and the last member of each group. What it reports are the
directives without a partner, one error for each, in their order (`pairing_reports`). So it is
silent exactly when regions and conditionals are balanced and every branch stands in a conditional.
-/

namespace RegionScope.Pairing

open DirectiveKind (Role Family)

variable {context : Context} {i : Nat} {members : List Nat} {family : Family}

/-- The error about directive `i`, at its line and with the message of its kind. -/
def unpairedError? (context : Context) (i : Nat) : Option Issue := do
  let (kind, label) ← context.directive? i
  let message ← unmatchedMessage? kind
  return Issue.make "ERROR" message (some label.line) none

/-- A group is complete when it begins with a directive that opens in a family and ends with one
that closes in it. -/
theorem isComplete_iff {first last : DirectiveKind} : isComplete first last = true ↔
    ∃ family, first.role = .opens family ∧ last.role = .closes family := by
  cases first <;> cases last <;> simp [isComplete, DirectiveKind.role]

/-- The kinds about which there is a message are those of a family. -/
theorem unmatchedMessage?_eq_none_iff {kind : DirectiveKind} :
    unmatchedMessage? kind = none ↔ kind.role = .alone := by
  cases kind <;> simp [unmatchedMessage?, DirectiveKind.role]

theorem roleOf_of_directive? {label : Label} {kind : DirectiveKind}
    (h : context.directive? i = some (kind, label)) : context.tree.roleOf i = kind.role := by
  rw [Tree.roleOf, (Context.directive?_eq_some_iff.1 h).2]

theorem roleOf_of_directive?_eq_none (h : context.directive? i = none) :
    context.tree.roleOf i = .alone := by
  rw [Tree.roleOf, Context.directive?_eq_none_iff.1 h]

/-- The last member of a group counts by its role. -/
theorem role_getD (t : Tree) (i : Nat) :
    ((t.directive? i).getD .other).role = t.roleOf i := by
  unfold Tree.roleOf
  cases t.directive? i <;> rfl

theorem unpairedError?_of_directive? {label : Label} {kind : DirectiveKind}
    (h : context.directive? i = some (kind, label)) :
    unpairedError? context i = (unmatchedMessage? kind).map fun message =>
      Issue.make "ERROR" message (some label.line) none := by
  cases hmessage : unmatchedMessage? kind <;> simp [unpairedError?, h, hmessage]

/-- The report for a group whose first member is a directive. -/
theorem report?_of_directive? {label : Label} {kind : DirectiveKind}
    (h : context.directive? i = some (kind, label)) (members : List Nat) :
    report? context (i :: members) =
      if isComplete kind ((context.tree.directive? (members.getLastD i)).getD .other)
      then none else unpairedError? context i := by
  have hlast : (i :: members).getLast? = some (members.getLastD i) := by
    rw [List.getLast?_cons, List.getLastD_eq_getLast?]
  rw [unpairedError?_of_directive? h]
  simp only [report?, List.head?_cons, hlast, h, Option.bind_eq_bind, Option.bind_some]
  cases unmatchedMessage? kind with
  | none => simp
  | some message => rfl

/-- About a group whose first member opens and whose last member closes there is no report. -/
theorem report?_of_closes (hopens : context.tree.roleOf i = .opens family)
    (hcloses : context.tree.roleOf (members.getLastD i) = .closes family) :
    report? context (i :: members) = none := by
  cases h : context.directive? i with
  | none => simp [report?, h]
  | some content =>
    obtain ⟨kind, label⟩ := content
    rw [report?_of_directive? h, if_pos]
    rw [isComplete_iff, role_getD, ← roleOf_of_directive? h]
    exact ⟨family, hopens, hcloses⟩

/-- The report about any other group is the error about its first member. -/
theorem report?_of_not_closes (hnot : ∀ family, context.tree.roleOf i = .opens family →
      context.tree.roleOf (members.getLastD i) ≠ .closes family) :
    report? context (i :: members) = unpairedError? context i := by
  cases h : context.directive? i with
  | none => simp [report?, unpairedError?, h]
  | some content =>
    obtain ⟨kind, label⟩ := content
    rw [report?_of_directive? h, if_neg]
    -- complete groups open and close in one family, so a conditional never completes a region
    rw [isComplete_iff, role_getD, ← roleOf_of_directive? h]
    rintro ⟨family, hopens, hcloses⟩
    exact hnot family hopens hcloses

/-- About a directive of no family there is no error. -/
theorem unpairedError?_of_alone (h : context.tree.roleOf i = .alone) :
    unpairedError? context i = none := by
  cases hd : context.directive? i with
  | none => simp [unpairedError?, hd]
  | some content =>
    obtain ⟨kind, label⟩ := content
    rw [roleOf_of_directive? hd] at h
    rw [unpairedError?_of_directive? hd, unmatchedMessage?_eq_none_iff.2 h, Option.map_none]

/-- About every other one there is. -/
theorem isSome_unpairedError? (h : context.tree.roleOf i ≠ .alone) :
    (unpairedError? context i).isSome = true := by
  cases hd : context.directive? i with
  | none => exact absurd (roleOf_of_directive?_eq_none hd) h
  | some content =>
    obtain ⟨kind, label⟩ := content
    rw [roleOf_of_directive? hd] at h
    obtain ⟨message, hmessage⟩ :=
      Option.ne_none_iff_exists'.1 (mt unmatchedMessage?_eq_none_iff.1 h)
    rw [unpairedError?_of_directive? hd, hmessage]
    rfl

/-- What is reported about the group that a directive starts is the error about the directive, if
it is unpaired. -/
theorem report?_groupAt (context : Context) (before : List Nat) (i : Nat) (rest : List Nat) :
    (groupAt context.tree.roleOf (before ++ i :: rest) before.length).bind (report? context) =
      if Unpaired context.tree.roleOf (before ++ i :: rest) before.length
      then unpairedError? context i else none := by
  rw [groupAt_append]
  cases hrole : context.tree.roleOf i with
  | opens family =>
    simp only [startedBy, hrole, Option.bind_some, unpaired_iff_of_opens hrole]
    -- the rule asks for the last member, which closes exactly if the directive has a partner
    by_cases hlast : context.tree.roleOf
        ((membersFrom context.tree.roleOf family 0 rest).getLastD i) = .closes family
    · rw [if_neg (not_not_intro hlast), report?_of_closes hrole hlast]
    · rw [if_pos hlast]
      apply report?_of_not_closes
      intro other hother
      obtain rfl : family = other := Role.opens.inj (hrole.symm.trans hother)
      exact hlast
  | joins family =>
    simp only [startedBy, hrole, unpaired_iff_of_joins hrole]
    split
    · exact report?_of_not_closes (by simp [hrole])
    · rfl
  | closes family =>
    simp only [startedBy, hrole, unpaired_iff_of_closes hrole]
    split
    · exact report?_of_not_closes (by simp [hrole])
    · rfl
  | alone =>
    rw [if_neg (not_unpaired_of_alone hrole)]
    simp only [startedBy, hrole, Option.bind_some]
    rw [report?_of_not_closes (by simp [hrole]), unpairedError?_of_alone hrole]

/-- The places of the directives without a partner. -/
def unpairedPlaces (context : Context) : List Nat :=
  (List.range context.directives.length).filter
    fun k => Unpaired context.tree.roleOf context.directives k

theorem unpairedPlaces_eq_nil_iff :
    unpairedPlaces context = [] ↔ ∀ k, ¬ Unpaired context.tree.roleOf context.directives k := by
  rw [unpairedPlaces, List.filter_eq_nil_iff]
  constructor
  · intro h k hk
    have hlt : k < context.directives.length := by
      obtain ⟨d, hd, -⟩ := hk
      exact (List.getElem?_eq_some_iff.1 hd).1
    exact h k (List.mem_range.2 hlt) (decide_eq_true hk)
  · intro h k _
    simpa using h k

/-- The rule reports the directives without a partner. -/
theorem run_eq_filterMap (context : Context) : run context =
    (unpairedPlaces context).filterMap
      fun k => context.directives[k]?.bind (unpairedError? context) := by
  rw [run, Tree.groups, directiveGroups_eq_filterMap, List.filterMap_filterMap, unpairedPlaces,
    List.filterMap_filter]
  apply List.filterMap_congr
  intro k hk
  have hlt := List.mem_range.1 hk
  -- the directives are those in front of the place, the one there, and those behind it
  have hsplit : context.directives =
      context.directives.take k ++ context.directives[k] :: context.directives.drop (k + 1) := by
    rw [← List.drop_eq_getElem_cons, List.take_append_drop]
  have hlength : (context.directives.take k).length = k := List.length_take_of_le (Nat.le_of_lt hlt)
  have hreport := report?_groupAt context (context.directives.take k) context.directives[k]
    (context.directives.drop (k + 1))
  rw [← hsplit, hlength] at hreport
  rw [hreport, List.getElem?_eq_getElem hlt, Option.bind_some]
  simp only [decide_eq_true_eq]

/-- The rule reports one error for each directive without a partner, at its line and with the
message of its kind, in the order of the directives. It is silent exactly when regions and
conditionals are balanced and in front of every branch more conditionals have been opened than
closed. -/
theorem pairing_reports (context : Context) :
    (run context).map some = (unpairedPlaces context).map
        (fun k => context.directives[k]?.bind (unpairedError? context)) ∧
      (run context = [] ↔
        (∀ family, BalancedIn context.tree.roleOf family context.directives) ∧
          ∀ k d family, context.directives[k]? = some d → context.tree.roleOf d = .joins family →
            0 < surplus context.tree.roleOf family (context.directives.take k)) := by
  have hmap : (run context).map some = (unpairedPlaces context).map
      fun k => context.directives[k]?.bind (unpairedError? context) := by
    rw [run_eq_filterMap, List.map_filterMap, ← List.filterMap_eq_map]
    apply List.filterMap_congr
    intro k hk
    -- an unpaired directive belongs to a family, so there is a message about it
    obtain ⟨d, hd, hunpaired⟩ := of_decide_eq_true (List.mem_filter.1 hk).2
    have hrole : context.tree.roleOf d ≠ .alone := by
      intro hrole
      rw [hrole] at hunpaired
      exact hunpaired
    obtain ⟨issue, hissue⟩ := Option.isSome_iff_exists.1 (isSome_unpairedError? hrole)
    rw [Function.comp_apply, Option.mem_def.1 hd, Option.bind_some, hissue]
    rfl
  refine ⟨hmap, ?_⟩
  rw [← forall_not_unpaired_iff, ← unpairedPlaces_eq_nil_iff, ← List.map_eq_nil_iff (f := some),
    hmap, List.map_eq_nil_iff]

end RegionScope.Pairing
