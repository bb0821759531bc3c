import Mathlib.Data.List.Nodup
import RegionScope.Lint.Registry
import RegionScope.Proofs.Lint.Sorting

/-!
# Reports of a part of the rules

The issues of some rules are their reports in the order of the rules, each with the id of its rule,
sorted stably by line and message. So the issues of a part of the rules are those of all rules
without the issues that name another one, in the same order (`runRules_selection`).
-/

namespace RegionScope

namespace Issue

variable {issue : Issue} {id : String}

/-- The issue with its other fields as they are, and `id` as its plugin. -/
def withPlugin (id : String) (issue : Issue) : Issue := ⟨issue.fields ++ [("plugin", .str id)]⟩

/-- An issue that names no plugin is given the id. -/
theorem stamp_of_get?_eq_none (h : issue.get? "plugin" = none) :
    issue.stamp id = issue.withPlugin id := by
  have hnone : ¬ (issue.fields.get? "plugin").isSome = true := by
    rw [show issue.fields.get? "plugin" = none from h]
    nofun
  rw [stamp, Json.Fields.setIfMissing, if_neg hnone, withPlugin]

theorem get?_withPlugin (h : issue.get? "plugin" = none) :
    (issue.withPlugin id).get? "plugin" = some (.str id) := by
  have hnone : issue.fields.lookup "plugin" = none := h
  rw [withPlugin, get?, Json.Fields.get?, List.lookup_append, hnone]
  rfl

/-- Whether an issue names one of some rules as its plugin. -/
def isFrom (rules : List Rule) (issue : Issue) : Bool :=
  match issue.get? "plugin" with
  | some (.str id) => decide (id ∈ rules.map Rule.key)
  | _ => false

theorem isFrom_withPlugin (h : issue.get? "plugin" = none) (rules : List Rule) :
    (issue.withPlugin id).isFrom rules = decide (id ∈ rules.map Rule.key) := by
  rw [isFrom, get?_withPlugin h]

/-- An issue of a part of the rules is one of all. -/
theorem isFrom_and_of_subset {chosen rules : List Rule} (h : chosen ⊆ rules) (issue : Issue) :
    (issue.isFrom chosen && issue.isFrom rules) = issue.isFrom chosen := by
  rw [isFrom, isFrom]
  split
  · next id _ =>
    have hmem : id ∈ chosen.map Rule.key → id ∈ rules.map Rule.key := fun hid =>
      List.map_subset Rule.key h hid
    rw [Bool.and_eq_left_iff_imp, decide_eq_true_iff, decide_eq_true_iff]
    exact hmem
  · rfl

end Issue

variable {context : Context} {rules chosen : List Rule}

/-- What the rules report, one rule after the other, each issue with the id of its rule. -/
def reports (context : Context) (rules : List Rule) : List Issue :=
  rules.flatMap fun rule => (rule.run context).map (Issue.withPlugin rule.key)

/-- Whether the rules report issues that do not name a plugin yet. -/
def ReportsFresh (context : Context) (rules : List Rule) : Prop :=
  ∀ rule ∈ rules, ∀ issue ∈ rule.run context, issue.get? "plugin" = none

instance : Decidable (ReportsFresh context rules) :=
  decidable_of_iff
    ((rules.all fun rule =>
      (rule.run context).all fun issue => (issue.get? "plugin").isNone) = true)
    (by simp [ReportsFresh])

theorem runRules_eq_sort (h : ReportsFresh context rules) :
    runRules context rules = Issue.sort (reports context rules) := by
  rw [runRules, reports]
  congr 1
  apply List.flatMap_congr
  intro rule hrule
  apply List.map_congr_left
  intro issue hissue
  exact Issue.stamp_of_get?_eq_none (h rule hrule issue hissue)

/-- What rules that are not selected report is left out. -/
theorem flatMap_filter (p : Rule → Bool) (f : Rule → List Issue) :
    (rules.filter p).flatMap f = rules.flatMap fun rule => if p rule then f rule else [] := by
  induction rules with
  | nil => rfl
  | cons rule rest ih =>
    rw [List.flatMap_cons, ← ih, List.filter_cons]
    split
    · rw [List.flatMap_cons]
    · rw [List.nil_append]

/-- Among rules with different ids a part is found again by its ids. -/
theorem filter_key_eq (hids : (rules.map Rule.key).Nodup) (h : chosen.Sublist rules) :
    rules.filter (fun rule => decide (rule.key ∈ chosen.map Rule.key)) = chosen := by
  have hsublist : chosen.Sublist
      (rules.filter fun rule => decide (rule.key ∈ chosen.map Rule.key)) := by
    have hself : chosen.filter (fun rule => decide (rule.key ∈ chosen.map Rule.key)) = chosen :=
      List.filter_eq_self.2 fun rule hrule => decide_eq_true (List.mem_map_of_mem hrule)
    rw [← hself]
    have := h.filter fun rule => decide (rule.key ∈ chosen.map Rule.key)
    rwa [hself] at this ⊢
  -- no more rules are found than there are ids of the part
  have hlength : (rules.filter fun rule => decide (rule.key ∈ chosen.map Rule.key)).length ≤
      chosen.length := by
    have hnodup : ((rules.filter fun rule =>
        decide (rule.key ∈ chosen.map Rule.key)).map Rule.key).Nodup :=
      hids.sublist (List.filter_sublist.map Rule.key)
    have hsubset : (rules.filter fun rule =>
        decide (rule.key ∈ chosen.map Rule.key)).map Rule.key ⊆ chosen.map Rule.key := by
      intro key hkey
      obtain ⟨rule, hrule, rfl⟩ := List.mem_map.1 hkey
      exact of_decide_eq_true (List.mem_filter.1 hrule).2
    have := (List.subperm_of_subset hnodup hsubset).length_le
    rwa [List.length_map, List.length_map] at this
  exact (hsublist.eq_of_length_le hlength).symm

/-- The reports of a part of the rules are the reports of all rules that name one of them. -/
theorem filter_reports (hids : (rules.map Rule.key).Nodup) (hfresh : ReportsFresh context rules)
    (h : chosen.Sublist rules) :
    (reports context rules).filter (Issue.isFrom chosen) = reports context chosen := by
  have hrule : ∀ rule ∈ rules, ((rule.run context).map (Issue.withPlugin rule.key)).filter
      (Issue.isFrom chosen) = if decide (rule.key ∈ chosen.map Rule.key)
        then (rule.run context).map (Issue.withPlugin rule.key) else [] := by
    intro rule hrule
    have hall : ∀ issue ∈ (rule.run context).map (Issue.withPlugin rule.key),
        issue.isFrom chosen = decide (rule.key ∈ chosen.map Rule.key) := by
      intro issue hissue
      obtain ⟨reported, hreported, rfl⟩ := List.mem_map.1 hissue
      exact Issue.isFrom_withPlugin (hfresh rule hrule reported hreported) chosen
    split
    · next hchosen =>
      exact List.filter_eq_self.2 fun issue hissue => (hall issue hissue).trans hchosen
    · next hchosen =>
      refine List.filter_eq_nil_iff.2 fun issue hissue => ?_
      rwa [hall issue hissue]
  have hchosen := filter_key_eq hids h
  rw [reports, List.filter_flatMap, List.flatMap_congr hrule, reports]
  conv_rhs => rw [← hchosen]
  rw [flatMap_filter]

/-- By what line an issue is sorted. An integer counts as it is and a truth value as 1 or 0; a line
that is missing, null or of any other kind counts as 1000000000. -/
theorem Issue.sortLine_eq (issue : Issue) : issue.sortLine =
    match issue.get? "line" with
    | none | some .null => 1000000000
    | some (.int n) => n
    | some (.bool b) => if b then 1 else 0
    | some _ => 1000000000 := by
  rw [sortLine]
  rcases issue.get? "line" with - | line
  · rfl
  · cases line <;> rfl

/-- The issues of rules with different ids, which report without naming a plugin, are their reports
in the order of the rules, each with its other fields as they are and the id of its rule as plugin,
sorted stably by line and message. The issues of a part of the rules are those that name one of
them, in the same order: the issues of each of these rules are the same whatever other rules run. -/
theorem runRules_selection (hids : (rules.map Rule.key).Nodup)
    (hfresh : ReportsFresh context rules) :
    IsStableSort Issue.sortKey (reports context rules) (runRules context rules) ∧
      ∀ chosen, chosen.Sublist rules →
        runRules context chosen = (runRules context rules).filter (Issue.isFrom chosen) ∧
          ∀ rule ∈ chosen, (runRules context chosen).filter (Issue.isFrom [rule]) =
            (runRules context rules).filter (Issue.isFrom [rule]) := by
  have hsorted : IsStableSort Issue.sortKey (reports context rules) (runRules context rules) := by
    rw [runRules_eq_sort hfresh]
    exact Issue.isStableSort_sort _
  refine ⟨hsorted, ?_⟩
  intro chosen h
  have hpart : runRules context chosen =
      (runRules context rules).filter (Issue.isFrom chosen) := by
    have hfresh' : ReportsFresh context chosen := fun rule hrule => hfresh rule (h.subset hrule)
    -- both are the reports of the part, sorted stably
    have hchosen : IsStableSort Issue.sortKey (reports context chosen)
        (runRules context chosen) := by
      rw [runRules_eq_sort hfresh']
      exact Issue.isStableSort_sort _
    have hfiltered := hsorted.filter (Issue.isFrom chosen)
    rw [filter_reports hids hfresh h] at hfiltered
    exact hchosen.unique hfiltered
  refine ⟨hpart, ?_⟩
  intro rule hrule
  have hsubset : [rule] ⊆ chosen := by simpa using hrule
  rw [hpart, List.filter_filter]
  apply List.filter_congr
  intro issue _
  exact Issue.isFrom_and_of_subset hsubset issue

/-- A rule with a number as its id, whose issues give a truth value as line or none, is left out. -/
theorem runRules_selection_without_lines :
    let counted : Rule := ⟨some (.int 7), none, none,
      fun _ => [⟨[("message", .null)]⟩, ⟨[("line", .bool true)]⟩]⟩
    let context := Context.ofText none "#endregion\n#if".toList
    ((counted :: Registry.builtin.rules).map Rule.key).Nodup ∧
      ReportsFresh context (counted :: Registry.builtin.rules) ∧
      runRules context Registry.builtin.rules =
        (runRules context (counted :: Registry.builtin.rules)).filter
          (Issue.isFrom Registry.builtin.rules) := by
  intro counted context
  have hids : ((counted :: Registry.builtin.rules).map Rule.key).Nodup := by decide +kernel
  have hfresh : ReportsFresh context (counted :: Registry.builtin.rules) := by
    decide +kernel
  exact ⟨hids, hfresh, ((runRules_selection hids hfresh).2 _ (List.sublist_cons_self _ _)).1⟩

end RegionScope
