import Mathlib.Data.Finset.Dedup
import Mathlib.Data.Finset.SDiff
import RegionScope.Proofs.Lint.RegistryCalls

/-!
# Rules that a selection takes

A selection names ids in three sets. It fails exactly if one of these ids belongs to no registered
rule, in whichever set it stands, and the failure names all ids without a rule in increasing order.
Otherwise it takes, in the order of their registration, the rules whose ids stand in the first set,
or if that set is empty those that are on by default and those of the second set, and in both cases
none of the third set (`Registry.Selection.Takes`).

Over the two containers of a registry the ids that are switched on are collected first, and the
order is filtered by them. In every run this ends as on the registry and leaves the containers as
they are (`registry_selection`).
-/

namespace RegionScope

theorem Rule.isDefault_iff {rule : Rule} :
    rule.isDefault = true ↔ rule.defaultEnabled = some (.bool true) := by
  rw [isDefault]
  split
  · next b hb => simp [hb]
  · next hother => exact iff_of_false nofun (hother true)

namespace Registry

variable {registry : Registry} {selection other : Selection} {rule : Rule} {id : String}

/-- What a selection asks of a rule that it takes. -/
structure Selection.Takes (selection : Selection) (rule : Rule) : Prop where
  of_only : selection.only ≠ [] → rule.key ∈ selection.only
  of_default : selection.only = [] →
    rule.defaultEnabled = some (.bool true) ∨ rule.key ∈ selection.enable
  not_disabled : rule.key ∉ selection.disable

theorem Selection.takes_of_nil_iff (h : selection.only = []) : selection.Takes rule ↔
    (rule.defaultEnabled = some (.bool true) ∨ rule.key ∈ selection.enable) ∧
      rule.key ∉ selection.disable :=
  ⟨fun htakes => ⟨htakes.of_default h, htakes.not_disabled⟩,
    fun ⟨hdefault, hdisable⟩ => ⟨fun hne => absurd h hne, fun _ => hdefault, hdisable⟩⟩

theorem Selection.takes_of_ne_nil_iff (h : selection.only ≠ []) : selection.Takes rule ↔
    rule.key ∈ selection.only ∧ rule.key ∉ selection.disable :=
  ⟨fun htakes => ⟨htakes.of_only h, htakes.not_disabled⟩,
    fun ⟨honly, hdisable⟩ => ⟨fun _ => honly, fun hnil => absurd hnil h, hdisable⟩⟩

theorem Selection.takes_iff : selection.takes rule = true ↔ selection.Takes rule := by
  rw [takes, Bool.and_eq_true, Bool.not_eq_true', ← Bool.not_eq_true, List.contains_iff_mem]
  by_cases honly : selection.only = []
  · rw [if_pos (List.isEmpty_iff.2 honly), takes_of_nil_iff honly, Bool.or_eq_true,
      Rule.isDefault_iff, List.contains_iff_mem]
  · rw [if_neg (mt List.isEmpty_iff.1 honly), takes_of_ne_nil_iff honly, List.contains_iff_mem]

/-- The ids that a selection names and that are not registered, in increasing order. -/
def unknown (registry : Registry) (selection : Selection) : List String :=
  Text.sortedSet (selection.named.filter fun id => !registry.keys.contains id)

theorem mem_unknown_iff :
    id ∈ registry.unknown selection ↔ id ∈ selection.named ∧ id ∉ registry.keys := by
  rw [unknown, Text.mem_sortedSet, List.mem_filter, Bool.not_eq_true', ← Bool.not_eq_true,
    List.contains_iff_mem]

theorem unknown_eq_nil_iff :
    registry.unknown selection = [] ↔ ∀ id ∈ selection.named, id ∈ registry.keys := by
  rw [List.eq_nil_iff_forall_not_mem]
  simp only [mem_unknown_iff, not_and, not_not]

theorem select_eq_ite (registry : Registry) (selection : Selection) : registry.select selection =
    if registry.unknown selection = [] then .ok (registry.rules.filter selection.takes)
    else .error (.unknownRules (registry.unknown selection)) := by
  rw [select, ← unknown]
  cases registry.unknown selection <;> rfl

/-- A selection fails with the unknown ids exactly if it names one. -/
theorem select_eq_error_iff {failure : Failure} : registry.select selection = .error failure ↔
    (∃ id ∈ selection.named, id ∉ registry.keys) ∧
      failure = .unknownRules (registry.unknown selection) := by
  have hnil : registry.unknown selection = [] ↔ ¬ ∃ id ∈ selection.named, id ∉ registry.keys := by
    simp only [unknown_eq_nil_iff, not_exists, not_and, not_not]
  rw [select_eq_ite]
  by_cases hknown : registry.unknown selection = []
  · rw [if_pos hknown]
    exact iff_of_false nofun fun h => hnil.1 hknown h.1
  · rw [if_neg hknown, Except.error.injEq]
    exact ⟨fun h => ⟨by_contra (mt hnil.2 hknown), h.symm⟩, fun h => h.2.symm⟩

theorem select_eq_ok_iff {chosen : List Rule} : registry.select selection = .ok chosen ↔
    (∀ id ∈ selection.named, id ∈ registry.keys) ∧
      chosen = registry.rules.filter selection.takes := by
  rw [select_eq_ite, ← unknown_eq_nil_iff]
  by_cases hknown : registry.unknown selection = []
  · rw [if_pos hknown, Except.ok.injEq]
    exact ⟨fun h => ⟨hknown, h.symm⟩, fun h => h.2.symm⟩
  · rw [if_neg hknown]
    exact iff_of_false nofun fun h => hknown h.1

/-- Selections that name the same unknown ids and take the same rules end alike. -/
theorem select_congr
    (hunknown : ∀ id, id ∉ registry.keys → (id ∈ selection.named ↔ id ∈ other.named))
    (htakes : ∀ rule, selection.Takes rule ↔ other.Takes rule) :
    registry.select selection = registry.select other := by
  have hsame : registry.unknown selection = registry.unknown other := by
    refine Text.eq_of_pairwise_of_mem_iff (Text.pairwise_sortedSet _) (Text.pairwise_sortedSet _)
      fun id => ?_
    rw [mem_unknown_iff, mem_unknown_iff]
    exact and_congr_left (hunknown id)
  have hfilter : registry.rules.filter selection.takes = registry.rules.filter other.takes :=
    List.filter_congr fun rule _ => by
      rw [Bool.eq_iff_iff, Selection.takes_iff, Selection.takes_iff, htakes]
  rw [select_eq_ite, select_eq_ite, hsame, hfilter]

end Registry

/-! ## Over the two containers -/

namespace Catalog

variable {rules : List Rule} {registry : Registry} {selection : Registry.Selection}

/-- Whether the rule of an id is on by default. -/
def isDefault (catalog : Catalog) (id : String) : Bool :=
  (catalog.table.lookup id).any Rule.isDefault

/-- The ids that a selection switches on. -/
def enabled (catalog : Catalog) (selection : Registry.Selection) : Finset String :=
  (if selection.only = [] then
      (catalog.order.filter catalog.isDefault).toFinset ∪ selection.enable.toFinset
    else selection.only.toFinset) \ selection.disable.toFinset

/-- The ids that a selection names and that are not in the table, in increasing order. -/
def unknown (catalog : Catalog) (selection : Registry.Selection) : List String :=
  Text.sortedSet (selection.named.filter fun id => id ∉ catalog.table)

/-- The rules whose ids are switched on, in the order of their registration; none if the table lacks
one of them. -/
def select (selection : Registry.Selection) : EStateM Failure Catalog (Option (List Rule)) := do
  let catalog ← get
  if catalog.unknown selection ≠ [] then throw (.unknownRules (catalog.unknown selection))
  return (catalog.order.filter fun id => id ∈ catalog.enabled selection).mapM fun id =>
    catalog.table.lookup id

theorem run_select (selection : Registry.Selection) (catalog : Catalog) :
    (select selection).run catalog =
      if catalog.unknown selection = [] then
        .ok ((catalog.order.filter fun id => id ∈ catalog.enabled selection).mapM fun id =>
          catalog.table.lookup id) catalog
      else .error (.unknownRules (catalog.unknown selection)) catalog := by
  have hget : (select selection).run catalog = EStateM.run (do
      if catalog.unknown selection ≠ [] then throw (.unknownRules (catalog.unknown selection))
      return (catalog.order.filter fun id => id ∈ catalog.enabled selection).mapM fun id =>
        catalog.table.lookup id) catalog := rfl
  rw [hget]
  by_cases hknown : catalog.unknown selection = []
  · rw [if_pos hknown, if_neg (not_not_intro hknown)]
    rfl
  · rw [if_neg hknown, if_pos hknown]
    rfl

/-- The rules that a selection takes are those whose ids it switches on. -/
theorem mem_enabled_ofRules (h : (rules.map Rule.key).Nodup) {rule : Rule} (hrule : rule ∈ rules) :
    rule.key ∈ (ofRules rules).enabled selection ↔ selection.Takes rule := by
  have hdefault : (ofRules rules).isDefault rule.key = rule.isDefault := by
    rw [isDefault, lookup_ofRules h hrule]
    rfl
  have horder : rule.key ∈ (ofRules rules).order := by
    rw [order_ofRules]
    exact List.mem_map_of_mem hrule
  rw [enabled, Finset.mem_sdiff, List.mem_toFinset]
  by_cases honly : selection.only = []
  · rw [if_pos honly, Finset.mem_union, List.mem_toFinset, List.mem_toFinset, List.mem_filter,
      and_iff_right horder, hdefault, Rule.isDefault_iff, Registry.Selection.takes_of_nil_iff honly]
  · rw [if_neg honly, List.mem_toFinset, Registry.Selection.takes_of_ne_nil_iff honly]

/-- How a selection ends on the two containers, which stay as they are. -/
def ofSelected (catalog : Catalog) :
    Except Failure (List Rule) → EStateM.Result Failure Catalog (Option (List Rule))
  | .ok chosen => .ok (some chosen) catalog
  | .error failure => .error failure catalog

/-- On the two containers a selection ends as on the registry whose rules they hold. -/
theorem select_ofRules (h : registry.keys.Nodup) (selection : Registry.Selection) :
    (select selection).run (ofRules registry.rules) =
      ofSelected (ofRules registry.rules) (registry.select selection) := by
  have hunknown : (ofRules registry.rules).unknown selection = registry.unknown selection := by
    rw [unknown, Registry.unknown]
    congr 1
    refine List.filter_congr fun id _ => ?_
    have hmem : id ∈ (ofRules registry.rules).table ↔ id ∈ registry.keys := mem_table_ofRules
    rw [Bool.eq_iff_iff, decide_eq_true_iff, hmem, Bool.not_eq_true', ← Bool.not_eq_true,
      List.contains_iff_mem]
  have hchosen : ((ofRules registry.rules).order.filter fun id =>
      id ∈ (ofRules registry.rules).enabled selection) =
        (registry.rules.filter selection.takes).map Rule.key := by
    rw [order_ofRules, List.filter_map]
    congr 1
    refine List.filter_congr fun rule hrule => ?_
    rw [Bool.eq_iff_iff, Registry.Selection.takes_iff, Function.comp_apply, decide_eq_true_iff,
      mem_enabled_ofRules h hrule]
  rw [run_select, Registry.select_eq_ite, hunknown, hchosen,
    mapM_lookup_ofRules h (List.filter_subset_self _)]
  split <;> rfl

end Catalog

/-- Whatever calls have been made, a selection leaves the two containers as they are. It fails
exactly if one of its three sets names an id that is not registered, with a failure whose message
lists these ids, and no others, in increasing order. Otherwise it ends with the registered rules
that it takes, in their order, each once. If the first set names an id, another second set of
registered ids changes nothing. -/
theorem registry_selection (loader : Loader) (calls : List RegistryCall)
    (selection : Registry.Selection) :
    let registry := Registry.empty.afterAll loader calls
    let catalog := (Catalog.ofRules []).afterAll loader calls
    (catalog.list? = some registry.rules ∧
        (Catalog.select selection).run catalog =
          catalog.ofSelected (registry.select selection)) ∧
      ((∃ failure, registry.select selection = .error failure) ↔
        ∃ id, (id ∈ selection.only ∨ id ∈ selection.enable ∨ id ∈ selection.disable) ∧
          id ∉ registry.keys) ∧
      (∀ failure, registry.select selection = .error failure →
        ∃ ids : List String, failure.message = "Unknown plugin id(s): " ++ ", ".intercalate ids ∧
          ids.Pairwise (· < ·) ∧
          ∀ id, id ∈ ids ↔
            (id ∈ selection.only ∨ id ∈ selection.enable ∨ id ∈ selection.disable) ∧
              id ∉ registry.keys) ∧
      (∀ chosen, registry.select selection = .ok chosen →
        (chosen.Sublist registry.rules ∧ (chosen.map Rule.key).Nodup) ∧
          ∀ rule, rule ∈ chosen ↔ rule ∈ registry.rules ∧ selection.Takes rule) ∧
      (selection.only ≠ [] → ∀ enable, enable ⊆ registry.keys →
        selection.enable ⊆ registry.keys →
          registry.select { selection with enable := enable } = registry.select selection) := by
  intro registry catalog
  have hempty : Registry.empty.keys.Nodup := List.nodup_nil
  have hnodup : registry.keys.Nodup := Registry.nodup_keys_afterAll hempty calls
  have hcatalog : catalog = .ofRules registry.rules := Catalog.afterAll_ofRules hempty calls
  have hnamed : ∀ id, id ∈ selection.named ↔
      id ∈ selection.only ∨ id ∈ selection.enable ∨ id ∈ selection.disable := by
    intro id
    rw [Registry.Selection.named, List.mem_append, List.mem_append, or_assoc]
  refine ⟨⟨?_, ?_⟩, ?_, fun failure hfailure => ?_, fun chosen hchosen => ?_,
    fun honly enable henable hbefore => ?_⟩
  · rw [hcatalog]
    exact Catalog.list?_ofRules hnodup
  · rw [hcatalog]
    exact Catalog.select_ofRules hnodup selection
  · simp only [Registry.select_eq_error_iff, exists_and_left, exists_eq, and_true, hnamed]
  · obtain ⟨-, rfl⟩ := Registry.select_eq_error_iff.1 hfailure
    refine ⟨registry.unknown selection, rfl, Text.pairwise_sortedSet _, fun id => ?_⟩
    rw [Registry.mem_unknown_iff, hnamed]
  · obtain ⟨-, rfl⟩ := Registry.select_eq_ok_iff.1 hchosen
    refine ⟨⟨List.filter_sublist, hnodup.sublist (List.filter_sublist.map Rule.key)⟩,
      fun rule => ?_⟩
    rw [List.mem_filter, Registry.Selection.takes_iff]
  · refine Registry.select_congr (fun id hid => ?_) fun rule => ?_
    · have hnew : id ∉ enable := mt (@henable id) hid
      have hold : id ∉ selection.enable := mt (@hbefore id) hid
      simp [Registry.Selection.named, hnew, hold]
    · have hother : ({ selection with enable := enable } : Registry.Selection).only ≠ [] := honly
      exact (Registry.Selection.takes_of_ne_nil_iff hother).trans
        (Registry.Selection.takes_of_ne_nil_iff honly).symm

/-- A rule whose default is a number other than 0 is off unless it is asked for. -/
example :
    let counted : Rule := ⟨some (.int 7), none, some (.int 1), fun _ => []⟩
    let registry := Registry.builtin.after (Registry.builtin.register counted)
    ((registry.select ⟨[], [], []⟩).toOption.map fun chosen => chosen.map Rule.key) =
        some Registry.builtin.keys ∧
      ((registry.select ⟨[], ["7"], []⟩).toOption.map fun chosen => chosen.map Rule.key) =
        some (Registry.builtin.keys ++ ["7"]) := by
  decide +kernel

end RegionScope
