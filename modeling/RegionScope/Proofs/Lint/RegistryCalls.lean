import Mathlib.Data.List.AList
import Mathlib.Data.List.Induction
import RegionScope.Lint.Registry

/-!
# Calls that register rules

A call hands over a rule or names a rule file, which the loader of a host makes a module of. It
fails or adds one rule at the end, and a call that fails leaves no trace, so the registered rules
are those of the calls that succeeded, in their order (`rules_afterAll`). A call fails exactly if
it offers no rule or one whose id is taken (`perform_eq_error_iff`).

A registry may also be kept in two containers, a table from ids to rules and the ids in the order of
their registration, which a call changes one after the other (`Catalog`). On a state that holds the
rules of a registry every call ends as on the registry, with the state that holds the rules
registered then (`Catalog.perform_ofRules`). So in every run the two containers hold the same ids,
each once (`registry_calls`).
-/

namespace RegionScope

/-! ## Calls -/

/-- A call that registers a rule: one that is handed over, or that of a file, among the files that
there are at the time of the call. -/
inductive RegistryCall where
  | register (rule : Rule)
  | load (files : FileTree) (path : String)

/-- The module that a loader makes of the file at the absolute form of a path, when some rules are
registered. -/
def Loader.module? (loader : Loader) (registered : Nat) (files : FileTree) (path : String) :
    Option RuleModule :=
  match files.lookup (files.absolute path) with
  | .found (.file bytes) =>
    some (loader.execute (moduleName registered) (files.absolute path) bytes)
  | _ => none

/-- The rule that a call offers when some rules are registered. -/
def RegistryCall.rule? (loader : Loader) (registered : Nat) : RegistryCall → Option Rule
  | .register rule => some rule
  | .load files path =>
    if loader.accepts (files.absolute path) then
      (loader.module? registered files path).bind fun module => module.rule?.toOption
    else none

/-- What makes a call fail when some ids are taken: its id is among them, the id of a rule without
one being that of null, or there is no loader or no file for a path, or the module of the file lacks
a part. -/
def RegistryCall.IsRefused (loader : Loader) (ids : List String) : RegistryCall → Prop
  | .register rule => rule.id.elim "None" Json.display ∈ ids
  | .load files path =>
    (∀ suffix ∈ loader.suffixes, ¬ suffix.toList <:+ (files.absolute path).toList) ∨
      files.isFile (files.absolute path) = false ∨
      ∃ module, loader.module? ids.length files path = some module ∧
        (module.id = none ∨ module.name = none ∨ module.run = none ∨
          ∃ id, module.id = some id ∧ id.display ∈ ids)

namespace Loader

variable (loader : Loader) (registered : Nat) (files : FileTree) (path : String)

theorem accepts_iff : loader.accepts path = true ↔
    ∃ suffix ∈ loader.suffixes, suffix.toList <:+ path.toList := by
  simp only [accepts, List.any_eq_true, List.isSuffixOf_iff_suffix]

theorem map_execute_read :
    (files.read (files.absolute path)).toOption.map
        (loader.execute (moduleName registered) (files.absolute path)) =
      loader.module? registered files path := by
  rw [FileTree.read, module?]
  split <;> simp_all [Except.toOption]

theorem isFile_eq_isSome : files.isFile (files.absolute path) =
    (loader.module? registered files path).isSome := by
  rw [FileTree.isFile, module?]
  split <;> simp_all

end Loader

theorem Rule.key_eq_elim (rule : Rule) : rule.key = rule.id.elim "None" Json.display := by
  rw [key]
  cases rule.id <;> rfl

/-- A module offers no rule with a new id exactly if it lacks a part or its id as text is one of
`ids`. -/
theorem RuleModule.forall_rule?_iff (module : RuleModule) {ids : List String} :
    (∀ rule, module.rule?.toOption = some rule → rule.key ∈ ids) ↔
      module.id = none ∨ module.name = none ∨ module.run = none ∨
        ∃ id, module.id = some id ∧ id.display ∈ ids := by
  obtain ⟨id, name, defaultEnabled, run⟩ := module
  cases id with
  | none => exact iff_of_true nofun (.inl rfl)
  | some id =>
    cases name with
    | none => exact iff_of_true nofun (.inr (.inl rfl))
    | some name =>
      cases run with
      | none => exact iff_of_true nofun (.inr (.inr (.inl rfl)))
      | some run =>
        simp [rule?, Except.toOption, Rule.key, Json.display]

namespace Registry

variable {loader : Loader} {registry next : Registry} {call : RegistryCall} {rule : Rule}

/-- What a call makes of a registry. -/
def perform (loader : Loader) (registry : Registry) : RegistryCall → Except Failure Registry
  | .register rule => registry.register rule
  | .load files path => registry.load loader files path

/-- The registry after calls one after the other. -/
def afterAll (loader : Loader) (registry : Registry) (calls : List RegistryCall) : Registry :=
  calls.foldl (fun registry call => registry.after (registry.perform loader call)) registry

/-- The rules of the calls that succeed, in their order. -/
def accepted (loader : Loader) (registry : Registry) : List RegistryCall → List Rule
  | [] => []
  | call :: calls =>
    match registry.perform loader call with
    | .ok next => (call.rule? loader registry.rules.length).toList ++ next.accepted loader calls
    | .error _ => registry.accepted loader calls

theorem length_keys (registry : Registry) : registry.keys.length = registry.rules.length :=
  List.length_map _

theorem register_eq_ok_iff : registry.register rule = .ok next ↔
    rule.key ∉ registry.keys ∧ next = ⟨registry.rules ++ [rule]⟩ := by
  rw [register]
  by_cases hkey : rule.key ∈ registry.keys
  · rw [if_pos (List.contains_iff_mem.2 hkey)]
    exact iff_of_false nofun fun h => h.1 hkey
  · rw [if_neg (fun h => hkey (List.contains_iff_mem.1 h)), Except.ok.injEq]
    exact ⟨fun h => ⟨hkey, h.symm⟩, fun h => h.2.symm⟩

theorem load_of_accepts {files : FileTree} {path : String}
    (h : loader.accepts (files.absolute path) = true) : registry.load loader files path =
      (files.read (files.absolute path)).bind fun bytes =>
        match (loader.execute (Loader.moduleName registry.rules.length) (files.absolute path)
            bytes).rule? with
        | .error part => .error
          (.incompleteRule (Loader.moduleName registry.rules.length) (files.absolute path) part)
        | .ok rule => registry.register rule := by
  rw [load, h]
  rfl

theorem load_of_not_accepts {files : FileTree} {path : String}
    (h : loader.accepts (files.absolute path) = false) :
    registry.load loader files path = .error (.notRuleFile path) := by
  rw [load, h]
  rfl

/-- A file is loaded exactly if the rule that it offers is registered. -/
theorem load_eq_ok_iff {files : FileTree} {path : String} :
    registry.load loader files path = .ok next ↔
      ∃ rule, (RegistryCall.load files path).rule? loader registry.rules.length = some rule ∧
        registry.register rule = .ok next := by
  cases haccepts : loader.accepts (files.absolute path) with
  | true =>
    rw [load_of_accepts haccepts, RegistryCall.rule?, if_pos haccepts, ← loader.map_execute_read]
    cases files.read (files.absolute path) with
    | error failure => exact iff_of_false nofun fun ⟨_, hrule, _⟩ => nomatch hrule
    | ok bytes =>
      simp only [Except.bind, Except.toOption, Option.map_some, Option.bind_some]
      cases (loader.execute (Loader.moduleName registry.rules.length) (files.absolute path)
          bytes).rule? with
      | error part => exact iff_of_false nofun fun ⟨_, hrule, _⟩ => nomatch hrule
      | ok rule => simp
  | false =>
    rw [load_of_not_accepts haccepts, RegistryCall.rule?, if_neg (by simp [haccepts])]
    exact iff_of_false nofun fun ⟨_, hrule, _⟩ => nomatch hrule

/-- A call succeeds exactly if it offers a rule whose id is not taken, which then stands at the
end. -/
theorem perform_eq_ok_iff : registry.perform loader call = .ok next ↔
    ∃ rule, call.rule? loader registry.rules.length = some rule ∧ rule.key ∉ registry.keys ∧
      next = ⟨registry.rules ++ [rule]⟩ := by
  cases call with
  | register rule => simp [perform, RegistryCall.rule?, register_eq_ok_iff]
  | load files path => simp only [perform, load_eq_ok_iff, register_eq_ok_iff]

/-- A call is refused exactly if it offers no rule, or one whose id is taken. -/
theorem isRefused_iff {ids : List String} : call.IsRefused loader ids ↔
    ∀ rule, call.rule? loader ids.length = some rule → rule.key ∈ ids := by
  cases call with
  | register rule => simp [RegistryCall.IsRefused, RegistryCall.rule?, Rule.key_eq_elim]
  | load files path =>
    have haccepts : (∀ suffix ∈ loader.suffixes, ¬ suffix.toList <:+ (files.absolute path).toList) ↔
        ¬ loader.accepts (files.absolute path) = true := by
      rw [loader.accepts_iff]
      simp only [not_exists, not_and]
    rw [RegistryCall.IsRefused, RegistryCall.rule?, loader.isFile_eq_isSome ids.length, haccepts]
    by_cases hloader : loader.accepts (files.absolute path) = true
    · rw [if_pos hloader, or_iff_right (not_not_intro hloader)]
      cases hmodule : loader.module? ids.length files path with
      | none => exact iff_of_true (.inl rfl) nofun
      | some module =>
        rw [Option.bind_some, module.forall_rule?_iff, or_iff_right (by simp)]
        simp
    · rw [if_neg hloader]
      exact iff_of_true (.inl hloader) nofun

theorem perform_eq_error_iff : (∃ failure, registry.perform loader call = .error failure) ↔
    call.IsRefused loader registry.keys := by
  rw [isRefused_iff, length_keys]
  constructor
  · rintro ⟨failure, hfailure⟩ rule hrule
    by_contra hkey
    rw [perform_eq_ok_iff.2 ⟨rule, hrule, hkey, rfl⟩] at hfailure
    cases hfailure
  · intro hrefused
    cases hperform : registry.perform loader call with
    | error failure => exact ⟨failure, rfl⟩
    | ok next =>
      obtain ⟨rule, hrule, hkey, -⟩ := perform_eq_ok_iff.1 hperform
      exact absurd (hrefused rule hrule) hkey

/-! ## Runs of calls -/

theorem afterAll_cons (registry : Registry) (call : RegistryCall) (calls : List RegistryCall) :
    registry.afterAll loader (call :: calls) =
      (registry.after (registry.perform loader call)).afterAll loader calls := rfl

theorem afterAll_append (registry : Registry) (calls later : List RegistryCall) :
    registry.afterAll loader (calls ++ later) =
      (registry.afterAll loader calls).afterAll loader later :=
  List.foldl_append

/-- The registered rules are those of before and those of the calls that succeeded. -/
theorem rules_afterAll (registry : Registry) (calls : List RegistryCall) :
    (registry.afterAll loader calls).rules = registry.rules ++ registry.accepted loader calls := by
  induction calls generalizing registry with
  | nil => exact (List.append_nil _).symm
  | cons call calls ih =>
    rw [afterAll_cons, ih, accepted]
    cases hperform : registry.perform loader call with
    | error failure => rfl
    | ok next =>
      obtain ⟨rule, hrule, -, rfl⟩ := perform_eq_ok_iff.1 hperform
      rw [hrule, after, Option.toList_some, List.append_assoc]

/-- The ids of the registered rules stay different. -/
theorem nodup_keys_afterAll (h : registry.keys.Nodup) (calls : List RegistryCall) :
    (registry.afterAll loader calls).keys.Nodup := by
  induction calls generalizing registry with
  | nil => exact h
  | cons call calls ih =>
    rw [afterAll_cons]
    apply ih
    cases hperform : registry.perform loader call with
    | error failure => exact h
    | ok next =>
      obtain ⟨rule, -, hkey, rfl⟩ := perform_eq_ok_iff.1 hperform
      have hnext : (registry.after (.ok ⟨registry.rules ++ [rule]⟩)).keys =
          registry.keys ++ [rule.key] := keys_of_register (register_eq_ok_iff.2 ⟨hkey, rfl⟩)
      rw [hnext]
      exact List.nodup_append_comm.1 (List.nodup_cons.2 ⟨hkey, h⟩)

end Registry

/-! ## Two containers -/

/-- Rules by their ids, and the ids in the order of their registration. -/
structure Catalog where
  table : AList fun _ : String => Rule
  order : List String

namespace Catalog

/-- Puts a rule into the table, and then its id at the end of the order. -/
def register (rule : Rule) : EStateM Failure Catalog Unit := do
  if rule.key ∈ (← get).table then throw (.duplicateRule rule.key)
  modify fun catalog => { catalog with table := catalog.table.insert rule.key rule }
  modify fun catalog => { catalog with order := catalog.order ++ [rule.key] }

/-- Registers the rule of a file, whose module is named by the number of the rules in the table. -/
def load (loader : Loader) (files : FileTree) (path : String) : EStateM Failure Catalog Unit := do
  let module := Loader.moduleName (← get).table.keys.length
  if loader.accepts (files.absolute path) then
    let bytes ← MonadExcept.ofExcept (files.read (files.absolute path))
    match (loader.execute module (files.absolute path) bytes).rule? with
    | .error part => throw (.incompleteRule module (files.absolute path) part)
    | .ok rule => register rule
  else throw (.notRuleFile path)

/-- What a call does to the two containers. -/
def perform (loader : Loader) : RegistryCall → EStateM Failure Catalog Unit
  | .register rule => register rule
  | .load files path => load loader files path

/-- The two containers after a call, whether or not it succeeds. -/
def after (loader : Loader) (catalog : Catalog) (call : RegistryCall) : Catalog :=
  match (perform loader call).run catalog with
  | .ok _ next => next
  | .error _ next => next

/-- The two containers after calls one after the other. -/
def afterAll (loader : Loader) (catalog : Catalog) (calls : List RegistryCall) : Catalog :=
  calls.foldl (after loader) catalog

/-- The rules in the order of their registration; none if the table lacks one of them. -/
def list? (catalog : Catalog) : Option (List Rule) :=
  catalog.order.mapM fun id => catalog.table.lookup id

/-- The two containers with one rule more. -/
def add (catalog : Catalog) (rule : Rule) : Catalog where
  table := catalog.table.insert rule.key rule
  order := catalog.order ++ [rule.key]

/-- The two containers with some rules, registered one after the other. -/
def ofRules (rules : List Rule) : Catalog := rules.foldl add ⟨∅, []⟩

variable {loader : Loader} {rules : List Rule} {registry next : Registry} {call : RegistryCall}

theorem ofRules_append_singleton (rules : List Rule) (rule : Rule) :
    ofRules (rules ++ [rule]) = (ofRules rules).add rule := List.foldl_append

theorem order_ofRules (rules : List Rule) : (ofRules rules).order = rules.map Rule.key := by
  induction rules using List.reverseRecOn with
  | nil => rfl
  | append_singleton rules rule ih => rw [ofRules_append_singleton, add, ih, List.map_append]; rfl

theorem mem_table_ofRules {id : String} :
    id ∈ (ofRules rules).table ↔ id ∈ rules.map Rule.key := by
  induction rules using List.reverseRecOn with
  | nil => exact iff_of_false (AList.notMem_empty _) List.not_mem_nil
  | append_singleton rules rule ih =>
    rw [ofRules_append_singleton, add, AList.mem_insert, ih, List.map_append, List.mem_append,
      or_comm]
    exact or_congr_right List.mem_singleton.symm

/-- Rules with different ids are all in the table. -/
theorem keys_table_ofRules (h : (rules.map Rule.key).Nodup) :
    (ofRules rules).table.keys.Perm (ofRules rules).order := by
  rw [order_ofRules]
  apply (List.perm_ext_iff_of_nodup (AList.keys_nodup _) h).2
  intro id
  rw [← AList.mem_keys, mem_table_ofRules]

/-- Among rules with different ids each is in the table under its id. -/
theorem lookup_ofRules (h : (rules.map Rule.key).Nodup) {rule : Rule} (hrule : rule ∈ rules) :
    (ofRules rules).table.lookup rule.key = some rule := by
  induction rules using List.reverseRecOn with
  | nil => cases hrule
  | append_singleton rules last ih =>
    rw [ofRules_append_singleton, add]
    rw [List.map_append, List.nodup_append] at h
    rcases List.mem_append.1 hrule with hbefore | hlast
    · have hne : rule.key ≠ last.key :=
        h.2.2 _ (List.mem_map_of_mem hbefore) _ List.mem_cons_self
      rw [AList.lookup_insert_ne hne, ih h.1 hbefore]
    · obtain rfl := List.mem_singleton.1 hlast
      exact AList.lookup_insert _

/-- Rules among those with different ids are found again by their ids. -/
theorem mapM_lookup_ofRules (h : (rules.map Rule.key).Nodup) {part : List Rule}
    (hpart : part ⊆ rules) :
    ((part.map Rule.key).mapM fun id => (ofRules rules).table.lookup id) = some part := by
  induction part with
  | nil => rfl
  | cons rule part ih =>
    have hrule := lookup_ofRules h (hpart List.mem_cons_self)
    rw [List.map_cons, List.mapM_cons, hrule, ih fun _ hmem => hpart (List.mem_cons_of_mem _ hmem)]
    rfl

/-- Rules with different ids are listed as they were registered. -/
theorem list?_ofRules (h : (rules.map Rule.key).Nodup) : (ofRules rules).list? = some rules := by
  rw [list?, order_ofRules]
  exact mapM_lookup_ofRules h (List.Subset.refl rules)

theorem run_register (rule : Rule) (catalog : Catalog) :
    (register rule).run catalog =
      if rule.key ∈ catalog.table then .error (.duplicateRule rule.key) catalog
      else .ok () (catalog.add rule) := by
  have hget : (register rule).run catalog = EStateM.run (do
      if rule.key ∈ catalog.table then throw (.duplicateRule rule.key)
      modify fun catalog => { catalog with table := catalog.table.insert rule.key rule }
      modify fun catalog => { catalog with order := catalog.order ++ [rule.key] }) catalog := rfl
  rw [hget]
  by_cases hkey : rule.key ∈ catalog.table
  · rw [if_pos hkey, if_pos hkey]
    rfl
  · rw [if_neg hkey, if_neg hkey]
    rfl

theorem run_load (files : FileTree) (path : String) (catalog : Catalog) :
    (load loader files path).run catalog =
      if loader.accepts (files.absolute path) then
        match files.read (files.absolute path) with
        | .error failure => .error failure catalog
        | .ok bytes =>
          match (loader.execute (Loader.moduleName catalog.table.keys.length)
              (files.absolute path) bytes).rule? with
          | .error part => .error (.incompleteRule
            (Loader.moduleName catalog.table.keys.length) (files.absolute path) part) catalog
          | .ok rule => (register rule).run catalog
      else .error (.notRuleFile path) catalog := by
  rw [load]
  by_cases haccepts : loader.accepts (files.absolute path) = true
  · rw [if_pos haccepts]
    simp only [if_pos haccepts]
    cases files.read (files.absolute path) with
    | error failure => rfl
    | ok bytes =>
      have hread : (EStateM.run (do
          let module := Loader.moduleName (← get).table.keys.length
          let bytes ← MonadExcept.ofExcept (Except.ok bytes)
          match (loader.execute module (files.absolute path) bytes).rule? with
          | .error part => throw (.incompleteRule module (files.absolute path) part)
          | .ok rule => register rule) catalog) =
        EStateM.run (match (loader.execute (Loader.moduleName catalog.table.keys.length)
            (files.absolute path) bytes).rule? with
          | .error part => throw (.incompleteRule
            (Loader.moduleName catalog.table.keys.length) (files.absolute path) part)
          | .ok rule => register rule) catalog := rfl
      refine hread.trans ?_
      dsimp only
      cases (loader.execute (Loader.moduleName catalog.table.keys.length)
          (files.absolute path) bytes).rule? with
      | error part => rfl
      | ok rule => rfl
  · rw [if_neg haccepts]
    simp only [if_neg haccepts]
    rfl

/-- What a call leaves of the two containers that hold the rules of a registry. -/
def ofResult (registry : Registry) : Except Failure Registry → EStateM.Result Failure Catalog Unit
  | .ok next => .ok () (ofRules next.rules)
  | .error failure => .error failure (ofRules registry.rules)

theorem register_ofRules (registry : Registry) (rule : Rule) :
    (register rule).run (ofRules registry.rules) = ofResult registry (registry.register rule) := by
  have hmem : rule.key ∈ (ofRules registry.rules).table ↔ rule.key ∈ registry.keys :=
    mem_table_ofRules
  rw [run_register]
  by_cases hkey : rule.key ∈ registry.keys
  · rw [if_pos (hmem.2 hkey), Registry.register, if_pos (List.contains_iff_mem.2 hkey)]
    rfl
  · rw [if_neg (mt hmem.1 hkey), Registry.register_eq_ok_iff.2 ⟨hkey, rfl⟩, ofResult,
      ofRules_append_singleton]

/-- On the two containers a call ends as on the registry whose rules they hold. -/
theorem perform_ofRules (h : registry.keys.Nodup) (call : RegistryCall) :
    (perform loader call).run (ofRules registry.rules) =
      ofResult registry (registry.perform loader call) := by
  cases call with
  | register rule => exact register_ofRules registry rule
  | load files path =>
    have hnumber : (ofRules registry.rules).table.keys.length = registry.rules.length := by
      rw [(keys_table_ofRules h).length_eq, order_ofRules, List.length_map]
    rw [perform, run_load, Registry.perform, hnumber]
    cases haccepts : loader.accepts (files.absolute path) with
    | true =>
      rw [if_pos rfl, Registry.load_of_accepts haccepts]
      cases files.read (files.absolute path) with
      | error failure => rfl
      | ok bytes =>
        simp only [Except.bind]
        cases (loader.execute (Loader.moduleName registry.rules.length) (files.absolute path)
            bytes).rule? with
        | error part => rfl
        | ok rule => exact register_ofRules registry rule
    | false =>
      rw [if_neg nofun, Registry.load_of_not_accepts haccepts]
      rfl

theorem after_ofRules (h : registry.keys.Nodup) (call : RegistryCall) :
    (ofRules registry.rules).after loader call =
      ofRules (registry.after (registry.perform loader call)).rules := by
  rw [after, perform_ofRules h]
  cases registry.perform loader call <;> rfl

theorem afterAll_cons (catalog : Catalog) (call : RegistryCall) (calls : List RegistryCall) :
    catalog.afterAll loader (call :: calls) =
      (catalog.after loader call).afterAll loader calls := rfl

theorem afterAll_append (catalog : Catalog) (calls later : List RegistryCall) :
    catalog.afterAll loader (calls ++ later) =
      (catalog.afterAll loader calls).afterAll loader later :=
  List.foldl_append

/-- In every run the two containers hold the rules of the registry. -/
theorem afterAll_ofRules (h : registry.keys.Nodup) (calls : List RegistryCall) :
    (ofRules registry.rules).afterAll loader calls =
      ofRules (registry.afterAll loader calls).rules := by
  induction calls using List.reverseRecOn with
  | nil => rfl
  | append_singleton calls call ih =>
    rw [afterAll_append, ih, Registry.afterAll_append]
    exact after_ofRules (Registry.nodup_keys_afterAll h calls) call

end Catalog

/-- The rules of this library are registered one after the other. -/
theorem Registry.builtin_eq_afterAll (loader : Loader) : Registry.builtin =
    Registry.empty.afterAll loader [.register Pairing.rule, .register Regions.rule] := rfl

theorem Registry.nodup_keys_builtin : Registry.builtin.keys.Nodup := by
  have hempty : Registry.empty.keys.Nodup := List.nodup_nil
  rw [builtin_eq_afterAll ⟨[], fun _ _ _ => ⟨none, none, none, none⟩⟩]
  exact nodup_keys_afterAll hempty _

/-- Whatever calls have been made, and however the host loads rule files, the table and the order
hold the same ids, each once, and the rules listed are those of the start and of the calls that
succeeded, in their order. A further call fails exactly if it is refused for the ids registered so
far, and then it leaves both containers as they are, so that all that follows is as if it had not
been made. -/
theorem registry_calls (loader : Loader) (start : Registry)
    (hstart : start = .empty ∨ start = .builtin) (calls : List RegistryCall) :
    let registry := start.afterAll loader calls
    let catalog := (Catalog.ofRules start.rules).afterAll loader calls
    (catalog.table.keys.Perm catalog.order ∧ catalog.order.Nodup) ∧
      (catalog.list? = some (start.rules ++ start.accepted loader calls) ∧
        registry.rules = start.rules ++ start.accepted loader calls) ∧
      ∀ call,
        (Catalog.perform loader call).run catalog =
            Catalog.ofResult registry (registry.perform loader call) ∧
          ((∃ failure, registry.perform loader call = .error failure) ↔
            call.IsRefused loader catalog.order) ∧
          ∀ failure, registry.perform loader call = .error failure →
            (Catalog.perform loader call).run catalog = .error failure catalog ∧
              ∀ later, start.afterAll loader (calls ++ call :: later) =
                  start.afterAll loader (calls ++ later) ∧
                (Catalog.ofRules start.rules).afterAll loader (calls ++ call :: later) =
                  (Catalog.ofRules start.rules).afterAll loader (calls ++ later) := by
  have hkeys : start.keys.Nodup := by
    rcases hstart with rfl | rfl
    · exact List.nodup_nil
    · exact Registry.nodup_keys_builtin
  intro registry catalog
  have hnodup : registry.keys.Nodup := Registry.nodup_keys_afterAll hkeys calls
  have hrules : registry.rules = start.rules ++ start.accepted loader calls :=
    Registry.rules_afterAll start calls
  have hcatalog : catalog = .ofRules registry.rules := Catalog.afterAll_ofRules hkeys calls
  have horder : catalog.order = registry.keys := by rw [hcatalog, Catalog.order_ofRules]; rfl
  refine ⟨⟨?_, horder ▸ hnodup⟩, ⟨?_, hrules⟩, fun call => ⟨?_, ?_, fun failure hfailure => ?_⟩⟩
  · rw [hcatalog]
    exact Catalog.keys_table_ofRules hnodup
  · rw [hcatalog, Catalog.list?_ofRules hnodup, hrules]
  · rw [hcatalog]
    exact Catalog.perform_ofRules hnodup call
  · rw [horder]
    exact Registry.perform_eq_error_iff
  · have hperform : (Catalog.perform loader call).run catalog = .error failure catalog := by
      rw [hcatalog, Catalog.perform_ofRules hnodup, hfailure]
      rfl
    refine ⟨hperform, fun later => ⟨?_, ?_⟩⟩
    · have hafter : registry.after (registry.perform loader call) = registry := by
        rw [hfailure]
        rfl
      rw [Registry.afterAll_append, Registry.afterAll_append, Registry.afterAll_cons, hafter]
    · have hafter : catalog.after loader call = catalog := by rw [Catalog.after, hperform]
      rw [Catalog.afterAll_append, Catalog.afterAll_append, Catalog.afterAll_cons, hafter]

/-- A loader that knows one rule file by its text, with what it defines. -/
def Loader.knowing (source : String) (known : RuleModule) : Loader where
  suffixes := [".py", ".pyc"]
  execute _ _ bytes :=
    if bytes.toList = source.toUTF8.toList then known else ⟨none, none, none, none⟩

theorem Loader.execute_knowing (source : String) (known : RuleModule) (module path : String) :
    (knowing source known).execute module path source.toUTF8 = known := if_pos rfl

/-- What a rule file defines that has an id, a name and a function that reports nothing. -/
def silentModule : RuleModule := ⟨some (.str "7"), some (.str "seven"), none, some fun _ => []⟩

/-- Behind a rule with the number 7 for its id, a file whose rule has the text 7 is refused and
leaves no trace. -/
theorem registry_calls_colliding_ids :
    let source := "PLUGIN_ID = '7'\nPLUGIN_NAME = 'seven'\n\ndef run(context):\n    return []\n"
    let loader := Loader.knowing source silentModule
    let files : FileTree := ⟨[("seven.py", .file source.toUTF8)], []⟩
    let number : RegistryCall := .register ⟨some (.int 7), none, none, fun _ => []⟩
    let text : RegistryCall := .load files "seven.py"
    let catalog := (Catalog.ofRules Registry.builtin.rules).afterAll loader [number]
    (catalog.order = Registry.builtin.keys ++ ["7"] ∧ text.IsRefused loader catalog.order) ∧
      ∃ failure, (Catalog.perform loader text).run catalog = .error failure catalog ∧
        ∀ later, Registry.builtin.afterAll loader (number :: text :: later) =
          Registry.builtin.afterAll loader (number :: later) := by
  intro source loader files number text catalog
  have hkeys : catalog.order = Registry.builtin.keys ++ ["7"] := by decide +kernel
  have hrefused : text.IsRefused loader catalog.order := by
    rw [hkeys]
    have habsolute : files.absolute "seven.py" = "/seven.py" := by decide +kernel
    have hlookup : files.lookup "/seven.py" = .found (.file source.toUTF8) := rfl
    refine .inr (.inr ⟨silentModule, ?_, ?_⟩)
    · rw [Loader.module?, habsolute, hlookup]
      exact congrArg some (Loader.execute_knowing source silentModule _ _)
    · exact .inr (.inr (.inr ⟨.str "7", rfl, List.mem_of_elem_eq_true (by decide +kernel)⟩))
  obtain ⟨-, -, hcall⟩ := registry_calls loader .builtin (.inr rfl) [number]
  obtain ⟨-, hiff, hatomic⟩ := hcall text
  obtain ⟨failure, hfailure⟩ := hiff.2 hrefused
  obtain ⟨hperform, hlater⟩ := hatomic failure hfailure
  exact ⟨⟨hkeys, hrefused⟩, failure, hperform, fun later => (hlater later).1⟩

/-- A path is put into its normal form before its end is looked at, so a slash behind the name of a
rule file does not keep it from being loaded. -/
theorem load_of_trailing_slash :
    let source := "PLUGIN_ID = '7'\nPLUGIN_NAME = 'seven'\n\ndef run(context):\n    return []\n"
    let files : FileTree := ⟨[("f.py", .file source.toUTF8)], []⟩
    ¬ ".py".toList <:+ "f.py/".toList ∧
      (Registry.builtin.load (.knowing source silentModule) files "f.py/").toOption.map
          Registry.keys =
        some (Registry.builtin.keys ++ ["7"]) := by
  decide +kernel

end RegionScope
