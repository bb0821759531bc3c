import RegionScope.Files.Tree
import RegionScope.Lint.Pairing
import RegionScope.Lint.Regions
import RegionScope.Lint.RuleFile
import RegionScope.Text.Decode

/-!
# Registry of rules

Rules in the order of their registration, each known by the text of its id. A rule whose
id is taken cannot be registered, and a call that fails changes nothing.

A selection of rules is made from three sets of ids. If `only` names any rules, these are
taken, otherwise the default rules and those of `enable`; in both cases `disable` wins. An
id that is not registered is refused wherever it stands.
-/

namespace RegionScope

open RegionScope.Text

/-- The registered rules, in order. -/
structure Registry where
  rules : List Rule

namespace Registry

/-- The registry without rules. -/
def empty : Registry := ⟨[]⟩

/-- The ids of the registered rules, in order. -/
def keys (registry : Registry) : List String := registry.rules.map Rule.key

/-- Adds a rule at the end. -/
def register (registry : Registry) (rule : Rule) : Except Failure Registry :=
  if registry.keys.contains rule.key then .error (.duplicateRule rule.key)
  else .ok ⟨registry.rules ++ [rule]⟩

/-- A registered rule stands behind all others. -/
theorem keys_of_register {registry next : Registry} {rule : Rule}
    (h : registry.register rule = .ok next) : next.keys = registry.keys ++ [rule.key] := by
  unfold register at h
  split at h
  · cases h
  · cases h
    simp [keys]

/-- Adds the rule that a rule file defines. -/
def load (loader : Loader) (registry : Registry) (files : FileTree) (path : String) :
    Except Failure Registry := do
  let absolute := files.absolute path
  let module := Loader.moduleName registry.rules.length
  if !loader.accepts absolute then .error (.notRuleFile path)
  else
    let bytes ← files.read absolute
    match (loader.execute module absolute bytes).rule? with
    | .error part => .error (.incompleteRule module absolute part)
    | .ok rule => registry.register rule

/-- The registry after a call: the new one if the call succeeded, else the old one. -/
def after (registry : Registry) (result : Except Failure Registry) : Registry :=
  match result with
  | .ok next => next
  | .error _ => registry

/-- The registry of the two rules of this library. -/
def builtin : Registry := ⟨[Pairing.rule, Regions.rule]⟩

/-- Sets of ids that a selection is made from. -/
structure Selection where
  only : List String
  enable : List String
  disable : List String

/-- All ids that a selection names. -/
def Selection.named (selection : Selection) : List String :=
  selection.only ++ selection.enable ++ selection.disable

/-- Whether a selection takes a rule. -/
def Selection.takes (selection : Selection) (rule : Rule) : Bool :=
  (if selection.only.isEmpty then rule.isDefault || selection.enable.contains rule.key
   else selection.only.contains rule.key) &&
    !selection.disable.contains rule.key

/-- The selected rules in the order of their registration; the ids that are not registered
are a failure. -/
def select (registry : Registry) (selection : Selection) : Except Failure (List Rule) :=
  match sortedSet (selection.named.filter fun id => !registry.keys.contains id) with
  | [] => .ok (registry.rules.filter selection.takes)
  | unknown => .error (.unknownRules unknown)

end Registry

/-- The issues of the bytes of a source file. -/
def lintBytes (calls : Nat) (rules : List Rule) (path : String) (bytes : ByteArray) :
    Except Failure (List Issue) :=
  match decodeSource? bytes with
  | some text => lintTextWithin calls rules path text
  | none => .error .undecodable

/-- The issues of the source file at a path. -/
def lintFile (calls : Nat) (rules : List Rule) (files : FileTree) (path : String) :
    Except Failure (List Issue) := do
  lintBytes calls rules path (← files.read path)

end RegionScope
