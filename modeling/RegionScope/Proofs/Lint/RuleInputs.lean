import Mathlib.Data.List.Basic
import RegionScope.Lint.Registry

/-!
# What a rule reads

A rule is given all there is to know of a text. The two rules of this library read the outline and
its directives alone, and so look neither at the path of the file nor at the text itself
(`readsOutline_of_mem_builtin`). Rules that read no more than two contexts have in common report the
same in both (`runRules_congr`).
-/

namespace RegionScope

namespace Rule

variable {rule : Rule}

/-- A rule that reads nothing but the outline and the directives in it. -/
def ReadsOutline (rule : Rule) : Prop :=
  ∀ context other : Context, context.tree = other.tree → context.directives = other.directives →
    rule.run context = rule.run other

/-- A rule that does not read the path of the file. -/
def IgnoresPath (rule : Rule) : Prop :=
  ∀ (context : Context) (path : Option String),
    rule.run { context with path := path } = rule.run context

theorem ReadsOutline.ignoresPath (h : rule.ReadsOutline) : rule.IgnoresPath :=
  fun context path => h { context with path := path } context rfl rfl

end Rule

theorem Pairing.readsOutline_rule : Pairing.rule.ReadsOutline := by
  rintro ⟨path, text, lines, tree, directives⟩ ⟨path', text', lines', tree', directives'⟩ htree
    hdirectives
  obtain rfl : tree = tree' := htree
  obtain rfl : directives = directives' := hdirectives
  rfl

theorem Regions.readsOutline_rule : Regions.rule.ReadsOutline := by
  rintro ⟨path, text, lines, tree, directives⟩ ⟨path', text', lines', tree', directives'⟩ htree
    hdirectives
  obtain rfl : tree = tree' := htree
  obtain rfl : directives = directives' := hdirectives
  rfl

theorem readsOutline_of_mem_builtin {rule : Rule} (h : rule ∈ Registry.builtin.rules) :
    rule.ReadsOutline := by
  rcases List.mem_cons.1 h with rfl | h
  · exact Pairing.readsOutline_rule
  · obtain rfl := List.mem_singleton.1 h
    exact Regions.readsOutline_rule

/-- Rules that report the same in two contexts have the same issues there. -/
theorem runRules_congr {context other : Context} {rules : List Rule}
    (h : ∀ rule ∈ rules, rule.run context = rule.run other) :
    runRules context rules = runRules other rules := by
  rw [runRules, runRules]
  congr 1
  exact List.flatMap_congr fun rule hrule => by rw [h rule hrule]

end RegionScope
