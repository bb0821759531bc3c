import RegionScope.Lint.Rule

/-!
# Rule files

A rule file is a program. What it defines when it is executed, and what the function reports that
it defines, is up to the program, and how a program is executed is up to the host: the loader of a
host knows rule files by the ends of their paths, and makes a module of the bytes of one. Of the
parts of a module each may be missing; from a complete one a rule is made.
-/

namespace RegionScope

/-- What a rule file defines of the parts of a rule. -/
structure RuleModule where
  id : Option Json
  name : Option Json
  defaultEnabled : Option Json
  run : Option (Context → List Issue)

/-- The rule of a complete module, or the first part that is missing. Id and name count as
text, and the default as a truth value. -/
def RuleModule.rule? (module : RuleModule) : Except String Rule :=
  match module.id, module.name, module.run with
  | none, _, _ => .error "PLUGIN_ID"
  | _, none, _ => .error "PLUGIN_NAME"
  | _, _, none => .error "run"
  | some id, some name, some run => .ok
    { id := some (.str id.display)
      name := some (.str name.display)
      defaultEnabled := some (.bool ((module.defaultEnabled.getD (.bool true)).truthy))
      run := run }

/-- How a host loads rule files: the ends of the paths that it has a loader for, and the module
that the bytes of a file define under a module name and an absolute path. -/
structure Loader where
  suffixes : List String
  execute : (module path : String) → ByteArray → RuleModule

namespace Loader

/-- Whether the host has a loader for a path. -/
def accepts (loader : Loader) (path : String) : Bool :=
  loader.suffixes.any fun suffix => suffix.toList.isSuffixOf path.toList

/-- The name of the module that is loaded when some rules are registered. -/
def moduleName (registered : Nat) : String := "region_lint_plugin_" ++ toString registered

end Loader

end RegionScope
