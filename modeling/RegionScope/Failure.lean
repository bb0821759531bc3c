import RegionScope.Text.Quoted

/-!
# Failures

What can go wrong: files, settings, the registry of rules, the output. A source text is at fault
only where its literals are nested more deeply than the host nests calls; every other text has an
outline. The wording of each failure is in `Failure.message`.
-/

namespace RegionScope

open RegionScope.Text

/-- What a host goes down into by calls, which it nests to a bound only. -/
inductive Nesting where
  /-- Literals in the holes of strings. -/
  | literals
  /-- Directories in directories. -/
  | directories
  /-- Values in values that are written. -/
  | values
deriving DecidableEq, Repr

/-- The causes of failure. -/
inductive Failure where
  /-- A file to open is not there. -/
  | missingFile (path : String)
  /-- A directory stands where a file is to be opened. -/
  | isDirectory (path : String)
  /-- A file stands where a path needs a directory. -/
  | notDirectory (path : String)
  /-- A path to open, or a name in it, is longer than paths and names may be. -/
  | nameTooLong (path : String)
  /-- A path to open holds a null character. -/
  | nullInPath
  /-- The bytes of a file are no UTF-8. -/
  | undecodable
  /-- A settings file holds no JSON value. -/
  | malformedSettings
  /-- The value in a settings file is no object. -/
  | settingsNotObject (path : String)
  /-- A key of a settings file names no setting. -/
  | unknownSetting (key : String)
  /-- The value of a setting that is a list is none. -/
  | settingNotList (key : String)
  /-- Two dashes alone stand where the path of the settings file belongs. -/
  | voidPath
  /-- Two dashes alone stand where ids of rules belong. -/
  | voidIds
  /-- An input path is neither a file nor a directory. -/
  | missingInput (path : String)
  /-- A rule of this id is registered. -/
  | duplicateRule (id : String)
  /-- No rules of these ids are registered. -/
  | unknownRules (ids : List String)
  /-- A rule path does not end like a rule file. -/
  | notRuleFile (path : String)
  /-- The module of a rule file lacks a part. -/
  | incompleteRule (module : String) (path : String) (part : String)
  /-- Something is nested more deeply than the host nests calls. -/
  | tooDeep (nesting : Nesting)
  /-- A value has no written form. -/
  | unwritable (reason : String)
  /-- A group was asked for without a directive. -/
  | noDirective
  /-- Containment was asked for without a region. -/
  | noRegion
deriving DecidableEq, Repr

namespace Failure

/-- The wording of a failure. The texts of the two that a reader reports are left to it, and what a
host says of its calls behind the wording of `tooDeep`. -/
def message : Failure → String
  | missingFile path => "[Errno 2] No such file or directory: " ++ quoteString path
  | isDirectory path => "[Errno 21] Is a directory: " ++ quoteString path
  | notDirectory path => "[Errno 20] Not a directory: " ++ quoteString path
  | nameTooLong path => "[Errno 36] File name too long: " ++ quoteString path
  | nullInPath => "embedded null byte"
  | undecodable => "invalid UTF-8"
  | malformedSettings => "malformed settings"
  | settingsNotObject path => "Config must be a JSON object: " ++ path
  | unknownSetting key => "Unknown config key: " ++ key
  | settingNotList key => "Config key " ++ key ++ " must be a list"
  | voidPath => "expected str, bytes or os.PathLike object, not list"
  | voidIds => "'list' object has no attribute 'split'"
  | missingInput path => "Input path not found: " ++ path
  | duplicateRule id => "Duplicate plugin id: " ++ id
  | unknownRules ids => "Unknown plugin id(s): " ++ ", ".intercalate ids
  | notRuleFile path => "Unable to load plugin module: " ++ path
  | incompleteRule module path part =>
    "Plugin module <module " ++ quoteString module ++ " from " ++ quoteString path ++
      "> is missing " ++ part
  | tooDeep _ => "maximum recursion depth exceeded"
  | unwritable reason => reason
  | noDirective => "directive is required"
  | noRegion => "region is required"

end Failure

end RegionScope
