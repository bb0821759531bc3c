import RegionScope.Files.Tree
import RegionScope.Json.Display
import RegionScope.Json.Reader
import RegionScope.Text.Decode
import RegionScope.Text.Lowercase

/-!
# Settings

The settings of a run: the extensions of source files, the rules to take, to enable and to
disable, and the paths of rule files. A settings file is an object whose keys replace the
defaults one by one. Its keys are checked in order, so the first bad one is reported.
-/

namespace RegionScope

open RegionScope.Text

/-- The settings of a run. -/
structure Settings where
  extensions : String
  only : List String
  enable : List String
  disable : List String
  pluginPaths : List String
deriving DecidableEq, Repr

namespace Settings

/-- The settings without a settings file. -/
def default : Settings := ⟨".cs", [], [], [], []⟩

/-- The settings that are lists. -/
inductive ListSetting where
  | only
  | enable
  | disable
  | pluginPaths
deriving DecidableEq, Repr

/-- The list setting of a key. -/
def ListSetting.ofKey? (key : String) : Option ListSetting :=
  [("only", only), ("enable", enable), ("disable", disable),
   ("plugin_paths", pluginPaths)].lookup key

/-- The settings with one list replaced. -/
def setList (settings : Settings) (setting : ListSetting) (items : List String) : Settings :=
  match setting with
  | .only => { settings with only := items }
  | .enable => { settings with enable := items }
  | .disable => { settings with disable := items }
  | .pluginPaths => { settings with pluginPaths := items }

/-- The settings with the value of a key taken in. -/
def set (settings : Settings) (key : String) (value : Json) : Except Failure Settings :=
  if key = "extensions" then .ok { settings with extensions := value.display }
  else
    match ListSetting.ofKey? key, value with
    | none, _ => .error (.unknownSetting key)
    | some setting, .arr items => .ok (settings.setList setting (items.map Json.display))
    | some _, _ => .error (.settingNotList key)

/-- The settings that the fields of an object make of the defaults. -/
def ofFields (fields : Json.Fields) : Except Failure Settings :=
  fields.foldlM (fun settings field => settings.set field.1 field.2) default

/-- The settings of a value, read from the file at `path`. -/
def ofJson (path : String) (value : Json) : Except Failure Settings :=
  match value with
  | .obj fields => ofFields fields
  | _ => .error (.settingsNotObject path)

/-- The settings of a run: those of the file at the path, or the defaults. -/
def load (files : FileTree) (path : Option String) : Except Failure Settings :=
  match path with
  | none => .ok default
  | some path => do
    let bytes ← files.read path
    match decode? bytes with
    | none => .error .undecodable
    | some text =>
      match Json.read? text with
      | none => .error .malformedSettings
      | some value => ofJson path value

/-- The extensions that a comma-separated list names: trimmed, in lower case and with a dot
in front. -/
def extensionList (extensions : String) : List String :=
  let items := (splitString ',' extensions).map fun item => lowercase (trimString item)
  (items.filter (· != "")).map fun item =>
    if item.toList.head? = some '.' then item else "." ++ item

end Settings

end RegionScope
