import RegionScope.Failure
import RegionScope.Text.Digit
import RegionScope.Text.Place

/-!
# Command line arguments

An argument is an option or an operand. Options may be shortened to any beginning that
belongs to one option only; a value is the next argument, or follows an equals sign, or
directly the letter of a short option. Two dashes alone end the options. A dash alone, the
empty argument, negative numbers and arguments with a space are operands.

Two dashes alone are never the text of a value. Where they follow the equals sign or the
letter, the option is given and its value is void; what needs the text of a void value fails.

The operands are the input paths and must stand together; without any, the current
directory is the input.
-/

namespace RegionScope.CommandLine

open RegionScope.Text

/-- The options. -/
inductive Flag where
  | help
  | config
  | only
  | disable
  | listPlugins
  | json
  | failOnWarn
deriving DecidableEq, Repr

/-- Whether an option takes a value. -/
def Flag.takesValue : Flag → Bool
  | .config | .only | .disable => true
  | _ => false

/-- The spellings of the options. -/
def spellings : List (String × Flag) :=
  [("-h", .help), ("--help", .help), ("-c", .config), ("--config", .config), ("--only", .only),
   ("--disable", .disable), ("--list-plugins", .listPlugins), ("--json", .json),
   ("--fail-on-warn", .failOnWarn)]

/-- One argument as it is understood: an operand, an option perhaps with a value of its
own, or the end of the options. -/
inductive Argument where
  | operand (text : String)
  | option (flag : Flag) (value : Option String)
  | endOfOptions
deriving DecidableEq, Repr

/-- An argument cut at its first equals sign. -/
def cutEquals (cs : List Char) : List Char × Option (List Char) :=
  match cs.dropWhile (· != '=') with
  | [] => (cs, none)
  | _ :: value => (cs.takeWhile (· != '='), some value)

/-- Whether an argument is written like a negative number, with or without decimals. -/
def isNegativeNumber (cs : List Char) : Bool :=
  match cs with
  | '-' :: rest =>
    match rest.dropWhile isDecimal with
    | '.' :: places =>
      places.head?.any isDecimal && isEnd (places.dropWhile isDecimal)
    | tail => rest.head?.any isDecimal && isEnd tail
  | _ => false

/-- The options that an argument with two dashes may shorten, and its value. -/
def longMatches (cs : List Char) : List Argument :=
  let cut := cutEquals cs
  (spellings.filter fun s => cut.1.isPrefixOf s.1.toList).map fun s =>
    .option s.2 (cut.2.map String.ofList)

/-- The short option that an argument with one dash begins with, and its value behind it. -/
def shortMatches (cs : List Char) : List Argument :=
  (spellings.filter fun s => s.1.toList == cs.take 2).map fun s =>
    .option s.2 (some (String.ofList (cs.drop 2)))

/-- What an argument in front of the end of the options is; none if it looks like an option
and belongs to none or to several. -/
def classify (arg : String) : Option Argument :=
  let cs := arg.toList
  if cs.head? ≠ some '-' then some (.operand arg)
  else
    match spellings.lookup arg with
    | some flag => some (.option flag none)
    | none =>
      if cs.length = 1 then some (.operand arg)
      else
        let cut := cutEquals cs
        match cut.2, spellings.lookup (String.ofList cut.1) with
        | some value, some flag => some (.option flag (some (String.ofList value)))
        | _, _ =>
          match if (cs.drop 1).head? = some '-' then longMatches cs else shortMatches cs with
          | [single] => some single
          | _ :: _ => none
          | [] => if isNegativeNumber cs || cs.contains ' ' then some (.operand arg) else none

/-- What the arguments are. Behind the first two dashes alone all are operands. -/
def classifyAll : List String → Option (List Argument)
  | [] => some []
  | arg :: rest =>
    if arg = "--" then some (.endOfOptions :: rest.map .operand)
    else do
      let first ← classify arg
      let others ← classifyAll rest
      return first :: others

/-- The value of an option: a text, or void where two dashes alone stand. -/
inductive OptionValue where
  | text (value : String)
  | void
deriving DecidableEq, Repr

/-- The value that is written so. -/
def OptionValue.ofString (written : String) : OptionValue :=
  if written = "--" then .void else .text written

/-- The text of a value; a void value is the failure. -/
def OptionValue.textOr (failure : Failure) : OptionValue → Except Failure String
  | .text value => .ok value
  | .void => .error failure

/-- What a command line asks for. -/
structure Arguments where
  paths : List String
  config : Option OptionValue
  only : List OptionValue
  disable : List OptionValue
  listPlugins : Bool
  json : Bool
  failOnWarn : Bool
deriving DecidableEq, Repr

namespace Arguments

/-- What an empty command line asks for. -/
def default : Arguments := ⟨["."], none, [], [], false, false, false⟩

/-- Takes an option without a value. -/
def setFlag (arguments : Arguments) : Flag → Arguments
  | .listPlugins => { arguments with listPlugins := true }
  | .json => { arguments with json := true }
  | .failOnWarn => { arguments with failOnWarn := true }
  | _ => arguments

/-- Takes an option with its value. -/
def setValue (arguments : Arguments) (flag : Flag) (value : String) : Arguments :=
  match flag with
  | .config => { arguments with config := some (.ofString value) }
  | .only => { arguments with only := arguments.only ++ [.ofString value] }
  | .disable => { arguments with disable := arguments.disable ++ [.ofString value] }
  | _ => arguments

/-- Where the operands stand: not met yet, being met, or met before the last option. -/
inductive Operands where
  | ahead
  | here
  | behind
deriving DecidableEq, Repr

/-- What stands of the operands after an option. -/
def Operands.leave : Operands → Operands
  | .ahead => .ahead
  | _ => .behind

/-- Takes an operand into the input paths. -/
def addPath (arguments : Arguments) (operands : Operands) (path : String) : Arguments :=
  if operands = .ahead then { arguments with paths := [path] }
  else { arguments with paths := arguments.paths ++ [path] }

/-- Takes the arguments from left to right; none if operands stand apart, a value is
missing, or an option has one that takes none. -/
def collect (arguments : Arguments) (operands : Operands) : List Argument → Option Arguments
  | [] => some arguments
  | .endOfOptions :: rest =>
    if operands = .behind then none else collect arguments operands rest
  | .operand path :: rest =>
    if operands = .behind then none
    else collect (arguments.addPath operands path) .here rest
  | .option flag value :: rest =>
    if flag.takesValue then
      match value, rest with
      | some value, rest => collect (arguments.setValue flag value) operands.leave rest
      | none, .operand value :: rest => collect (arguments.setValue flag value) operands.leave rest
      | none, _ => none
    else
      match value with
      | some _ => none
      | none => collect (arguments.setFlag flag) operands.leave rest

/-- The path of the settings file, if one is asked for. -/
def configPath (arguments : Arguments) : Except Failure (Option String) :=
  arguments.config.mapM (·.textOr .voidPath)

/-- The texts of option values that hold ids. -/
def idTexts (values : List OptionValue) : Except Failure (List String) :=
  values.mapM (·.textOr .voidIds)

end Arguments

/-- What a command line is: a call for help, or a run. -/
inductive Request where
  | help
  | run (arguments : Arguments)
deriving DecidableEq, Repr

/-- The request of a command line; none if it is no valid one. -/
def Request.parse? (args : List String) : Option Request := do
  let arguments ← classifyAll args
  let collected ← Arguments.collect .default .ahead arguments
  if arguments.contains (.option .help none) then return .help else return .run collected

end RegionScope.CommandLine
