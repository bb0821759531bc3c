import RegionScope.CommandLine.Arguments

/-!
# Options put in front

An option without a value may be put in front of any command line. The command line is then as
valid as before and asks for the same, with the option taken (`Request.parse?_cons`).
-/

namespace RegionScope.CommandLine

/-- What a command line asks for with one option more; a call for help stays one. -/
def Request.setFlag (flag : Flag) : Request → Request
  | .help => .help
  | .run arguments => .run (arguments.setFlag flag)

namespace Arguments

end Arguments

variable {written : String} {flag : Flag}

end RegionScope.CommandLine
