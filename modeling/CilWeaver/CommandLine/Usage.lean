import CilWeaver.CommandLine.Arguments

/-!
What the program says about its own arguments.
-/

namespace CilWeaver

def usageText : String :=
  "Weaves the time of day into the marker methods of a module and its symbols, in place.\n\n"
    ++ "Usage: cil-weaver [OPTIONS] <FILE>\n\n"
    ++ "Options:\n"
    ++ "      --symbols <FILE>      The symbol file, if it does not stand beside the module\n"
    ++ "  -r, --reference <PATH>    A referenced module, or a directory of such modules\n"
    ++ "  -D, --define <SYMBOL>     A symbol of the compilation\n"
    ++ "      --resolver <KIND>     search, runtime or chain (both, the default)\n"
    ++ "      --time <HH:MM:SS>     The time to weave, instead of the present one\n"
    ++ "      --strip-original      Drop the code that was in the marker methods\n"
    ++ "      --dry-run             Change no file\n"
    ++ "      --json                Print the report as JSON\n"
    ++ "  -v, --verbose             Say more\n"
    ++ "  -h, --help                Print this text\n"
    ++ "  -V, --version             Print the version\n"

def versionText : String := "cil-weaver 0.1.0\n"

/-- What to print when the arguments stop the program. -/
def UsageStop.text : UsageStop → String
  | help => usageText
  | version => versionText
  | missingPath => "error: the module to weave is missing\n"
  | unknownArgument => "error: unexpected argument\n"
  | invalidValue => "error: an argument has no value, or one that is not possible\n"
  | invalidTime => "error: the time is not of the form HH:MM:SS\n"
  | repeated => "error: an argument is given twice\n"
  | unneededValue => "error: an argument has a value and takes none\n"

end CilWeaver
