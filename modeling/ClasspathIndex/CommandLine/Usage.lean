import ClasspathIndex.CommandLine.Run

/-!
# Texts for the terminal

What is shown for a command line that is not carried out, and for a failure.
-/

namespace ClasspathIndex.CommandLine

/-- The name and the number of the program. -/
def versionText : String := "classdex 0.1.0\n"

/-- How the program is used. -/
def helpText : String :=
  String.join
    ["Resolve Java classes and methods from compiled classpaths\n\n",
      "Usage: classdex [OPTIONS] <COMMAND>\n\n",
      "Commands:\n",
      "  resolve <REFERENCES>... [--json]  Resolve class and method references\n",
      "  list                              List every indexed class\n",
      "  help                              Print this message\n\n",
      "Options:\n",
      "      --config <FILE>               Configuration file (default: ./classdex.toml)\n",
      "      --base-package <NAME>         Dotted namespace to index\n",
      "      --classpath <PATH>            Directory or archive to scan; may be repeated\n",
      "      --javadoc-url <URL>           Base URL of the published Javadoc\n",
      "      --anchor-style <STYLE>        Anchor format of method links: legacy, modern\n",
      "      --fail-on-duplicates          Abort when two roots define the same class\n",
      "  -v, --verbose                     Increase log verbosity\n",
      "  -h, --help                        Print help\n",
      "  -V, --version                     Print version\n"]

/-- The error in words. -/
def UsageError.message : UsageError → String
  | helpRequested => helpText
  | versionRequested => versionText
  | nothingGiven => helpText
  | missingCommand => "error: a command is required: resolve, list or help\n"
  | unknownCommand word => "error: unrecognized command '" ++ word ++ "'\n"
  | unknownArgument word => "error: unexpected argument '" ++ word ++ "' found\n"
  | invalidValue => "error: an option has no value, or one that is not allowed\n"
  | repeatedOption => "error: an option cannot be used multiple times\n"
  | unexpectedValue => "error: a flag has a value\n"
  | missingReferences => "error: no references were provided\n"

/-- A number and a text, on a line of their own. -/
def causeLine (number : Nat) (text : String) : String :=
  "    " ++ toString number ++ ": " ++ text ++ "\n"

/-- A failure and its causes. -/
def failureText : List String → String
  | [] => ""
  | [what] => "Error: " ++ what ++ "\n"
  | [what, cause] => "Error: " ++ what ++ "\n\nCaused by:\n    " ++ cause ++ "\n"
  | what :: causes =>
    "Error: " ++ what ++ "\n\nCaused by:\n" ++
      String.join (causes.zipIdx.map fun c => causeLine c.2 c.1)

end ClasspathIndex.CommandLine
