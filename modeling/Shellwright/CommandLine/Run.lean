import Shellwright.CommandLine.Args

/-!
# Calls

What is printed when arguments ask for no build, and calls of the program.
-/

namespace Shellwright.CommandLine

/-- The last line of what is said about arguments that are not understood. -/
def helpHint : String := "For more information, try '--help'."

/-- The name of the program and its version. -/
def versionLine : String := "bish 0.1.0"

/-- What the program is for and how it is called. -/
def helpText : String :=
  "Compile bish scripts to bash\n\n" ++ usageLine ++ "\n\n"
    ++ "Arguments:\n"
    ++ "  [INPUT]  Script to compile\n\n"
    ++ "Options:\n"
    ++ "      --target <TARGET>  Output shell dialect [default: bash]\n"
    ++ "      --library          Compile as a library: functions only, no entry call\n"
    ++ "  -o, --out <FILE>       Write output to a file instead of stdout"
    ++ " (sets the executable bit)\n"
    ++ "      --no-chmod-x       Do not set the executable bit on the output file\n"
    ++ "      --check            Run the whole pipeline without emitting code\n"
    ++ "      --emit-ast         Dump the parsed program (debug)\n"
    ++ "      --emit-ir          Dump the lowered module (debug)\n"
    ++ "  -h, --help             Print help\n"
    ++ "  -V, --version          Print version\n"

/-- The response to arguments that ask for no build. -/
def Stop.response : Stop → Response
  | .help => ⟨0, helpText, ""⟩
  | .version => ⟨0, versionLine ++ "\n", ""⟩
  | .fault f =>
    ⟨1, "", "error: " ++ f.message ++ "\n\n" ++ usageLine ++ "\n\n" ++ helpHint ++ "\n"⟩

/-- Arguments as a request, or the response to those that ask for no build. -/
def readArgs (args : List String) : Except Response Request :=
  (Request.ofArgs args).mapError Stop.response

/-- A call in a tree of files, for one who works in `home`. -/
def run (t : Tree) (home : List String) (args : List String) : Response × Tree :=
  runWith readArgs t home args

end Shellwright.CommandLine
