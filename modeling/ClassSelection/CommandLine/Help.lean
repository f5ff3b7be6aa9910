/-!
# Help

The help texts: a short one with a line for each argument, and a long one with room between them.
-/

namespace ClassSelection.Help

structure Entry where
  label : String
  description : String

def arguments : List Entry := [
  ⟨"  <INPUT>", "ACS routine source file"⟩,
  ⟨"  [OUTPUT|OPTION]...",
    "Output file, followed by bare options (`debug` shows lots of debug messages)"⟩]

/-- The options; the one for help refers to the other help text. -/
def options (reference : String) : List Entry := [
  ⟨"      --log-level <LEVEL>", "Log level (trace, debug, info, warn, error)"⟩,
  ⟨"      --format <FORMAT>", "Output format (csv, json)"⟩,
  ⟨"      --combine <MODE>", "How AND combines alternative sets (merge, distribute)"⟩,
  ⟨"      --symbolic", "Print comparators as symbols (`>`) instead of mnemonics (`GT`)"⟩,
  ⟨"      --config <FILE>", "JSON config file"⟩,
  ⟨"  -h, --help", "Print help (see " ++ reference ++ ")"⟩,
  ⟨"  -V, --version", "Print version"⟩]

def usage : String := "Usage: acs-extract [OPTIONS] <INPUT> [OUTPUT|OPTION]..."

def shortSection (title : String) (entries : List Entry) : String :=
  let width := (entries.map (·.label.length)).foldl max 0 + 2
  title ++ ":\n" ++ String.join (entries.map fun entry =>
    String.ofList (entry.label.toList.rightpad width ' ') ++ entry.description ++ "\n")

def longSection (title : String) (entries : List Entry) : String :=
  title ++ ":\n" ++ "\n".intercalate (entries.map fun entry =>
    entry.label ++ "\n          " ++ entry.description ++ "\n")

def short : String :=
  "Reads in an ACS routine and generates a CSV list of rules\n\n" ++ usage ++ "\n\n" ++
    shortSection "Arguments" arguments ++ "\n" ++
    shortSection "Options" (options "more with '--help'")

def long : String :=
  "Reads in an ACS routine and generates a CSV list of rules.\n\n" ++
    "If you do not specify an output file, the input filename is used with the extension .csv " ++
    "(or .json).\n\n" ++ usage ++ "\n\n" ++
    longSection "Arguments" arguments ++ "\n" ++
    longSection "Options" (options "a summary with '-h'")

def version : String := "acs-extract 0.1.0\n"

end ClassSelection.Help
