import HeaderReflection.CommandLine.Arguments

/-!
# Help texts

What the program says about itself, its commands and their options. Names stand in a column that is
as wide as the widest of them, and explanations behind it.
-/

namespace HeaderReflection.CommandLine

/-- The name of the program. -/
def programName : String := "reflectc"

/-- The version that the program tells. -/
def versionText : String := programName ++ " 0.1.0\n"

/-- What the program is for. -/
def programAbout : String := "Reflection metadata compiler for annotated C++ headers"

/-- What a command is for. -/
def Command.about : Command → String
  | .generate => "Generate reflection headers"
  | .validate => "Scan and resolve without generating anything"
  | .dump => "Print the resolved model as JSON"

/-- What the help command is for. -/
def helpAbout : String := "Print this message or the help of the given subcommand(s)"

/-- What a switch is for. -/
def Switch.about : Switch → String
  | .config => "Path to reflect.yaml (default: ./reflect.yaml when present)"
  | .input => "Override the input root"
  | .ext => "Override the scanned extensions (repeatable)"
  | .exclude => "Add an exclude pattern (repeatable)"
  | .jobs => "Worker threads"
  | .output => "Override the output root"
  | .backend => "Backends to run (legacy, type-info); repeatable"
  | .typeInfo => "Emit type-registration blocks"
  | .dryRun => "Report what would change without writing"
  | .check => "Like --dry-run, but fail when any artifact is out of date"
  | .help => "Print help"

/-- A switch with its letter and its value. -/
def Switch.usage (s : Switch) : String :=
  let letter := match s.letter? with
    | some c => "-" ++ c.toString ++ ", "
    | none => "    "
  let value := match s.valueName? with
    | some v => " <" ++ v ++ ">"
    | none => ""
  letter ++ "--" ++ s.name ++ value

/-- A line for each entry, with the explanations in one column. -/
def columns (entries : List (String × String)) : String :=
  let width := entries.foldl (fun w e => max w e.1.length) 0
  String.join (entries.map fun e =>
    "  " ++ e.1 ++ String.ofList (List.replicate (width + 2 - e.1.length) ' ') ++ e.2 ++ "\n")

/-- The help text of a topic. -/
def Topic.text : Topic → String
  | .program =>
    programAbout ++ "\n\nUsage: " ++ programName ++ " <COMMAND>\n\nCommands:\n"
      ++ columns (commands.map (fun c => (c.word, c.about)) ++ [("help", helpAbout)])
      ++ "\nOptions:\n"
      ++ columns [("-h, --help", "Print help"), ("-V, --version", "Print version")]
  | .command c =>
    c.about ++ "\n\nUsage: " ++ programName ++ " " ++ c.word ++ " [OPTIONS]\n\nOptions:\n"
      ++ columns (c.switches.map fun s => (s.usage, s.about))
  | .help =>
    helpAbout ++ "\n\nUsage: " ++ programName ++ " help [COMMAND]...\n\nArguments:\n"
      ++ columns [("[COMMAND]...", "Print help for the subcommand(s)")]

end HeaderReflection.CommandLine
