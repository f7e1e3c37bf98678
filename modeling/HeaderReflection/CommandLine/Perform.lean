import HeaderReflection.CommandLine.Help
import HeaderReflection.Config.Read
import HeaderReflection.Project.Run

/-!
# The program

What the program prints, which files it changes and how it ends, for given arguments in a given
directory. The options of the command line go before the settings of the configuration file.
-/

namespace HeaderReflection.CommandLine

open Project (Report ArtifactReport)

/-- What the program leaves behind, its files apart: its exit status and the lines it prints. -/
structure Answer where
  status : Nat := 0
  output : List String := []
  errors : List String := []
  deriving DecidableEq, Repr

namespace Answer

/-- The answer of a command that fails. -/
def failing (output errors : List String) (reason : String) : Answer where
  status := 1
  output
  errors := errors ++ ["Error: " ++ reason]

/-- The printed text of lines. -/
def text (ls : List String) : String := String.join (ls.map (· ++ "\n"))

end Answer

/-- The configuration in force: that of the named file, or of the project's file if there is one,
with what the options set for the input files. -/
def loadConfig (o : Options) (t : FileTree) : Except Fault Config := do
  let c ← match o.config with
    | some path => Config.load t path
    | none => if t.isFile Config.fileName then Config.load t Config.fileName else .ok {}
  let input :=
    { root := o.input.getD c.input.root
      extensions := if o.extensions.isEmpty then c.input.extensions else o.extensions
      exclude := c.input.exclude ++ o.exclude }
  return { c with input }

/-- The configuration with what the options set for the generated files. -/
def withOutputOptions (o : Options) (c : Config) : Config :=
  { c with
    output := { c.output with root := o.output.getD c.output.root }
    codegen :=
      { c.codegen with
        backends := if o.backends.isEmpty then c.codegen.backends else o.backends
        options :=
          { c.codegen.options with
            typeInfo := c.codegen.options.typeInfo || o.typeInfo } } }

/-- The lines for the warnings and faults of a report. -/
def diagnostics (r : Report) : List String :=
  r.warnings.map ("  ⚠ " ++ ·)
    ++ (r.faults ++ r.fatal.toList).map fun f => "  ✗ " ++ f.message

/-- How many files and containers a report is about. -/
def scannedText (r : Report) : String :=
  toString r.filesScanned ++ " files, " ++ toString r.containers ++ " containers"

/-- The reason of a command that ends with faults. -/
def faultCount (r : Report) : String :=
  toString r.faults.length ++ " error(s) reported"

/-- The line for an artifact that changes or should change. -/
def outcomeLine? (a : ArtifactReport) : Option String :=
  match a.outcome with
  | .written => some ("  ✓ Generated " ++ a.path)
  | .outdated => some ("  ℹ Out of date: " ++ a.path)
  | _ => none

/-- The line for an artifact that could not be written. -/
def failureLine? (a : ArtifactReport) : Option String :=
  match a.outcome with
  | .failed reason => some ("  ✗ Failed " ++ a.path ++ ": " ++ reason)
  | _ => none

/-- The lines about the generated files of a run. -/
def generatedLines (r : Report) : List String :=
  ["  ✓ Scanned " ++ scannedText r] ++ r.artifacts.filterMap outcomeLine?
    ++ r.pruned.map ("  🗑 Stale: " ++ ·)
    ++ ["  ℹ " ++ toString (r.count .unchanged) ++ " unchanged"]

/-- The answer of a generating run with its report. -/
def answerGenerate (check : Bool) (opening : String) (r : Report) : Answer :=
  if r.fatal.isSome then
    .failing [opening] (diagnostics r) "run aborted, nothing was written"
  else
    let output := opening :: generatedLines r
    let errors := diagnostics r ++ r.artifacts.filterMap failureLine?
    if !r.isSuccess then .failing output errors (faultCount r)
    else if check && r.hasOutdated then
      .failing output errors "generated files are out of date"
    else { output := output ++ ["✨ Generation complete!"], errors }

/-- Generates the artifacts of a project. -/
def generate (o : Options) (t : FileTree) : Answer × FileTree :=
  match loadConfig o t with
  | .error f => (.failing [] [] f.message, t)
  | .ok c =>
    let c := withOutputOptions o c
    let opening := "🔧 Generating reflection data from " ++ c.input.root ++ "..."
    match Project.run c (o.dryRun || o.check) t with
    | (.error f, t) => (.failing [opening] [] f.message, t)
    | (.ok r, t) => (answerGenerate o.check opening r, t)

/-- Checks the input files of a project. -/
def validate (o : Options) (t : FileTree) : Answer :=
  match loadConfig o t with
  | .error f => .failing [] [] f.message
  | .ok c =>
    let opening := "🔍 Validating " ++ c.input.root ++ "..."
    match Project.validate c t with
    | .error f => .failing [opening] [] f.message
    | .ok r =>
      if r.isSuccess then
        { output := [opening, "  ✓ " ++ scannedText r, "✅ All reflected types are valid!"]
          errors := diagnostics r }
      else .failing [opening] (diagnostics r) "validation failed"

/-- Prints the containers of a project. -/
def dump (o : Options) (t : FileTree) : Answer :=
  match loadConfig o t >>= fun c => Project.dump c t with
  | .error f => .failing [] [] f.message
  | .ok (none, r) => .failing [] (diagnostics r) "model could not be resolved"
  | .ok (some text, r) =>
    if r.isSuccess then { output := [text], errors := diagnostics r }
    else .failing [text] (diagnostics r) (faultCount r)

/-- What the program does for a command. -/
def perform (c : Command) (o : Options) (t : FileTree) : Answer × FileTree :=
  match c with
  | .generate => generate o t
  | .validate => (validate o t, t)
  | .dump => (dump o t, t)

/-- How the program ends. -/
structure Ending where
  status : Nat := 0
  output : String := ""
  errors : String := ""
  deriving DecidableEq, Repr

/-- The printed answer. -/
def Answer.ending (a : Answer) : Ending where
  status := a.status
  output := Answer.text a.output
  errors := Answer.text a.errors

/-- The whole program. Arguments that are not well formed end it with status 2. -/
def run (arguments : List String) (t : FileTree) : Ending × FileTree :=
  match Request.ofArguments? arguments with
  | none =>
    ({ status := 2, errors := "error: invalid arguments\n\nUsage: " ++ programName
        ++ " <COMMAND>\n" }, t)
  | some .version => ({ output := versionText }, t)
  | some (.help topic) => ({ output := topic.text }, t)
  | some (.perform c o) =>
    let r := perform c o t
    (r.1.ending, r.2)

end HeaderReflection.CommandLine
