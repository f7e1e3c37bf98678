import HeaderReflection.Config.Basic
import HeaderReflection.Fault
import HeaderReflection.Pattern.Parse
import HeaderReflection.Text.CharClass

/-!
# Checking configurations

What a configuration must satisfy before anything runs, in the order it is checked: there are input
extensions, a suffix, readable patterns, known backends, an identifier for macro names, and marker
words that are identifiers.
-/

namespace HeaderReflection.Config

/-- The patterns of paths that are left out. -/
def patterns (c : Config) : Except Fault (List Pattern) :=
  c.input.exclude.mapM fun text =>
    match Pattern.parse text with
    | some p => .ok p
    | none => .error (.configuration ("bad exclude pattern '" ++ text ++ "'"))

/-- The backends that run. -/
def backends (c : Config) : Except Fault (List Backend) :=
  if c.codegen.backends.isEmpty then
    .error (.configuration "codegen.backends must not be empty")
  else
    c.codegen.backends.mapM fun word => (Backend.ofWord word).mapError .configuration

/-- What is wrong with the marker words. -/
def vocabularyFault? (v : Vocabulary) : Option Fault :=
  if v.container.isEmpty || v.property.isEmpty || v.function.isEmpty then
    some (.configuration "vocabulary needs at least one container, property and function marker")
  else
    (v.words.find? fun w => !Text.isAsciiIdentifier w).map fun w =>
      .configuration ("vocabulary marker '" ++ w ++ "' is not an identifier")

/-- Nothing is wrong with the configuration, or the first thing that is. -/
def check (c : Config) : Except Fault Unit := do
  if c.input.extensions.isEmpty then
    throw (.configuration "input.extensions must not be empty")
  if c.output.suffix = "" then
    throw (.configuration "output.suffix must not be empty")
  let _ ← c.patterns
  let _ ← c.backends
  if !Text.isAsciiIdentifier c.codegen.options.macroPrefix then
    throw (.configuration ("codegen.macro_prefix '" ++ c.codegen.options.macroPrefix
      ++ "' is not a valid identifier"))
  match vocabularyFault? c.vocabulary with
  | some f => throw f
  | none => return

end HeaderReflection.Config
