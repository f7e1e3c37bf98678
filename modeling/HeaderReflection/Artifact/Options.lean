import HeaderReflection.Text.Case

/-!
# Generation options

Which sections are generated, and the names that generated code uses for what it relies on.
-/

namespace HeaderReflection

/-- The kinds of generated sections, in the order they stand in a file. -/
inductive Backend where
  /-- Member tables, accessors and ancestry checks. -/
  | tables
  /-- Type-registration blocks. -/
  | registration
  deriving DecidableEq, Repr

namespace Backend

/-- The word of a backend in configurations. -/
def word : Backend → String
  | .tables => "legacy"
  | .registration => "type_info"

/-- The backend that a word names, in any case; for any other word, what is reported. -/
def ofWord (word : String) : Except String Backend :=
  let lower := Text.lowerString word
  if lower = "legacy" then .ok .tables
  else if lower = "type_info" || lower = "type-info" || lower = "typeinfo" then .ok .registration
  else .error ("Unsupported backend: '" ++ lower
    ++ "'. Supported backends: legacy, type_info")

end Backend

/-- Names and switches that all sections share. -/
structure GenerationOptions where
  /-- Type-registration blocks are generated. -/
  typeInfo : Bool := false
  /-- What generated macro names start with. -/
  macroPrefix : String := "REFLECT"
  /-- The header that declares the descriptor types. -/
  runtimeInclude : String := "reflect/Runtime.h"
  /-- The namespace of the descriptor types. -/
  runtimeNamespace : String := "::reflect"
  deriving DecidableEq, Repr, Inhabited

/-- The two generated files of an input file. -/
inductive ArtifactPart where
  /-- Included before the annotated types. -/
  | header
  /-- Included after the annotated types. -/
  | inlined
  deriving DecidableEq, Repr

/-- Lines of text, each with its line end. -/
def lines (ls : List String) : String :=
  String.join (ls.map (· ++ "\n"))

end HeaderReflection
