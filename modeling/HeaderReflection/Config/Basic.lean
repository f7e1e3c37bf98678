import HeaderReflection.Artifact.Options
import HeaderReflection.Markup.Vocabulary

/-!
# Configurations

What a project can set: where its sources are, where generated files go, what is generated, and
which words are markers. Every setting has a default.
-/

namespace HeaderReflection

/-- What a project is called. -/
structure ProjectInfo where
  name : String := ""
  description : String := ""
  deriving DecidableEq, Repr

/-- Which files are read. -/
structure InputConfig where
  root : String := "."
  /-- The extensions of input files, with or without a point, in any case. -/
  extensions : List String := ["h", "hpp"]
  /-- Patterns of paths below the root that are left out. -/
  exclude : List String := []
  deriving DecidableEq, Repr

/-- Where generated files go. -/
structure OutputConfig where
  root : String := "generated"
  /-- What stands between the stem and the extension of a generated file. -/
  suffix : String := "gen"
  /-- Generated files without a source are deleted. -/
  pruneStale : Bool := false
  deriving DecidableEq, Repr

/-- What is generated. -/
structure CodegenConfig where
  /-- The words of the backends that run. -/
  backends : List String := [Backend.tables.word, Backend.registration.word]
  options : GenerationOptions := {}
  /-- Base types that are declared outside the input files. -/
  externalBases : List String := []
  deriving DecidableEq, Repr

/-- The settings of a project. -/
structure Config where
  project : ProjectInfo := {}
  input : InputConfig := {}
  output : OutputConfig := {}
  codegen : CodegenConfig := {}
  vocabulary : Vocabulary := {}
  deriving DecidableEq, Repr

end HeaderReflection
