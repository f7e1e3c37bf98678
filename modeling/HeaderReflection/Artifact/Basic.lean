import HeaderReflection.Artifact.Registration
import HeaderReflection.Artifact.Tables

/-!
# Artifacts

What is generated for one input file: a header part, which is included before the annotated types
and holds macros only, and an inline part, which is included after them and holds the rest.
-/

namespace HeaderReflection

/-- The generated text for one input file. -/
structure Artifact where
  header : String
  inlined : String
  deriving DecidableEq, Repr

/-- The text of one part. -/
def Artifact.part (a : Artifact) : ArtifactPart → String
  | .header => a.header
  | .inlined => a.inlined

namespace Artifact

/-- What every generated file starts with. -/
def generatedMark : String := "// Generated by reflectc"

/-- The backends that run, each once and in their order. -/
def ordered (backends : List Backend) : List Backend :=
  [Backend.tables, .registration].filter backends.contains

/-- The section that a backend adds for a container. -/
def sectionOf (options : GenerationOptions) (r : Resolved) (part : ArtifactPart) :
    Backend → String
  | .tables => Tables.generate options r part
  | .registration => Registration.generate options r part

/-- The sections of all backends for a container. -/
def sections (backends : List Backend) (options : GenerationOptions) (part : ArtifactPart)
    (r : Resolved) : String :=
  String.join ((ordered backends).map (sectionOf options r part))

/-- The lines above the sections of the header part. -/
def headerOpening (options : GenerationOptions) (fileId : String) : String :=
  lines
    [generatedMark ++ " from " ++ fileId ++ ". Do not edit.",
      "// Include before the annotated types.", "#pragma once", "", "#include <cstddef>",
      "#include \"" ++ options.runtimeInclude ++ "\"", "",
      "#undef " ++ options.macroPrefix ++ "_CURRENT_FILE_ID",
      "#define " ++ options.macroPrefix ++ "_CURRENT_FILE_ID " ++ fileSymbol fileId]

/-- The lines above the sections of the inline part. -/
def inlinedOpening (options : GenerationOptions) (fileId : String) : String :=
  lines
    [generatedMark ++ " from " ++ fileId ++ ". Do not edit.",
      "// Include at global scope after the annotated types.", "#pragma once", "",
      "#include <cstddef>", "#include <cstring>",
      "#include \"" ++ options.runtimeInclude ++ "\""]

/-- The artifact of an input file with its containers, in the order they are opened. -/
def generate (backends : List Backend) (options : GenerationOptions) (fileId : String)
    (rs : List Resolved) : Artifact where
  header := headerOpening options fileId ++ String.join (rs.map (sections backends options .header))
  inlined :=
    inlinedOpening options fileId ++ String.join (rs.map (sections backends options .inlined))

end Artifact

end HeaderReflection
