import HeaderReflection.Config.Basic
import HeaderReflection.FileTree.Path

/-!
# Where generated files go

A generated file goes to the output root, into the directory that its input file has below the input
root. `Game/Player.h` gives `Game/Player.gen.h` and `Game/Player.gen.inl`.
-/

namespace HeaderReflection

/-- The extension of a generated file. A header keeps the extension of its input file. -/
def ArtifactPart.extension? (part : ArtifactPart) (fileId : String) : Option String :=
  match part with
  | .header => Path.extension? fileId
  | .inlined => some "inl"

/-- The file name of a generated file. -/
def artifactName (suffix fileId : String) (part : ArtifactPart) : String :=
  let stem := (Path.stem? fileId).getD ""
  match part.extension? fileId with
  | some e => stem ++ "." ++ suffix ++ "." ++ e
  | none => stem ++ "." ++ suffix

/-- The path of a generated file. -/
def OutputConfig.artifactPath (o : OutputConfig) (fileId : String) (part : ArtifactPart) :
    String :=
  let directory := match Path.parent? fileId with
    | some d => Path.join o.root d
    | none => o.root
  Path.join directory (artifactName o.suffix fileId part)

end HeaderReflection
