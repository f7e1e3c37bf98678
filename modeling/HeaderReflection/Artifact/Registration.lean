import HeaderReflection.Artifact.Naming
import HeaderReflection.Artifact.Options
import HeaderReflection.Attribute.Render
import HeaderReflection.Container.Lineage

/-!
# Type registration

One block of registration macros for each container: its direct bases, properties, functions and
enumerators, by their places. The runtime header defines the macros.
-/

namespace HeaderReflection.Registration

/-- A use of a registration macro. -/
def invoke (options : GenerationOptions) (name : String) (arguments : List String) : String :=
  options.macroPrefix ++ "_TYPE_" ++ name ++ "(" ++ ", ".intercalate arguments ++ ")"

/-- A use of a registration macro inside a block. -/
def entry (options : GenerationOptions) (name : String) (arguments : List String) : String :=
  "    " ++ invoke options name arguments

/-- The containers that the direct bases mean. An external base is not among the ancestors. -/
def directBases (r : Resolved) : List Container :=
  r.container.bases.filterMap fun base => r.ancestors.find? (·.name = base.baseName)

/-- The arguments of a property at a place. -/
def propertyArguments (p : Property) (place : Nat) : List String :=
  [toString place, p.name, quote p.type.render, quote p.attributes.render]

/-- The arguments of a member function at a place. -/
def methodArguments (m : Method) (place : Nat) : List String :=
  [toString place, m.signature.name, quote m.signature.returnType.render,
    quote (parameterList m.signature.parameters)]

/-- The block of a container. -/
def block (options : GenerationOptions) (r : Resolved) : String :=
  let c := r.container
  let id := "0x" ++ hex16 (stableTypeId c.fileId c.qualifiedName) ++ "ULL"
  lines
    (["", invoke options "BEGIN" [c.qualifiedName, quote c.identity, id]]
      ++ (directBases r).map (fun base => entry options "BASE" [base.qualifiedName])
      ++ c.properties.zipIdx.map (fun (p, i) => entry options "PROPERTY" (propertyArguments p i))
      ++ c.methods.zipIdx.map (fun (m, i) => entry options "FUNCTION" (methodArguments m i))
      ++ c.enumerators.zipIdx.map (fun (e, i) => entry options "ENUMERATOR" [toString i, e.name])
      ++ [invoke options "END" [c.qualifiedName]])

/-- The section of a container in one part of its file's artifact. -/
def generate (options : GenerationOptions) (r : Resolved) : ArtifactPart → String
  | .header => ""
  | .inlined => if options.typeInfo then block options r else ""

end HeaderReflection.Registration
