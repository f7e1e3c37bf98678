import HeaderReflection.Attribute.Basic
import HeaderReflection.Declaration.Enumerators
import HeaderReflection.Declaration.Function
import HeaderReflection.Declaration.Header

/-!
# Containers

What is recorded of a reflected class, struct or enum, and the names it goes by in generated code.
-/

namespace HeaderReflection

open Text (Position)

/-- A reflected data member. -/
structure Property where
  name : String
  type : TypeRef
  visibility : Visibility
  attributes : Attributes
  position : Position

/-- A reflected member function. -/
structure Method where
  signature : Signature
  visibility : Visibility
  attributes : Attributes
  position : Position

/-- A reflected class, struct or enum. -/
structure Container where
  name : String
  kind : ContainerKind
  /-- The enclosing namespaces and containers, outermost first. -/
  scope : List String := []
  /-- The input file, relative to the input root. -/
  fileId : String
  position : Position
  bases : List TypeRef := []
  properties : List Property := []
  methods : List Method := []
  attributes : Attributes := []
  /-- The line of the last generated-body marker in the body. -/
  generatedBodyLine : Option Nat := none
  enumerators : List Enumerator := []
  /-- The underlying type of an enum. -/
  underlying : Option TypeRef := none

/-- A text with an underscore in place of each scope mark. -/
def flattenScopes : List Char → List Char
  | [] => []
  | ':' :: ':' :: rest => '_' :: flattenScopes rest
  | c :: rest => c :: flattenScopes rest

namespace Container

/-- The name from global scope. -/
def qualifiedName (c : Container) : String :=
  "::".intercalate (c.scope ++ [c.name])

/-- The identifier that the container's generated globals start with. -/
def symbol (c : Container) : String :=
  String.ofList (flattenScopes c.qualifiedName.toList)

/-- The file and the qualified name, which identify a container among all files. -/
def identity (c : Container) : String :=
  c.fileId ++ "::" ++ c.qualifiedName

end Container

end HeaderReflection
