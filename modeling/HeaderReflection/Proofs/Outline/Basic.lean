import HeaderReflection.Container.Basic
import HeaderReflection.Proofs.Attribute.Spelling
import HeaderReflection.Proofs.Declaration.Enumerators
import HeaderReflection.Proofs.Declaration.Headers

/-!
# Outlines of source files

What a source file declares, as a tree: namespaces, containers and their members. An outline has a
text, which is annotated source, and it has the containers that are to be reflected.

* `Outline.text`: the source text of an outline.
* `Outline.declared`: the containers that an outline declares.
-/

namespace HeaderReflection

mutual

/-- A class, struct or enum with its attributes. -/
inductive ContainerOutline where
  | record (attributes : Attributes) (header : RecordHeader) (members : List MemberOutline)
  | enum (attributes : Attributes) (header : EnumHeader) (enumerators : List Enumerator)

/-- What stands in the body of a class or struct. -/
inductive MemberOutline where
  | label (visibility : Visibility)
  | generatedBody
  | property (attributes : Attributes) (data : Variable)
  | function (attributes : Attributes) (signature : Signature)
  | container (inner : ContainerOutline)

end

/-- What stands outside of classes. -/
inductive Outline where
  | scope (path : List String) (inner : List Outline)
  | container (inner : ContainerOutline)

/-! ## Texts -/

/-- The marker of a kind of containers. -/
def ContainerKind.marker : ContainerKind → String
  | .class => "CLASS"
  | .struct => "STRUCT"
  | .enum => "ENUM"

/-- A marker with its attributes, on a new line. -/
def markerText (word : String) (attributes : Attributes) : String :=
  "\n" ++ word ++ "(" ++ attributes.render ++ ") "

mutual

/-- The declaration of a container. -/
def ContainerOutline.text : ContainerOutline → String
  | .record attributes header members =>
    markerText header.kind.marker attributes ++ header.text ++ " \x7b" ++
      MemberOutline.listText members ++ "\n\x7d;"
  | .enum attributes header enumerators =>
    markerText "ENUM" attributes ++ header.text ++ " \x7b" ++ entriesText enumerators ++ " \x7d;"

/-- The declaration of a member. -/
def MemberOutline.text : MemberOutline → String
  | .label visibility => "\n" ++ visibility.word ++ ":"
  | .generatedBody => "\nGENERATED_BODY()"
  | .property attributes data => markerText "PROPERTY" attributes ++ data.text ++ ";"
  | .function attributes signature => markerText "FUNCTION" attributes ++ signature.text ++ ";"
  | .container inner => inner.text

/-- The declarations of members. -/
def MemberOutline.listText : List MemberOutline → String
  | [] => ""
  | m :: ms => m.text ++ MemberOutline.listText ms

end

mutual

/-- A container, or a namespace with all that stands in it. -/
def Outline.text : Outline → String
  | .scope path inner =>
    "\nnamespace " ++ "::".intercalate path ++ " \x7b" ++ Outline.listText inner ++ "\n\x7d"
  | .container inner => inner.text

/-- The text of a file. -/
def Outline.listText : List Outline → String
  | [] => ""
  | o :: os => o.text ++ Outline.listText os

end

/-! ## Canonical outlines -/

mutual

/-- A container whose parts are all read back from their texts. -/
def ContainerOutline.Canonical : ContainerOutline → Prop
  | .record attributes header members =>
    attributes.Canonical ∧ header.Canonical ∧ MemberOutline.ListCanonical members
  | .enum attributes header enumerators =>
    attributes.Canonical ∧ header.Canonical ∧ ∀ e ∈ enumerators, e.Canonical

/-- A member whose parts are all read back from their texts. -/
def MemberOutline.Canonical : MemberOutline → Prop
  | .label _ => True
  | .generatedBody => True
  | .property attributes data => attributes.Canonical ∧ data.Canonical
  | .function attributes signature => attributes.Canonical ∧ signature.Canonical
  | .container inner => inner.Canonical

/-- Members whose parts are all read back from their texts. -/
def MemberOutline.ListCanonical : List MemberOutline → Prop
  | [] => True
  | m :: ms => m.Canonical ∧ MemberOutline.ListCanonical ms

end

mutual

/-- An outline whose parts are all read back from their texts. -/
def Outline.Canonical : Outline → Prop
  | .scope path inner => path ≠ [] ∧ (∀ name ∈ path, IsIdentifier name) ∧ Outline.ListCanonical inner
  | .container inner => inner.Canonical

/-- Outlines whose parts are all read back from their texts. -/
def Outline.ListCanonical : List Outline → Prop
  | [] => True
  | o :: os => o.Canonical ∧ Outline.ListCanonical os

end

/-! ## Declared containers -/

namespace MemberOutline

/-- The properties among members, given the access at the first of them. -/
def properties : Visibility → List MemberOutline → List Property
  | _, [] => []
  | _, .label visibility :: ms => properties visibility ms
  | visibility, .property attributes data :: ms =>
    { name := data.name, type := data.type, visibility, attributes, position := .start }
      :: properties visibility ms
  | visibility, _ :: ms => properties visibility ms

/-- The functions among members, given the access at the first of them. -/
def methods : Visibility → List MemberOutline → List Method
  | _, [] => []
  | _, .label visibility :: ms => methods visibility ms
  | visibility, .function attributes signature :: ms =>
    { signature, visibility, attributes, position := .start } :: methods visibility ms
  | visibility, _ :: ms => methods visibility ms

/-- The line of generated code, if a member marks one. -/
def bodyLine (ms : List MemberOutline) : Option Nat :=
  if ms.any (· matches .generatedBody) then some 1 else none

end MemberOutline

mutual

/-- The containers that a container declares in a scope: itself and those in its body. -/
def ContainerOutline.declared (fileId : String) (scope : List String) :
    ContainerOutline → List Container
  | .record attributes header members =>
    { name := header.name, kind := header.kind, scope, fileId, position := .start
      bases := header.bases.map Base.type
      properties := MemberOutline.properties header.kind.defaultVisibility members
      methods := MemberOutline.methods header.kind.defaultVisibility members
      attributes, generatedBodyLine := MemberOutline.bodyLine members }
      :: MemberOutline.listDeclared fileId (scope ++ [header.name]) members
  | .enum attributes header enumerators =>
    [{ name := header.name, kind := .enum, scope, fileId, position := .start
       attributes, enumerators, underlying := header.underlying }]

/-- The containers that a member declares. -/
def MemberOutline.declared (fileId : String) (scope : List String) :
    MemberOutline → List Container
  | .container inner => inner.declared fileId scope
  | _ => []

/-- The containers that members declare. -/
def MemberOutline.listDeclared (fileId : String) (scope : List String) :
    List MemberOutline → List Container
  | [] => []
  | m :: ms => m.declared fileId scope ++ MemberOutline.listDeclared fileId scope ms

end

mutual

/-- The containers that an outline declares. -/
def Outline.declared (fileId : String) (scope : List String) : Outline → List Container
  | .scope path inner => Outline.listDeclared fileId (scope ++ path) inner
  | .container inner => inner.declared fileId scope

/-- The containers that outlines declare, in the order they are opened. -/
def Outline.listDeclared (fileId : String) (scope : List String) : List Outline → List Container
  | [] => []
  | o :: os => o.declared fileId scope ++ Outline.listDeclared fileId scope os

end

end HeaderReflection
