import HeaderReflection.Container.Lineage
import HeaderReflection.Json.Basic
import HeaderReflection.Project.Analysis

/-!
# Dumps

The resolved containers of all input files as a JSON document.
-/

namespace HeaderReflection

mutual

/-- The document of an attribute value. -/
def AttributeValue.toJson : AttributeValue → Json
  | .text s => .string s
  | .number x => .number x
  | .flag b => .bool b
  | .nested m => .object (attributeMembers m)

/-- The members of the document of attributes. -/
def attributeMembers : List (String × AttributeValue) → List (String × Json)
  | [] => []
  | (key, value) :: rest => (key, value.toJson) :: attributeMembers rest

end

/-- The document of attributes. -/
def Attributes.toJson (m : Attributes) : Json := .object (attributeMembers m)

/-- The document of a position. -/
def Text.Position.toJson (p : Text.Position) : Json :=
  .object [("line", .count p.line), ("column", .count p.column)]

/-- The document of an optional value. -/
def Json.ofOption {α : Type} (f : α → Json) : Option α → Json
  | none => .null
  | some a => f a

/-- The document of a type. -/
def TypeRef.toJson (t : TypeRef) : Json :=
  .object
    [("raw_name", .string t.name), ("is_const", .bool t.isConst),
      ("is_pointer", .bool t.isPointer), ("is_reference", .bool t.isReference),
      ("is_array", .bool t.isArray),
      ("template_args", .array (t.arguments.attach.map fun a => a.1.toJson))]
termination_by t
decreasing_by
  have := List.sizeOf_lt_of_mem a.2
  cases t
  simp only [TypeRef.mk.sizeOf_spec] at *
  omega

/-- The document of a data member. -/
def Property.toJson (p : Property) : Json :=
  .object
    [("name", .string p.name), ("type", p.type.toJson), ("visibility", .string p.visibility.word),
      ("attributes", p.attributes.toJson), ("location", p.position.toJson)]

/-- The document of a parameter. -/
def Variable.toJson (v : Variable) : Json :=
  .object [("name", .string v.name), ("type", v.type.toJson)]

/-- The document of a member function. -/
def Method.toJson (m : Method) : Json :=
  .object
    [("name", .string m.signature.name), ("return_type", m.signature.returnType.toJson),
      ("parameters", .array (m.signature.parameters.map Variable.toJson)),
      ("visibility", .string m.visibility.word), ("is_static", .bool m.signature.isStatic),
      ("is_const", .bool m.signature.isConst), ("attributes", m.attributes.toJson),
      ("location", m.position.toJson)]

/-- The document of an enumerator. -/
def Enumerator.toJson (e : Enumerator) : Json :=
  .object [("name", .string e.name), ("value", .ofOption .string e.value)]

/-- The members of the document of a container. At global scope the scope is left out. -/
def Container.members (c : Container) : List (String × Json) :=
  [("name", .string c.name), ("kind", .string c.kind.word)]
    ++ (if c.scope.isEmpty then [] else [("scope", .array (c.scope.map .string))])
    ++ [("file_id", .string c.fileId), ("location", c.position.toJson),
      ("bases", .array (c.bases.map TypeRef.toJson)),
      ("properties", .array (c.properties.map Property.toJson)),
      ("functions", .array (c.methods.map Method.toJson)),
      ("attributes", c.attributes.toJson),
      ("generated_body_line", .ofOption .count c.generatedBodyLine),
      ("enumerators", .array (c.enumerators.map Enumerator.toJson)),
      ("underlying", .ofOption TypeRef.toJson c.underlying)]

/-- The document of a container with the names of its ancestors. -/
def Resolved.toJson (r : Resolved) : Json :=
  .object (r.container.members
    ++ [("ancestors", .array (r.ancestors.map fun a => .string a.name))])

namespace Project

/-- The document of an analysis whose bases are resolved. -/
def Analysis.toJson (a : Analysis) (rs : List Resolved) : Json :=
  .array (a.files.map fun f =>
    .object [("file_id", .string f.source.fileId),
      ("containers", .array ((f.slice rs).map Resolved.toJson))])

end Project

end HeaderReflection
