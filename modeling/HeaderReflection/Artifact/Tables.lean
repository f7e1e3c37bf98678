import HeaderReflection.Artifact.Naming
import HeaderReflection.Artifact.Options
import HeaderReflection.Attribute.Render
import HeaderReflection.Container.Lineage

/-!
# Member tables

For each class and struct the tables of its properties and functions, the accessors that address
properties by their place in the table, and the check for its ancestors; for each enum the table
of its enumerators. Every table ends in a row of null pointers, so an empty one can be walked too.

The accessors are declared by the generated-body macro, as static members that reach every
property. Without the macro they are plain functions and reach the public properties only.
-/

namespace HeaderReflection.Tables

/-- Fields between braces, as a row of a table. -/
def row (fields : List String) : String :=
  "    \x7b " ++ ", ".intercalate fields ++ " \x7d,"

/-- The row of a property. -/
def propertyRow (runtime : String) (p : Property) : String :=
  row ["\"" ++ p.name ++ "\"", quote (displayName p.name p.type.name p.attributes),
    quote p.type.render, quote p.attributes.render,
    runtime ++ "::Visibility::" ++ p.visibility.descriptor]

/-- The row of a member function. -/
def methodRow (m : Method) : String :=
  row ["\"" ++ m.signature.name ++ "\"", quote m.signature.returnType.render,
    quote (parameterList m.signature.parameters), quote m.attributes.render,
    toString m.signature.isStatic, toString m.signature.isConst]

/-- The row of an enumerator. -/
def enumeratorRow (enumName : String) (e : Enumerator) : String :=
  row ["\"" ++ e.name ++ "\"", "static_cast<long long>(" ++ enumName ++ "::" ++ e.name ++ ")"]

/-- A table with its rows, its last row and its count. `descriptor` is the type of the rows, and
`plural` and `singular` name the table and its count. -/
def table (runtime symbol descriptor plural singular : String) (rows : List String)
    (lastRow : String) : String :=
  lines (["", "inline const " ++ runtime ++ "::" ++ descriptor ++ " " ++ symbol ++ "_" ++ plural
      ++ "[] = \x7b"]
    ++ rows
    ++ [lastRow, "\x7d;",
      "inline constexpr std::size_t " ++ symbol ++ "_" ++ singular ++ "Count = "
        ++ toString rows.length ++ ";"])

/-- The table of properties. -/
def propertyTable (runtime : String) (c : Container) : String :=
  table runtime c.symbol "PropertyDesc" "Properties" "Property"
    (c.properties.map (propertyRow runtime))
    (row ["nullptr", "nullptr", "nullptr", "nullptr", runtime ++ "::Visibility::Public"])

/-- The table of member functions. -/
def methodTable (runtime : String) (c : Container) : String :=
  table runtime c.symbol "FunctionDesc" "Functions" "Function" (c.methods.map methodRow)
    (row ["nullptr", "nullptr", "nullptr", "nullptr", "false", "false"])

/-- The table of enumerators. -/
def enumeratorTable (runtime : String) (c : Container) : String :=
  table runtime c.symbol "EnumeratorDesc" "Enumerators" "Enumerator"
    (c.enumerators.map (enumeratorRow c.qualifiedName)) (row ["nullptr", "0"])

/-- The set accessor can assign to a property: it is no array and no reference, and constant only
behind a pointer. -/
def isAssignable (p : Property) : Bool :=
  !(p.type.isArray || p.type.isReference || (p.type.isConst && !p.type.isPointer))

/-- The properties that the accessors reach, with their places in the table. -/
def reachable (c : Container) : List (Property × Nat) :=
  c.properties.zipIdx.filter fun (p, _) => c.generatedBodyLine.isSome || p.visibility = .public

/-- The properties that the set accessor assigns to, with their places in the table. -/
def assignable (c : Container) : List (Property × Nat) :=
  (reachable c).filter fun (p, _) => isAssignable p

/-- The case of a property in the get accessor. -/
def getCase (name : String) (place : Nat) : String :=
  "        case " ++ toString place ++ ": return &self->" ++ name ++ ";"

/-- The case of a property in the set accessor. -/
def setCase (name : String) (place : Nat) : String :=
  "        case " ++ toString place ++ ": self->" ++ name ++ " = *static_cast<const decltype(self->"
    ++ name ++ ")*>(value); return true;"

/-- The body of the get accessor. -/
def getBody (c : Container) : List String :=
  ["    switch (index) \x7b"] ++ (reachable c).map (fun (p, place) => getCase p.name place)
    ++ ["        default: (void)self; return nullptr;", "    \x7d"]

/-- The body of the set accessor. -/
def setBody (c : Container) : List String :=
  ["    switch (index) \x7b"] ++ (assignable c).map (fun (p, place) => setCase p.name place)
    ++ ["        default: (void)self; (void)value; return false;", "    \x7d"]

/-- The parameters of the get accessor. -/
def getParameters (typeName : String) : String :=
  typeName ++ "* self, std::size_t index"

/-- The parameters of the set accessor. -/
def setParameters (typeName : String) : String :=
  typeName ++ "* self, std::size_t index, const void* value"

/-- The definitions of the accessors. -/
def accessors (c : Container) : String :=
  let name := c.qualifiedName
  let globalGet :=
    "inline void* " ++ c.symbol ++ "_GetProperty(" ++ getParameters name ++ ") \x7b"
  let globalSet :=
    "inline bool " ++ c.symbol ++ "_SetProperty(" ++ setParameters name ++ ") \x7b"
  if c.generatedBodyLine.isSome then
    lines
      (["", "inline void* " ++ name ++ "::ReflectGetProperty(" ++ getParameters name ++ ") \x7b"]
        ++ getBody c
        ++ ["\x7d", "inline bool " ++ name ++ "::ReflectSetProperty(" ++ setParameters name
          ++ ") \x7b"]
        ++ setBody c
        ++ ["\x7d",
          globalGet, "    return " ++ name ++ "::ReflectGetProperty(self, index);", "\x7d",
          globalSet, "    return " ++ name ++ "::ReflectSetProperty(self, index, value);", "\x7d"])
  else lines (["", globalGet] ++ getBody c ++ ["\x7d", globalSet] ++ setBody c ++ ["\x7d"])

/-- The list of ancestor names and the function that looks a name up among them. -/
def ancestry (r : Resolved) : String :=
  let symbol := r.container.symbol
  let names := String.join (r.ancestorNames.map fun name => "\"" ++ name ++ "\", ")
  lines
    ["",
      "inline const char* const " ++ symbol ++ "_Ancestors[] = \x7b " ++ names ++ "nullptr \x7d;",
      "inline bool " ++ symbol ++ "_IsA(const char* typeName) \x7b",
      "    if (std::strcmp(typeName, \"" ++ r.container.name ++ "\") == 0) return true;",
      "    for (const char* const* it = " ++ symbol ++ "_Ancestors; *it != nullptr; ++it) \x7b",
      "        if (std::strcmp(typeName, *it) == 0) return true;",
      "    \x7d",
      "    return false;",
      "\x7d"]

/-- The comment line that names a container. -/
def title (c : Container) : String :=
  "// " ++ c.kind.word ++ " " ++ c.qualifiedName

/-- A line across a comment. -/
def rule : String :=
  "// ============================================================================"

/-- The comment above a container's tables. -/
def banner (r : Resolved) : String :=
  let names := if r.ancestors.isEmpty then "(none)"
    else " -> ".intercalate (r.ancestors.map (·.name))
  lines ["", rule, title r.container, "// Ancestors: " ++ names, rule]

/-- The generated-body macro of a container that has a marker for it. It ends in the access that
the body starts with. -/
def bodyMacro (options : GenerationOptions) (c : Container) : String :=
  match c.generatedBodyLine with
  | none => ""
  | some line =>
    lines
      ["", title c,
        "#define " ++ options.macroPrefix ++ "_GENERATED_BODY_" ++ fileSymbol c.fileId ++ "_"
          ++ toString line ++ " \\",
        "public: \\",
        "    static const char* StaticTypeName() \x7b return \"" ++ c.name ++ "\"; \x7d \\",
        "    static inline void* ReflectGetProperty(" ++ getParameters c.name ++ "); \\",
        "    static inline bool ReflectSetProperty(" ++ setParameters c.name ++ "); \\",
        c.kind.defaultVisibility.word ++ ":"]

/-- The section of a container in one part of its file's artifact. -/
def generate (options : GenerationOptions) (r : Resolved) : ArtifactPart → String
  | .header => bodyMacro options r.container
  | .inlined =>
    let c := r.container
    let runtime := options.runtimeNamespace
    banner r ++
      if c.kind = .enum then enumeratorTable runtime c
      else propertyTable runtime c ++ methodTable runtime c ++ accessors c ++ ancestry r

end HeaderReflection.Tables
