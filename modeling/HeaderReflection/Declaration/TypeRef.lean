/-!
# Types as they are spelled

A type is recorded as it is written: a name, its decorations and its template arguments. It is
bound to no declaration.
-/

namespace HeaderReflection

/-- The text behind the last scope mark of a name. -/
def lastSegmentOf (best : List Char) : List Char → List Char
  | [] => best
  | c :: rest =>
    lastSegmentOf (if c = ':' && rest.head? = some ':' then rest.tail else best) rest

/-- A type as it is spelled in a declaration. -/
structure TypeRef where
  /-- The name with its scopes, without decorations. -/
  name : String := ""
  isConst : Bool := false
  isPointer : Bool := false
  isReference : Bool := false
  isArray : Bool := false
  arguments : List TypeRef := []
  deriving Repr, Inhabited

namespace TypeRef

/-- The type of a plain name. -/
def named (name : String) : TypeRef := { name }

/-- The last segment of the name, which bases are looked up by. -/
def baseName (t : TypeRef) : String :=
  String.ofList (lastSegmentOf t.name.toList t.name.toList)

/-- Marks behind a type's name and arguments. -/
def suffix (isPointer isReference isArray : Bool) : String :=
  (if isPointer then "*" else "") ++ (if isReference then "&" else "")
    ++ (if isArray then "[]" else "")

mutual

/-- The text of a type: `const` first, then the name, the template arguments, and the marks of
pointers, references and arrays. -/
def render : TypeRef → String
  | ⟨name, isConst, isPointer, isReference, isArray, arguments⟩ =>
    (if isConst then "const " else "") ++ name ++ renderArguments arguments
      ++ suffix isPointer isReference isArray

/-- Template arguments between angle brackets, or nothing. -/
def renderArguments : List TypeRef → String
  | [] => ""
  | first :: rest => "<" ++ first.render ++ renderRest rest ++ ">"

/-- Template arguments with a comma before each. -/
def renderRest : List TypeRef → String
  | [] => ""
  | t :: rest => ", " ++ t.render ++ renderRest rest

end

end TypeRef

end HeaderReflection
