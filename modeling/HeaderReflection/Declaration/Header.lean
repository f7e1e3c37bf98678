import HeaderReflection.Markup.Event
import HeaderReflection.Declaration.Cause
import HeaderReflection.Declaration.Type

/-!
# Reading container headers

A header is a kind, a name and, behind a colon, the bases of a class or the underlying type of an
enum. The name is the last word before the colon that is neither in brackets nor `final`.
-/

namespace HeaderReflection

/-- The kinds of containers. -/
inductive ContainerKind where
  | «class» | «struct» | enum
  deriving DecidableEq, Repr, Inhabited

namespace ContainerKind

/-- The word of a kind. -/
def word : ContainerKind → String
  | .class => "class"
  | .struct => "struct"
  | .enum => "enum"

/-- The kind that a word names. -/
def ofWord? : String → Option ContainerKind
  | "class" => some .class
  | "struct" => some .struct
  | "enum" => some .enum
  | _ => none

/-- The access of members before the first label. -/
def defaultVisibility : ContainerKind → Visibility
  | .class => .private
  | .struct | .enum => .public

end ContainerKind

/-- What a container's header says. -/
structure Header where
  kind : ContainerKind
  name : String
  bases : List TypeRef
  /-- The underlying type of an enum. -/
  underlying : Option TypeRef
  deriving Repr, Inhabited

namespace Declaration

/-- The last word outside brackets that is not `final`, or the given one. -/
def headerName (name : Option String) : List String → Except DeclarationCause (Option String)
  | [] => .ok name
  | t :: rest =>
    if t = "(" || t = "<" then
      match _h : closeGroup 1 rest with
      | none => .error .unbalancedBrackets
      | some (_, after) => headerName name after
    else if t ≠ "final" && isWord t then headerName (some t) rest
    else headerName name rest
termination_by ts => ts.length
decreasing_by
  · have := length_closeGroup _h
    simp only [List.length_cons]
    omega
  · simp
  · simp

/-- The words of a base that are no part of its type. -/
def baseWords : List String :=
  ["public", "private", "protected", "virtual"]

/-- The bases that the parts of a base list name; `text` is the whole header. -/
def basesOf (text : String) : List (List String) → Except DeclarationCause (List TypeRef)
  | [] => .ok []
  | part :: rest =>
    match part.filter fun t => !baseWords.contains t with
    | [] => .error (.emptyBase text)
    | ts => do
      let bases ← basesOf text rest
      .ok (TypeRef.ofTokens ts :: bases)

/-- The tokens behind a template's parameter list, if there is one. -/
def skipTemplate : List String → Except DeclarationCause (List String)
  | [] => .ok []
  | t :: rest =>
    if t = "template" then
      match closeGroup 0 rest with
      | none => .error .unbalancedTemplate
      | some (_, after) => .ok after
    else .ok (t :: rest)

/-- The tokens without the word that makes an enum scoped. -/
def skipScopedWord : List String → List String
  | [] => []
  | t :: rest => if t = "class" || t = "struct" then rest else t :: rest

/-- The header of a kind that the tokens behind the kind's word declare. -/
def headerOf (text : String) (kind : ContainerKind) (ts : List String) :
    Except DeclarationCause Header :=
  let parts := breakTop [":"] 0 ts
  match headerName none parts.1 with
  | .error cause => .error cause
  | .ok none => .error .anonymous
  | .ok (some name) =>
    match parts.2 with
    | [] => .ok ⟨kind, name, [], none⟩
    | _ :: tail =>
      if kind = .enum then .ok ⟨kind, name, [], some (TypeRef.ofTokens tail)⟩
      else (basesOf text (splitTop "," 0 tail)).map fun bases => ⟨kind, name, bases, none⟩

end Declaration

/-- The header that a text declares. -/
def Header.parse (text : String) : Except DeclarationCause Header :=
  match Declaration.skipTemplate (Declaration.tokens text) with
  | .error cause => .error cause
  | .ok [] => .error (.notContainer text)
  | .ok (word :: rest) =>
    match ContainerKind.ofWord? word with
    | none => .error (.notContainer text)
    | some .enum => Declaration.headerOf text .enum (Declaration.skipScopedWord rest)
    | some kind => Declaration.headerOf text kind rest

end HeaderReflection
