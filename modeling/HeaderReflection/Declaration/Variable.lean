import HeaderReflection.Declaration.Cause
import HeaderReflection.Declaration.Type

/-!
# Reading variables

A variable is a type and a name, up to an initializer or a bit width. A declaration that ends in
its type has an empty name, as an unnamed parameter does.
-/

namespace HeaderReflection

/-- A variable or a parameter: its type and its name, which may be empty. -/
structure Variable where
  type : TypeRef
  name : String
  deriving Repr, Inhabited

namespace Declaration

/-- Reversed tokens without the array bounds that end the declaration, and whether there were any;
nothing if a closing bracket has no opening one. -/
def stripBounds (array : Bool) : List String → Option (List String × Bool)
  | [] => some ([], array)
  | t :: before =>
    if t = "]" then
      match _h : before.dropWhile (· ≠ "[") with
      | [] => none
      | _ :: rest => stripBounds true rest
    else some (t :: before, array)
termination_by ts => ts.length
decreasing_by
  have := (List.dropWhile_suffix (fun x : String => decide (x ≠ "[")) (l := before)).length_le
  simp only [_h, List.length_cons] at *
  omega

/-- The reversed tokens of a declaration end in a name behind a type. -/
def endsInName : List String → Bool
  | last :: before :: _ =>
    isWord last && before ≠ "::" && !qualifiers.contains last && last ≠ "const"
  | _ => false

/-- The variable that tokens declare. -/
def variableOf (ts : List String) : Except DeclarationCause Variable :=
  match stripBounds false (breakTop ["=", "\x7b", ":"] 0 ts).1.reverse with
  | none => .error .unbalancedArray
  | some ([], _) => .error .empty
  | some (last :: before, array) =>
    let named := endsInName (last :: before)
    let type := TypeRef.ofTokens (if named then before.reverse else (last :: before).reverse)
    if type.name = "" then .error (.untyped ts)
    else .ok ⟨{ type with isArray := type.isArray || array }, if named then last else ""⟩

end Declaration

/-- The variable that a text declares. -/
def Variable.parse (text : String) : Except DeclarationCause Variable :=
  Declaration.variableOf (Declaration.tokens text)

end HeaderReflection
