import HeaderReflection.Declaration.Variable

/-!
# Reading functions

A function is a return type, a name and a parameter list. Without a return type it returns `void`,
and a parameter without a name gets one by its place.
-/

namespace HeaderReflection

/-- A member function's signature. -/
structure Signature where
  name : String
  returnType : TypeRef
  parameters : List Variable
  isStatic : Bool
  isConst : Bool
  deriving Repr, Inhabited

/-- Parameters as they are written, between parentheses. -/
def parameterList (ps : List Variable) : String :=
  "(" ++ ", ".intercalate (ps.map fun p => p.type.render ++ " " ++ p.name) ++ ")"

namespace Declaration

/-- The parameter at a place, counted from zero, of a function. -/
def parameterOf (function : String) (place : Nat) (ts : List String) :
    Except DeclarationCause Variable :=
  match variableOf ts with
  | .ok p => .ok { p with name := if p.name = "" then "arg" ++ toString place else p.name }
  | .error cause => .error (.parameter (place + 1) function cause)

/-- The parameters of a function from a place on. -/
def parametersOf (function : String) : Nat → List (List String) →
    Except DeclarationCause (List Variable)
  | _, [] => .ok []
  | place, ts :: rest => do
    let p ← parameterOf function place ts
    let ps ← parametersOf function (place + 1) rest
    .ok (p :: ps)

/-- The parameters between a function's parentheses; `void` alone stands for none. -/
def parameters (function : String) (ts : List String) : Except DeclarationCause (List Variable) :=
  if ts = [] || ts = ["void"] then .ok [] else parametersOf function 0 (splitTop "," 0 ts)

/-- The return type that the tokens before a function's name spell. -/
def returnType (ts : List String) : TypeRef :=
  if ts.any fun t => isWord t && !qualifiers.contains t then TypeRef.ofTokens ts
  else TypeRef.named "void"

/-- The name that ends the tokens before a parameter list, and what stands before it. -/
def splitName? (head : List String) : Option (List String × String) :=
  match head.reverse with
  | [] => none
  | name :: before => if isWord name then some (before.reverse, name) else none

/-- The signature that tokens declare. -/
def signatureOf (ts : List String) : Except DeclarationCause Signature :=
  match breakTop ["("] 0 ts with
  | (_, []) => .error .missingParameters
  | (head, _ :: rest) =>
    match closeGroup 1 rest with
    | none => .error .unbalancedParameters
    | some (group, trailing) =>
      match splitName? head with
      | none => .error .missingFunctionName
      | some (before, name) => do
        let ps ← parameters name group.dropLast
        .ok
          { name
            returnType := returnType before
            parameters := ps
            isStatic := before.contains "static"
            isConst := (breakTop ["="] 0 trailing).1.contains "const" }

end Declaration

/-- The signature that a text declares. -/
def Signature.parse (text : String) : Except DeclarationCause Signature :=
  Declaration.signatureOf (Declaration.tokens text)

end HeaderReflection
