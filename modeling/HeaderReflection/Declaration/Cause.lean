/-!
# Malformed declarations

Why a declaration behind a marker cannot be recorded.
-/

namespace HeaderReflection

/-- Why a declaration cannot be recorded. -/
inductive DeclarationCause where
  | unbalancedArray
  | empty
  | untyped (tokens : List String)
  | missingParameters
  | unbalancedParameters
  | missingFunctionName
  /-- A parameter, counted from one, of a function. -/
  | parameter (number : Nat) (function : String) (cause : DeclarationCause)
  | unbalancedTemplate
  | notContainer (text : String)
  | unbalancedBrackets
  | anonymous
  | emptyBase (text : String)
  | unnamedProperty (text : String)
  | looseProperty
  | looseFunction
  deriving DecidableEq, Repr

/-- The text of a cause. -/
def DeclarationCause.message : DeclarationCause → String
  | unbalancedArray => "unbalanced array brackets"
  | empty => "empty declaration"
  | untyped tokens => "cannot determine the type of '" ++ " ".intercalate tokens ++ "'"
  | missingParameters => "expected parameter list"
  | unbalancedParameters => "unbalanced parameter list"
  | missingFunctionName => "expected function name"
  | parameter number function cause =>
    "parameter " ++ toString number ++ " of '" ++ function ++ "': " ++ cause.message
  | unbalancedTemplate => "unbalanced template parameter list"
  | notContainer text => "expected class, struct or enum in '" ++ text ++ "'"
  | unbalancedBrackets => "unbalanced brackets in declaration"
  | anonymous => "anonymous containers cannot be reflected"
  | emptyBase text => "empty base specifier in '" ++ text ++ "'"
  | unnamedProperty text => "property declaration '" ++ text ++ "' has no name"
  | looseProperty => "property marker outside of a reflected container"
  | looseFunction => "function marker outside of a reflected container"

end HeaderReflection
