import HeaderReflection.Text.Position

/-!
# Faults

What can go wrong between the sources and the generated files, with the text that is reported for
it. A fatal fault stops a run before anything is written; any other one costs a container or a
file and leaves the rest alone.
-/

namespace HeaderReflection

open Text (Position)

/-- A fault, with the file and the place it is reported at. -/
inductive Fault where
  | malformedAttribute (file : String) (position : Position) (reason : String)
  | malformedDeclaration (file : String) (position : Position) (reason : String)
  | unterminatedContainer (file : String) (position : Position) (container : String)
  | duplicateContainer (file : String) (position : Position) (container : String)
  | unknownBase (file : String) (position : Position) (container base : String)
  | ambiguousBase (file : String) (position : Position) (container base : String)
      (candidates : List String)
  | cyclicInheritance (file : String) (position : Position) (cycle : List String)
  | writeFailed (path reason : String)
  | unreadable (path reason : String)
  | configuration (reason : String)
  deriving DecidableEq, Repr

namespace Fault

/-- The place that a message starts with. -/
def located (file : String) (position : Position) : String :=
  file ++ ":" ++ position.text ++ ": "

/-- The text of a fault. -/
def message : Fault → String
  | malformedAttribute file p reason => located file p ++ "malformed attribute: " ++ reason
  | malformedDeclaration file p reason => located file p ++ "malformed declaration: " ++ reason
  | unterminatedContainer file p container =>
    located file p ++ "container '" ++ container ++ "' is never closed"
  | duplicateContainer file p container =>
    located file p ++ "container '" ++ container ++ "' is already declared in this file"
  | unknownBase file p container base =>
    located file p ++ "'" ++ container ++ "' derives from unknown type '" ++ base ++ "'"
  | ambiguousBase file p container base candidates =>
    located file p ++ "base '" ++ base ++ "' of '" ++ container ++ "' is ambiguous, declared in: "
      ++ ", ".intercalate candidates
  | cyclicInheritance file p cycle =>
    located file p ++ "cyclic inheritance: " ++ " -> ".intercalate cycle
  | writeFailed path reason => "failed to write " ++ path ++ ": " ++ reason
  | unreadable path reason => "I/O error for " ++ path ++ ": " ++ reason
  | configuration reason => "invalid configuration: " ++ reason

/-- The fault stops the whole run. -/
def isFatal : Fault → Bool
  | unknownBase .. | ambiguousBase .. | cyclicInheritance .. | configuration .. => true
  | _ => false

end Fault

end HeaderReflection
