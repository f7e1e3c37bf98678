import HeaderReflection.Fault
import HeaderReflection.Markup.Vocabulary

/-!
# Markup events

What a source file holds for reflection: its markers with the declarations behind them, and the
braces, namespaces and access labels that give them their scope.
-/

namespace HeaderReflection

open Text (Position)

/-- The access of a member. -/
inductive Visibility where
  | «public» | «private» | «protected»
  deriving DecidableEq, Repr

namespace Visibility

/-- The access that a word names. -/
def ofWord? : String → Option Visibility
  | "public" => some .public
  | "private" => some .private
  | "protected" => some .protected
  | _ => none

/-- The word of an access. -/
def word : Visibility → String
  | .public => "public"
  | .private => "private"
  | .protected => "protected"

/-- The name of an access in the descriptor tables. -/
def descriptor : Visibility → String
  | .public => "Public"
  | .private => "Private"
  | .protected => "Protected"

end Visibility

/-- A stretch of a source file and the place where it starts. -/
structure Excerpt where
  text : String
  position : Position
  deriving DecidableEq, Repr

/-- One event. A marker's position is that of its word, and its attributes are the text between
its parentheses. -/
inductive Event where
  /-- A container with its header. The body is that of an enum, if it is closed. -/
  | container (position : Position) (attributes declaration : Excerpt) (body : Option String)
  | property (position : Position) (attributes declaration : Excerpt)
  | function (position : Position) (attributes declaration : Excerpt)
  | generatedBody (position : Position) (attributes : Excerpt)
  /-- An access label. -/
  | label (position : Position) (visibility : Visibility)
  /-- A namespace through its opening brace. The name is empty if it has none. -/
  | openNamespace (position : Position) (name : Excerpt)
  | openBrace (position : Position)
  | closeBrace (position : Position)
  deriving DecidableEq, Repr

/-- Why a marker yields no event. -/
inductive ScanCause where
  | unbalancedParentheses
  | unfinishedProperty
  | missingFunction
  | unterminatedFunctionBody
  | missingContainer
  | missingBody
  deriving DecidableEq, Repr

/-- A marker that yields no event, and the place of the fault. -/
structure ScanFault where
  cause : ScanCause
  position : Position
  deriving DecidableEq, Repr

/-- The text of a scan fault's cause. -/
def ScanCause.message : ScanCause → String
  | unbalancedParentheses => "unbalanced parentheses"
  | unfinishedProperty => "expected ';' after property declaration"
  | missingFunction => "expected function declaration"
  | unterminatedFunctionBody => "unterminated function body"
  | missingContainer => "expected container declaration"
  | missingBody => "annotated declaration has no body"

/-- The fault that is reported for a file. -/
def ScanFault.inFile (f : ScanFault) (file : String) : Fault :=
  match f.cause with
  | .unbalancedParentheses => .malformedAttribute file f.position f.cause.message
  | cause => .malformedDeclaration file f.position cause.message

end HeaderReflection
