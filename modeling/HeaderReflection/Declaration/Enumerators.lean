import HeaderReflection.Declaration.Type

/-!
# Reading enumerators

The entries of an enum's body are separated by commas outside round, square and curly brackets;
angle brackets do not nest here, since shifts are common. An entry that does not start with a word
is passed over.
-/

namespace HeaderReflection

/-- A named constant of an enum, with its value as it is written. -/
structure Enumerator where
  name : String
  value : Option String
  deriving DecidableEq, Repr, Inhabited

namespace Declaration

/-- The levels that a token opens in an enum's body. -/
def enumDepth (t : String) : Int :=
  if t = "<" || t = ">" then 0 else bracketDepth t

/-- The entries of a body's tokens, at a given depth. -/
def splitEntries : Int → List Token → List (List Token)
  | _, [] => [[]]
  | depth, t :: rest =>
    if depth = 0 && t.isPunctuation "," then [] :: splitEntries depth rest
    else match splitEntries (depth + enumDepth t.text) rest with
      | [] => [[t]]
      | entry :: entries => (t :: entry) :: entries

/-- The text behind the first equals sign of an entry, unless it is blank. -/
def valueOf (entry : List Token) : Option String :=
  match entry.dropWhile fun t => !t.isPunctuation "=" with
  | [] => none
  | _ :: rest =>
    let value := Text.trim (Token.spell rest)
    if value = "" then none else some value

/-- The enumerator that an entry declares. -/
def enumeratorOf? : List Token → Option Enumerator
  | [] => none
  | t :: rest =>
    if t.kind = .identifier then some ⟨t.text, valueOf (t :: rest)⟩ else none

end Declaration

/-- The enumerators of an enum's body. -/
def Enumerator.parseAll (body : String) : List Enumerator :=
  (Declaration.splitEntries 0 (Token.lex body)).filterMap Declaration.enumeratorOf?

end HeaderReflection
