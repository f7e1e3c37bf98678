/-!
# Vocabulary

The words that mark reflected declarations in a source file.
-/

namespace HeaderReflection

/-- What a marker word announces. -/
inductive MarkerKind where
  | container | property | function | generatedBody
  deriving DecidableEq, Repr

/-- The words that are markers, by what they announce. -/
structure Vocabulary where
  /-- Words before a class, struct or enum. -/
  container : List String := ["CLASS", "STRUCT", "ENUM"]
  /-- Words before a data member. -/
  property : List String := ["PROPERTY"]
  /-- Words before a member function. -/
  function : List String := ["FUNCTION"]
  /-- Words in a container's body where generated code goes. -/
  generatedBody : List String := ["GENERATED_BODY"]
  deriving DecidableEq, Repr, Inhabited

namespace Vocabulary

/-- What a word announces. A word in several lists means the first of them. -/
def classify (v : Vocabulary) (word : String) : Option MarkerKind :=
  if v.container.contains word then some .container
  else if v.property.contains word then some .property
  else if v.function.contains word then some .function
  else if v.generatedBody.contains word then some .generatedBody
  else none

/-- All marker words. -/
def words (v : Vocabulary) : List String :=
  v.container ++ v.property ++ v.function ++ v.generatedBody

end Vocabulary

end HeaderReflection
