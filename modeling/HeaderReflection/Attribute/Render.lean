import HeaderReflection.Attribute.Basic
import HeaderReflection.Number.Layout

/-!
# Attribute texts

Attributes as they are written: a true flag is its bare key, any other value stands in parentheses
behind its key, and commas separate the attributes.
-/

namespace HeaderReflection

/-- A text value between quotes: a backslash stands before each backslash and each quote. -/
def escapeQuoted : List Char → List Char
  | [] => []
  | c :: rest =>
    if c = '\\' || c = '\x22' then '\\' :: c :: escapeQuoted rest else c :: escapeQuoted rest

mutual

/-- What stands behind the key of an attribute. -/
def AttributeValue.renderChars : AttributeValue → List Char
  | .flag true => []
  | .flag false => ['(', 'f', 'a', 'l', 's', 'e', ')']
  | .number x => '(' :: x.plainChars ++ [')']
  | .text s => '(' :: '\x22' :: escapeQuoted s.toList ++ ['\x22', ')']
  | .nested m => '(' :: AttributeValue.renderList m ++ [')']

/-- Attributes with commas between them. -/
def AttributeValue.renderList : List (String × AttributeValue) → List Char
  | [] => []
  | (key, value) :: rest => key.toList ++ value.renderChars ++ AttributeValue.renderRest rest

/-- Attributes with a comma before each. -/
def AttributeValue.renderRest : List (String × AttributeValue) → List Char
  | [] => []
  | (key, value) :: rest =>
    ',' :: ' ' :: (key.toList ++ value.renderChars ++ AttributeValue.renderRest rest)

end

/-- The text of attributes. -/
def Attributes.render (m : Attributes) : String :=
  String.ofList (AttributeValue.renderList m)

end HeaderReflection
