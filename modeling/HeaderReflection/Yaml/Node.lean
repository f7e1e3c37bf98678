/-!
# YAML nodes

What a YAML document says: scalars, sequences and mappings, and the readings of them that typed
data needs.
-/

namespace HeaderReflection.Yaml

/-- A part of a document. -/
inductive Node where
  /-- A text. `plain` tells that it stands without quotes, so that it can mean more than a text. -/
  | scalar (text : String) (plain : Bool)
  | sequence (items : List Node)
  | mapping (entries : List (Node × Node))

namespace Node

/-- What stands where nothing is written. -/
def nothing : Node := .scalar "" true

/-- The text of a scalar. -/
def text? : Node → Option String
  | .scalar text _ => some text
  | _ => none

/-- The truth value that a scalar without quotes names. -/
def flag? : Node → Option Bool
  | .scalar "true" true | .scalar "True" true | .scalar "TRUE" true => some true
  | .scalar "false" true | .scalar "False" true | .scalar "FALSE" true => some false
  | _ => none

/-- The texts of a sequence of scalars. Nothing is an empty sequence. -/
def texts? : Node → Option (List String)
  | .scalar "" true => some []
  | .sequence items => items.mapM text?
  | _ => none

/-- The named fields among the entries of a mapping. No name is given twice. -/
def namedFields (names : List String) : List (Node × Node) → Option (List (String × Node))
  | [] => some []
  | (key, value) :: rest => do
    let name ← key.text?
    let fields ← namedFields names rest
    if names.contains name then
      if (fields.lookup name).isSome then none else some ((name, value) :: fields)
    else some fields

/-- The named fields of a record. A sequence gives them in their order, and nothing gives none. -/
def fields? (names : List String) : Node → Option (List (String × Node))
  | .scalar "" true => some []
  | .sequence items => if items.length ≤ names.length then some (names.zip items) else none
  | .mapping entries => namedFields names entries
  | _ => none

/-- A field as it is read, or its default if it is not given. -/
def field {α : Type} (fields : List (String × Node)) (name : String) (read : Node → Option α)
    (absent : α) : Option α :=
  match fields.lookup name with
  | none => some absent
  | some node => read node

end Node

end HeaderReflection.Yaml
