import HeaderReflection.Container.Basic
import HeaderReflection.Digest.Sha256
import HeaderReflection.Text.Title

/-!
# Names in generated code

String literals, the identifiers of files, stable identifiers of types, and the names that an
editor shows.
-/

namespace HeaderReflection

/-- A character as it stands in a string literal. -/
def escapeLiteralChar (c : Char) : List Char :=
  if c = '\\' then ['\\', '\\']
  else if c = '\x22' then ['\\', '\x22']
  else if c = '\n' then ['\\', 'n']
  else if c = '\x0d' then ['\\', 'r']
  else if c = '\t' then ['\\', 't']
  else [c]

/-- A text as it stands in a string literal. -/
def escapeLiteral (s : String) : String :=
  String.ofList (s.toList.flatMap escapeLiteralChar)

/-- A text between quotes, as a string literal. -/
def quote (s : String) : String :=
  "\"" ++ escapeLiteral s ++ "\""

/-- A file's name as an identifier: all but ASCII letters and digits become underscores. -/
def fileSymbol (fileId : String) : String :=
  String.ofList (fileId.toList.map fun c => if Text.isAsciiAlphanumeric c then c else '_')

/-- A number as sixteen hexadecimal digits. -/
def hex16 (n : Nat) : String :=
  let ds := Nat.toDigits 16 n
  String.ofList (List.replicate (16 - ds.length) '0' ++ ds)

/-- The stable identifier of a type: the first eight bytes of the digest of its file and name. -/
def stableTypeId (fileId name : String) : Nat :=
  let d := Sha256.digest (fileId ++ "::" ++ name).toUTF8.toList
  d.a.toNat * Nat.pow 2 32 + d.b.toNat

/-- A member's name without the mark of members and, for a truth value, without the mark of those
in front of a capital. -/
def bareName (isBool : Bool) (name : List Char) : List Char :=
  let name := match name with
    | 'm' :: '_' :: rest => rest
    | _ => name
  match name with
  | 'b' :: c :: rest => if isBool && Text.isUppercase c then c :: rest else name
  | _ => name

/-- The name that an editor shows for a property: the one its attributes give, or else its own in
title case. -/
def displayName (name typeName : String) (attributes : Attributes) : String :=
  match attributes.get? "DisplayName" with
  | some (.text given) => given
  | _ => Text.Title.titleCase (String.ofList (bareName (typeName = "bool") name.toList))

end HeaderReflection
