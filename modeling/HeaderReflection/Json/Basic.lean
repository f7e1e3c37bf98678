import HeaderReflection.Number.Layout

/-!
# JSON texts

Values of JSON documents and their written form, with two blanks of indentation for each level.
-/

namespace HeaderReflection

/-- A value of a JSON document. An object keeps the order of its members. -/
inductive Json where
  | null
  | bool (b : Bool)
  | count (n : Nat)
  | number (x : Number)
  | string (s : String)
  | array (items : List Json)
  | object (members : List (String × Json))

namespace Json

/-- A control character by its number, in four digits. -/
def controlEscape (c : Char) : List Char :=
  ['\\', 'u', '0', '0', Nat.digitChar (c.toNat / 16), Nat.digitChar (c.toNat % 16)]

/-- A character of a string. -/
def escapeChar (c : Char) : List Char :=
  if c = '\x22' then ['\\', '\x22']
  else if c = '\\' then ['\\', '\\']
  else if c = '\x08' then ['\\', 'b']
  else if c = '\x0c' then ['\\', 'f']
  else if c = '\n' then ['\\', 'n']
  else if c = '\r' then ['\\', 'r']
  else if c = '\t' then ['\\', 't']
  else if c.toNat < 32 then controlEscape c
  else [c]

/-- A string in quotes. -/
def quoted (s : String) : String :=
  String.ofList ('\x22' :: s.toList.flatMap escapeChar ++ ['\x22'])

/-- The start of a line at a level. -/
def lineStart (level : Nat) : String :=
  "\n" ++ String.ofList (List.replicate (2 * level) ' ')

/-- Items between brackets, each on a line of its own. No items stand on the brackets' line. -/
def bracketed (level : Nat) (first last : String) (items : List String) : String :=
  if items.isEmpty then first ++ last
  else first ++ ",".intercalate (items.map (lineStart (level + 1) ++ ·)) ++ lineStart level ++ last

mutual

/-- The written form of a value at a level of indentation. -/
def renderAt (level : Nat) : Json → String
  | .null => "null"
  | .bool b => if b then "true" else "false"
  | .count n => toString n
  | .number x => x.json
  | .string s => quoted s
  | .array items => bracketed level "[" "]" (renderItems (level + 1) items)
  | .object members => bracketed level "\x7b" "\x7d" (renderMembers (level + 1) members)

/-- The written forms of the items of an array. -/
def renderItems (level : Nat) : List Json → List String
  | [] => []
  | j :: rest => renderAt level j :: renderItems level rest

/-- The written forms of the members of an object. -/
def renderMembers (level : Nat) : List (String × Json) → List String
  | [] => []
  | (key, j) :: rest => (quoted key ++ ": " ++ renderAt level j) :: renderMembers level rest

end

/-- The written form of a value. -/
def render (j : Json) : String := renderAt 0 j

end Json

end HeaderReflection
