/-!
# Places in a YAML document

A cursor is what is left of a document with the line and the column it starts at. Columns carry the
structure of blocks, so every step keeps them.
-/

namespace HeaderReflection.Yaml

/-- The characters of a document with one character for each line end. -/
def unifyBreaks : List Char → List Char
  | [] => []
  | '\r' :: '\n' :: rest => '\n' :: unifyBreaks rest
  | c :: rest => (if c = '\r' || c = '\u0085' then '\n' else c) :: unifyBreaks rest

/-- The character may stand in a document. -/
def isPrintable (c : Char) : Bool :=
  let n := c.toNat
  c = '\t' || c = '\n' || c = '\r' || (0x20 ≤ n && n ≤ 0x7e) || n = 0x85
    || (0xa0 ≤ n && n ≤ 0xfffd) || 0x10000 ≤ n

/-- The character separates words on a line. -/
def isBlank (c : Char) : Bool := c = ' ' || c = '\t'

/-- The text is at its end, at a line end or at a blank. -/
def endsWord : List Char → Bool
  | [] => true
  | c :: _ => isBlank c || c = '\n'

/-- A place in a document. Lines and columns count from zero. -/
structure Cursor where
  rest : List Char
  line : Nat := 0
  column : Nat := 0

namespace Cursor

/-- The place a number of characters further on the same line. -/
def advance (c : Cursor) (n : Nat) : Cursor :=
  { c with rest := c.rest.drop n, column := c.column + n }

/-- A line that starts or ends a document is at the place. -/
def atMarker (c : Cursor) : Bool :=
  c.column = 0 && match c.rest with
    | '-' :: '-' :: '-' :: rest | '.' :: '.' :: '.' :: rest => endsWord rest
    | _ => false

/-- The document ends at the place. -/
def atEnd (c : Cursor) : Bool := c.rest.isEmpty || c.atMarker

/-- The content at the place, up to the end of the document. -/
def content (c : Cursor) : List Char := if c.atMarker then [] else c.rest

/-- An entry of a block sequence starts at the place. -/
def atEntry (c : Cursor) : Bool :=
  match c.rest with
  | '-' :: rest => !c.atMarker && endsWord rest
  | _ => false

/-- The colon behind a key of a block mapping is at the place. -/
def atColon (c : Cursor) : Bool :=
  match c.rest with
  | ':' :: rest => endsWord rest
  | _ => false

/-- Skips blanks, comments and line ends. Tabs are skipped up to the first line end if `tabs` is
set, and on later lines inside flow collections alone. -/
def skipGap (flow tabs comment : Bool) (line column : Nat) : List Char → Cursor
  | [] => ⟨[], line, column⟩
  | c :: rest =>
    if c = '\n' then skipGap flow flow false (line + 1) 0 rest
    else if comment then skipGap flow tabs true line (column + 1) rest
    else if c = '#' then skipGap flow tabs true line (column + 1) rest
    else if c = ' ' || (tabs && c = '\t') then skipGap flow tabs false line (column + 1) rest
    else ⟨c :: rest, line, column⟩

/-- The next content in a block. -/
def skipInBlock (c : Cursor) (tabs : Bool) : Cursor :=
  skipGap false tabs false c.line c.column c.rest

/-- The next content in a flow collection. -/
def skipInFlow (c : Cursor) : Cursor :=
  skipGap true true false c.line c.column c.rest

end Cursor

end HeaderReflection.Yaml
