/-!
# Positions in a text

A position is a line and a column, both counted from one; a column counts characters. Walking over
a text moves a position, and walking over two texts is walking over their concatenation.

The counts have no bound. Counters of 32 bits hold the same numbers in every text with fewer than
`2 ^ 32` lines and no line of `2 ^ 32` characters, so in every text below four gibibytes.
-/

namespace HeaderReflection.Text

/-- A line and a column. -/
structure Position where
  line : Nat
  column : Nat
  deriving DecidableEq, Repr, Inhabited

namespace Position

/-- The first character of a text. -/
def start : Position := ⟨1, 1⟩

/-- The position after a character: a newline starts the next line. -/
def advance (p : Position) (c : Char) : Position :=
  if c = '\n' then ⟨p.line + 1, 1⟩ else ⟨p.line, p.column + 1⟩

/-- The position after a text. -/
def past (p : Position) (cs : List Char) : Position :=
  cs.foldl advance p

@[simp] theorem past_nil (p : Position) : p.past [] = p := rfl

@[simp] theorem past_cons (p : Position) (c : Char) (cs : List Char) :
    p.past (c :: cs) = (p.advance c).past cs := rfl

theorem past_append (p : Position) (cs ds : List Char) :
    p.past (cs ++ ds) = (p.past cs).past ds :=
  List.foldl_append

/-- A position is shown as line, colon, column. -/
def text (p : Position) : String :=
  toString p.line ++ ":" ++ toString p.column

end Position

/-- The number of bytes of a text in UTF-8. -/
def byteLength : List Char → Nat
  | [] => 0
  | c :: cs => c.utf8Size + byteLength cs

end HeaderReflection.Text
