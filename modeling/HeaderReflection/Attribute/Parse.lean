import HeaderReflection.Attribute.Basic
import HeaderReflection.Fault
import HeaderReflection.Number.Layout
import HeaderReflection.Number.Read

/-!
# Reading attributes

Attributes are separated by commas, of which one may stand at the end. A value is read by its first
character: a quote opens a text; a digit, a sign or a point opens a number or a range of two or
three numbers; the words `true` and `false` alone are flags; all else is a nested list.
-/

namespace HeaderReflection

open Text (Position isBlank isAlphanumeric isAsciiDigit isAsciiAlphanumeric
  isWordChar)

/-- Why a text is no list of attributes. -/
inductive AttributeCause where
  | unbalancedParentheses
  | missingName (found : Option Char)
  | unexpected (found : Char)
  | duplicate (key : String)
  | unterminatedString
  | badNumber (literal : String)
  | emptyRange (low high : Number)
  | longRange
  deriving DecidableEq, Repr

/-- The text of a cause. -/
def AttributeCause.message : AttributeCause → String
  | unbalancedParentheses => "unbalanced parentheses"
  | missingName none => "expected attribute name"
  | missingName (some c) => "expected attribute name, found '" ++ String.singleton c ++ "'"
  | unexpected c => "unexpected '" ++ String.singleton c ++ "'"
  | duplicate key => "duplicate attribute '" ++ key ++ "'"
  | unterminatedString => "unterminated string"
  | badNumber literal => "invalid numeric literal '" ++ literal ++ "'"
  | emptyRange low high => "range minimum " ++ low.plain ++ " exceeds maximum " ++ high.plain
  | longRange => "range literal takes at most min|max|step"

/-- A cause and the place it is reported at. -/
structure AttributeFault where
  cause : AttributeCause
  position : Position
  deriving DecidableEq, Repr

/-- The fault that is reported for a file. -/
def AttributeFault.inFile (f : AttributeFault) (file : String) : Fault :=
  .malformedAttribute file f.position f.cause.message

namespace Attribute

/-- What is left to read, and where it starts. -/
structure Reader where
  position : Position
  rest : List Char
  deriving DecidableEq, Repr

namespace Reader

/-- The reader past the characters of a class that come next. -/
def dropWhile (r : Reader) (p : Char → Bool) : Reader :=
  ⟨r.position.past (r.rest.takeWhile p), r.rest.dropWhile p⟩

/-- The reader past the blanks that come next. -/
def skipBlanks (r : Reader) : Reader :=
  r.dropWhile isBlank

/-- The reader past the next character. -/
def next (r : Reader) : Reader :=
  match r.rest with
  | [] => r
  | c :: rest => ⟨r.position.advance c, rest⟩

/-- The next character. -/
def head? (r : Reader) : Option Char :=
  r.rest.head?

/-- A fault at the reader's place. -/
def fail {α : Type} (r : Reader) (cause : AttributeCause) : Except AttributeFault α :=
  .error ⟨cause, r.position⟩

end Reader

/-- The characters of keys. -/
def isKeyChar (c : Char) : Bool :=
  isAlphanumeric c || c == '_' || c == ':'

/-- The characters of number literals. -/
def isLiteralChar (c : Char) : Bool :=
  isAsciiAlphanumeric c || c == '.' || c == '-' || c == '+' || c == '_'

/-- A character that opens a number. -/
def opensNumber (c : Char) : Bool :=
  isAsciiDigit c || c == '-' || c == '+' || c == '.'

/-- A key. -/
def readKey (r : Reader) : Except AttributeFault (String × Reader) :=
  match r.rest.takeWhile isKeyChar with
  | [] => r.fail (.missingName r.head?)
  | key => .ok (String.ofList key, r.dropWhile isKeyChar)

/-- The character that a backslash and a character stand for. -/
def unescape (c : Char) : Char :=
  if c = 'n' then '\n' else if c = 't' then '\t' else c

/-- A text value of which the opening quote has been read. -/
def readText (position : Position) : List Char → Except AttributeFault (List Char × Reader)
  | [] => .error ⟨.unterminatedString, position⟩
  | '\\' :: [] => .error ⟨.unterminatedString, position.advance '\\'⟩
  | '\\' :: c :: rest =>
    (readText ((position.advance '\\').advance c) rest).map fun (cs, r) => (unescape c :: cs, r)
  | c :: rest =>
    if c = '\x22' then .ok ([], ⟨position.advance c, rest⟩)
    else (readText (position.advance c) rest).map fun (cs, r) => (c :: cs, r)

/-- A literal without the letters f that may end it. -/
def trimSuffix (literal : List Char) : List Char :=
  (literal.reverse.dropWhile fun c => c = 'f' || c = 'F').reverse

/-- A number literal. -/
def readNumber (r : Reader) : Except AttributeFault (Number × Reader) :=
  let literal := r.rest.takeWhile isLiteralChar
  match Number.read? (trimSuffix literal) with
  | some x => .ok (x, r.dropWhile isLiteralChar)
  | none => r.fail (.badNumber (String.ofList literal))

/-- Numbers with a bar before each. The fuel bounds their count. -/
def readBounds : Nat → Reader → Except AttributeFault (List Number × Reader)
  | 0, r => .ok ([], r)
  | fuel + 1, r =>
    let bar := r.skipBlanks
    if bar.head? = some '|' then do
      let (x, r) ← readNumber bar.next.skipBlanks
      let (xs, r) ← readBounds fuel r
      .ok (x :: xs, r)
    else .ok ([], bar)

/-- A range as attributes. -/
def range (low high step : Number) : AttributeValue :=
  .nested [("min", .number low), ("max", .number high), ("step", .number step)]

/-- The value of a list of numbers: a number alone, or a range with the step one if it has none. -/
def numericValue : Number → List Number → Except AttributeCause AttributeValue
  | x, [] => .ok (.number x)
  | low, [high] => if low.exceeds high then .error (.emptyRange low high)
      else .ok (range low high .one)
  | low, [high, step] => if low.exceeds high then .error (.emptyRange low high)
      else .ok (range low high step)
  | _, _ => .error .longRange

/-- A number or a range. -/
def readNumeric (r : Reader) : Except AttributeFault (AttributeValue × Reader) := do
  let (x, after) ← readNumber r
  let (xs, after) ← readBounds after.rest.length after
  match numericValue x xs with
  | .ok value => .ok (value, after)
  | .error cause => r.fail cause

/-- The flag that a word alone between parentheses spells, with the reader at the closing one. -/
def readFlag? (r : Reader) : Option (Bool × Reader) :=
  let word := r.rest.takeWhile isWordChar
  let after := (r.dropWhile isWordChar).skipBlanks
  if after.head? = some ')' then
    if word = "true".toList then some (true, after)
    else if word = "false".toList then some (false, after)
    else none
  else none

/-- A value, from its first character, given how to read a nested list. -/
def readValue (readNested : Reader → Except AttributeFault (Attributes × Reader)) (r : Reader) :
    Except AttributeFault (AttributeValue × Reader) :=
  if r.head? = some '\x22' then
    (readText r.next.position r.next.rest).map fun (cs, r) => (.text (String.ofList cs), r)
  else if r.head?.any opensNumber then readNumeric r
  else match readFlag? r with
    | some (b, r) => .ok (.flag b, r)
    | none => (readNested r).map fun (m, r) => (.nested m, r)

/-- What may stand behind a key: a value in parentheses, or nothing for a true flag. -/
def readArgument (readNested : Reader → Except AttributeFault (Attributes × Reader)) (r : Reader) :
    Except AttributeFault (AttributeValue × Reader) :=
  if r.head? = some '(' then do
    let (value, r) ← readValue readNested r.next.skipBlanks
    let close := r.skipBlanks
    if close.head? = some ')' then .ok (value, close.next)
    else close.next.fail .unbalancedParentheses
  else .ok (.flag true, r)

/-- Attributes after the ones given, up to the end of the text or, in a nested list, up to its
closing parenthesis. The fuel bounds the number of attributes and their depth. -/
def readList : Nat → Bool → Attributes → Reader → Except AttributeFault (Attributes × Reader)
  | 0, _, _, r => r.fail .unbalancedParentheses
  | fuel + 1, nested, m, r =>
    let start := r.skipBlanks
    match start.head? with
    | none => if nested then start.fail .unbalancedParentheses else .ok (m, start)
    | some ')' => if nested then .ok (m, start) else start.fail .unbalancedParentheses
    | some _ => do
      let (key, r) ← readKey start
      let (value, r) ← readArgument (readList fuel true []) r.skipBlanks
      if m.contains key then start.fail (.duplicate key)
      else
        let stop := r.skipBlanks
        match stop.head? with
        | some ',' => readList fuel nested (m.insert key value) stop.next
        | some ')' =>
          if nested then .ok (m.insert key value, stop) else stop.fail .unbalancedParentheses
        | none =>
          if nested then stop.fail .unbalancedParentheses else .ok (m.insert key value, stop)
        | some c => stop.fail (.unexpected c)

/-- The attributes of a text that starts at a given place. -/
def parseAt (origin : Position) (cs : List Char) : Except AttributeFault Attributes :=
  (readList (cs.length + 1) false [] ⟨origin, cs⟩).map Prod.fst

end Attribute

/-- The attributes of an excerpt. -/
def Attributes.parse (text : String) (origin : Position) : Except AttributeFault Attributes :=
  Attribute.parseAt origin text.toList

end HeaderReflection
