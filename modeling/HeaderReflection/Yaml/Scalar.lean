import HeaderReflection.Text.CharClass
import HeaderReflection.Yaml.Cursor

/-!
# YAML scalars

Plain, single-quoted and double-quoted scalars. A line end inside a scalar is folded: with the
blanks around it, it stands for one blank, and each empty line behind it stands for a line end.
-/

namespace HeaderReflection.Yaml

/-- White space inside a scalar. -/
inductive Gap where
  /-- Blanks on one line, the last one first. -/
  | blanks (cs : List Char)
  /-- Line ends: whether the first one stands for a blank, and how many follow it. -/
  | breaks (folds : Bool) (more : Nat)

namespace Gap

/-- What a gap stands for, last character first. -/
def folded : Gap → List Char
  | blanks cs => cs
  | breaks true 0 => [' ']
  | breaks _ n => List.replicate n '\n'

/-- The gap with a blank behind it. -/
def blank (c : Char) : Gap → Gap
  | blanks cs => blanks (c :: cs)
  | g => g

/-- The gap with a line end behind it. -/
def lineEnd : Gap → Gap
  | blanks _ => breaks true 0
  | breaks folds n => breaks folds (n + 1)

/-- Nothing has been read of the gap. -/
def isEmpty : Gap → Bool
  | blanks cs => cs.isEmpty
  | breaks .. => false

/-- The gap holds a line end. -/
def spansLines : Gap → Bool
  | blanks _ => false
  | breaks .. => true

end Gap

/-- The characters with a meaning of their own at the start of a word. -/
def indicators : List Char := "-?:,[]\x7b\x7d#&*!|>'\"%@\x60".toList

/-- The characters that end a word in a flow collection. -/
def flowIndicators : List Char := ",[]\x7b\x7d".toList

/-- A plain scalar can start here. -/
def startsPlain (flow : Bool) : List Char → Bool
  | [] => false
  | c :: rest =>
    if c = '-' then !endsWord rest
    else if c = '?' || c = ':' then !flow && !endsWord rest
    else !isBlank c && c ≠ '\n' && !indicators.contains c

/-- A plain scalar from inside it. Lines that continue it in a block start at column `indent` or
behind it. `text` is what has been read of it, last character first. -/
def plainFrom (flow : Bool) (indent : Nat) (text : List Char) (gap : Gap) (line column : Nat) :
    List Char → Option (String × Cursor)
  | [] => some (String.ofList text.reverse, ⟨[], line, column⟩)
  | c :: rest =>
    if c = '\n' then plainFrom flow indent text gap.lineEnd (line + 1) 0 rest
    else if isBlank c then
      if c = '\t' && gap.spansLines && column < indent then none
      else plainFrom flow indent text (gap.blank c) line (column + 1) rest
    else
      let here : Cursor := ⟨c :: rest, line, column⟩
      if (!flow && gap.spansLines && column < indent) || here.atMarker
          || (c = '#' && !gap.isEmpty) || here.atColon || (flow && flowIndicators.contains c) then
        some (String.ofList text.reverse, here)
      else if flow && c = ':' && rest.head?.any fun d => d = '?' || flowIndicators.contains d then
        none
      else plainFrom flow indent (c :: (gap.folded ++ text)) (.blanks []) line (column + 1) rest

/-- A plain scalar. -/
def readPlain (flow : Bool) (indent : Nat) (c : Cursor) : Option (String × Cursor) :=
  plainFrom flow indent [] (.blanks []) c.line c.column c.rest

/-- A single-quoted scalar from inside it. A quote in it is written twice. -/
def singleQuotedFrom (text : List Char) (gap : Gap) (line column : Nat) :
    List Char → Option (String × Cursor)
  | [] => none
  | '\x27' :: '\x27' :: rest =>
    singleQuotedFrom ('\x27' :: (gap.folded ++ text)) (.blanks []) line (column + 2) rest
  | '\x27' :: rest =>
    some (String.ofList (gap.folded ++ text).reverse, ⟨rest, line, column + 1⟩)
  | c :: rest =>
    if c = '\n' then singleQuotedFrom text gap.lineEnd (line + 1) 0 rest
    else if isBlank c then singleQuotedFrom text (gap.blank c) line (column + 1) rest
    else if (⟨c :: rest, line, column⟩ : Cursor).atMarker then none
    else singleQuotedFrom (c :: (gap.folded ++ text)) (.blanks []) line (column + 1) rest

/-- The character that a letter behind a backslash stands for. -/
def escapeChar? : Char → Option Char
  | '0' => some '\x00'
  | 'a' => some '\x07'
  | 'b' => some '\x08'
  | 't' | '\t' => some '\t'
  | 'n' => some '\n'
  | 'v' => some '\x0b'
  | 'f' => some '\x0c'
  | 'r' => some '\r'
  | 'e' => some '\x1b'
  | ' ' => some ' '
  | '\x22' => some '\x22'
  | '/' => some '/'
  | '\\' => some '\\'
  | 'N' => some '\u0085'
  | '_' => some '\u00a0'
  | 'L' => some '\u2028'
  | 'P' => some '\u2029'
  | _ => none

/-- How many hexadecimal digits follow a letter behind a backslash. -/
def hexCount? : Char → Option Nat
  | 'x' => some 2
  | 'u' => some 4
  | 'U' => some 8
  | _ => none

/-- The character that a number of hexadecimal digits name. -/
def hexChar? (count : Nat) (cs : List Char) : Option Char := do
  let digits ← (cs.take count).mapM Text.hexValue?
  let n := digits.foldl (fun n d => 16 * n + d) 0
  if digits.length = count && n.isValidChar then some (Char.ofNat n) else none

/-- What is left behind an escape, which is shorter than what stood before it. -/
theorem length_drop_lt {α : Type} (n : Nat) (c d : α) (rest : List α) :
    (rest.drop n).length < (c :: d :: rest).length := by
  simp only [List.length_drop, List.length_cons]
  omega

/-- A double-quoted scalar from inside it. A backslash escapes a character, or a line end, which
then stands for nothing. -/
def doubleQuotedFrom (text : List Char) (gap : Gap) (line column : Nat) :
    List Char → Option (String × Cursor)
  | [] => none
  | '\x22' :: rest =>
    some (String.ofList (gap.folded ++ text).reverse, ⟨rest, line, column + 1⟩)
  | '\\' :: '\n' :: rest =>
    doubleQuotedFrom (gap.folded ++ text) (.breaks false 0) (line + 1) 0 rest
  | '\\' :: d :: rest =>
    match hexCount? d with
    | some n =>
      match hexChar? n rest with
      | none => none
      | some e =>
        have := length_drop_lt n '\\' d rest
        doubleQuotedFrom (e :: (gap.folded ++ text)) (.blanks []) line (column + 2 + n)
          (rest.drop n)
    | none =>
      match escapeChar? d with
      | none => none
      | some e =>
        doubleQuotedFrom (e :: (gap.folded ++ text)) (.blanks []) line (column + 2) rest
  | c :: rest =>
    if c = '\n' then doubleQuotedFrom text gap.lineEnd (line + 1) 0 rest
    else if isBlank c then doubleQuotedFrom text (gap.blank c) line (column + 1) rest
    else if (⟨c :: rest, line, column⟩ : Cursor).atMarker then none
    else doubleQuotedFrom (c :: (gap.folded ++ text)) (.blanks []) line (column + 1) rest
termination_by cs => cs.length

end HeaderReflection.Yaml
