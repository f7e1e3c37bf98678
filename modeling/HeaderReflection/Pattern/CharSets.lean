import HeaderReflection.Pattern.Basic

/-!
# Written character sets

Escapes and bracketed sets of characters, as patterns write them. A bracketed set holds characters,
ranges, escapes, named sets and further brackets, and operators between such unions of sets.
-/

namespace HeaderReflection

namespace CharSet

/-- One character. -/
def single (c : Char) : CharSet := .range c c

/-- The union of sets. -/
def unions (ss : List CharSet) : CharSet := ss.foldr .union .empty

/-- The sets of ASCII characters that go by a name in brackets. -/
def ofName? : String → Option CharSet
  | "alnum" => some (unions [.range '0' '9', .range 'A' 'Z', .range 'a' 'z'])
  | "alpha" => some (unions [.range 'A' 'Z', .range 'a' 'z'])
  | "ascii" => some (.range '\x00' '\x7f')
  | "blank" => some (unions [single '\t', single ' '])
  | "cntrl" => some (unions [.range '\x00' '\x1f', single '\x7f'])
  | "digit" => some (.range '0' '9')
  | "graph" => some (.range '!' '~')
  | "lower" => some (.range 'a' 'z')
  | "print" => some (.range ' ' '~')
  | "punct" =>
    some (unions [.range '!' '/', .range ':' '@', .range '[' '\x60', .range '\x7b' '~'])
  | "space" => some (unions [.range '\t' '\r', single ' '])
  | "upper" => some (.range 'A' 'Z')
  | "word" => some (unions [.range '0' '9', .range 'A' 'Z', .range 'a' 'z', single '_'])
  | "xdigit" => some (unions [.range '0' '9', .range 'A' 'F', .range 'a' 'f'])
  | _ => none

end CharSet

namespace Pattern

/-- What an escape stands for. -/
inductive Escape where
  | literal (c : Char)
  | set (s : CharSet)
  | anchor (a : Anchor)

/-- The character that hexadecimal digits name. -/
def hexChar? (digits : List Char) : Option Char := do
  let values ← digits.mapM Text.hexValue?
  if values.isEmpty then none
  let n := values.foldl (fun n d => 16 * n + d) 0
  if n.isValidChar then some (Char.ofNat n) else none

/-- A character by its number: a fixed count of digits, or any count in braces. -/
def readHex (count : Nat) : List Char → Option (Char × List Char)
  | '\x7b' :: rest =>
    match rest.dropWhile (· ≠ '\x7d') with
    | [] => none
    | _ :: after => (hexChar? (rest.takeWhile (· ≠ '\x7d'))).map (·, after)
  | rest =>
    if rest.length < count then none
    else (hexChar? (rest.take count)).map (·, rest.drop count)

/-- What follows a backslash. Every punctuation mark of ASCII stands for itself. -/
def readEscape : List Char → Option (Escape × List Char)
  | [] => none
  | c :: rest =>
    match c with
    | 'd' => some (.set .digit, rest)
    | 'D' => some (.set (.complement .digit), rest)
    | 'w' => some (.set .word, rest)
    | 'W' => some (.set (.complement .word), rest)
    | 's' => some (.set .blank, rest)
    | 'S' => some (.set (.complement .blank), rest)
    | 'A' => some (.anchor .textStart, rest)
    | 'z' => some (.anchor .textEnd, rest)
    | 'b' => some (.anchor .wordEdge, rest)
    | 'B' => some (.anchor .noWordEdge, rest)
    | '<' => some (.anchor .wordStart, rest)
    | '>' => some (.anchor .wordEnd, rest)
    | 'a' => some (.literal '\x07', rest)
    | 'f' => some (.literal '\x0c', rest)
    | 't' => some (.literal '\t', rest)
    | 'n' => some (.literal '\n', rest)
    | 'r' => some (.literal '\r', rest)
    | 'v' => some (.literal '\x0b', rest)
    | 'x' => (readHex 2 rest).map fun (c, rest) => (.literal c, rest)
    | 'u' => (readHex 4 rest).map fun (c, rest) => (.literal c, rest)
    | 'U' => (readHex 8 rest).map fun (c, rest) => (.literal c, rest)
    | c => if c.toNat < 128 && !c.isAlphanum then some (.literal c, rest) else none

/-- An operator between sets. -/
inductive SetOperator where
  | inter | difference | symmetricDifference

/-- The set that an operator makes of two. -/
def SetOperator.apply : SetOperator → CharSet → CharSet → CharSet
  | inter, a, b => .inter a b
  | difference, a, b => .inter a (.complement b)
  | symmetricDifference, a, b =>
    .union (.inter a (.complement b)) (.inter b (.complement a))

/-- A bracket that is not closed yet. -/
structure OpenBracket where
  negated : Bool
  /-- The last operator, with what stands before it. -/
  left : Option (SetOperator × CharSet) := none
  /-- The union of what stands behind the last operator. -/
  items : CharSet := .empty

namespace OpenBracket

/-- A further set in the union. -/
def add (o : OpenBracket) (s : CharSet) : OpenBracket :=
  { o with items := .union o.items s }

/-- The set so far, before negation. -/
def value (o : OpenBracket) : CharSet :=
  match o.left with
  | none => o.items
  | some (op, a) => op.apply a o.items

/-- An operator behind all that stands so far. -/
def behind (o : OpenBracket) (op : SetOperator) : OpenBracket :=
  { o with left := some (op, o.value), items := .empty }

/-- The set of the closed bracket. -/
def set (o : OpenBracket) : CharSet :=
  if o.negated then .complement o.value else o.value

/-- The start of a bracket: a caret negates it, hyphens stand for themselves, and so does a closing
bracket that comes first. -/
def read (cs : List Char) : OpenBracket × List Char :=
  let (negated, cs) := match cs with
    | '^' :: rest => (true, rest)
    | _ => (false, cs)
  match cs with
  | '-' :: rest =>
    (({ negated } : OpenBracket).add (.single '-'), rest.dropWhile (· = '-'))
  | ']' :: rest => (({ negated } : OpenBracket).add (.single ']'), rest)
  | _ => ({ negated }, cs)

end OpenBracket

/-- A named set, behind its opening bracket. -/
def readNamedSet : List Char → Option (CharSet × List Char)
  | ':' :: cs =>
    let (negated, cs) := match cs with
      | '^' :: rest => (true, rest)
      | _ => (false, cs)
    match cs.dropWhile Char.isAlpha with
    | ':' :: ']' :: rest =>
      (CharSet.ofName? (String.ofList (cs.takeWhile Char.isAlpha))).map fun s =>
        (if negated then .complement s else s, rest)
    | _ => none
  | _ => none

/-- A character or an escape inside brackets. -/
def readMember : List Char → Option (Escape × List Char)
  | [] => none
  | '\\' :: rest => readEscape rest
  | c :: rest => some (.literal c, rest)

/-- The set of one member. -/
def Escape.set? : Escape → Option CharSet
  | .literal c => some (.single c)
  | .set s => some s
  | .anchor _ => none

/-- A member inside brackets, or a range from one character to another. -/
def readRange (cs : List Char) : Option (CharSet × List Char) := do
  let (first, rest) ← readMember cs
  match rest with
  | [] => none
  | '-' :: ']' :: _ | '-' :: '-' :: _ => first.set?.map (·, rest)
  | '-' :: rest =>
    let (last, rest) ← readMember rest
    match first, last with
    | .literal a, .literal b => if a ≤ b then some (.range a b, rest) else none
    | _, _ => none
  | _ => first.set?.map (·, rest)

/-- The set of a bracket from inside it, with the open brackets innermost first. Every round takes
a character, which bounds their number. -/
def readBrackets : Nat → List OpenBracket → List Char → Option (CharSet × List Char)
  | 0, _, _ => none
  | _, [], _ => none
  | n + 1, top :: outer, cs =>
    match cs with
    | [] => none
    | '[' :: rest =>
      match readNamedSet rest with
      | some (s, rest) => readBrackets n (top.add s :: outer) rest
      | none => readBrackets n ((OpenBracket.read rest).1 :: top :: outer) (OpenBracket.read rest).2
    | ']' :: rest =>
      match outer with
      | [] => some (top.set, rest)
      | next :: outer => readBrackets n (next.add top.set :: outer) rest
    | '&' :: '&' :: rest => readBrackets n (top.behind .inter :: outer) rest
    | '-' :: '-' :: rest => readBrackets n (top.behind .difference :: outer) rest
    | '~' :: '~' :: rest => readBrackets n (top.behind .symmetricDifference :: outer) rest
    | _ => (readRange cs).bind fun (s, rest) => readBrackets n (top.add s :: outer) rest

/-- A bracketed set, behind its opening bracket. -/
def readBracket (cs : List Char) : Option (CharSet × List Char) :=
  let start := OpenBracket.read cs
  readBrackets (cs.length + 1) [start.1] start.2

end Pattern

end HeaderReflection
