import HeaderReflection.Pattern.CharSets

/-!
# Reading patterns

The written form of a pattern: literals, points, sets, anchors, groups, alternatives, repetitions
and flags. The reader keeps the groups that are open and takes one piece of the text at a time.
-/

namespace HeaderReflection.Pattern

/-- What the flags say at a place of a pattern. -/
structure Flags where
  ignoreCase : Bool := false
  /-- A caret and a dollar sign stand for the ends of a line. -/
  byLine : Bool := false
  /-- A point stands for a line end, too. -/
  pointTakesAll : Bool := false

/-- The flags with one of them switched. Which of several matches is preferred has no effect on
whether there is one. -/
def Flags.switch (f : Flags) (on : Bool) : Char → Option Flags
  | 'i' => some { f with ignoreCase := on }
  | 'm' => some { f with byLine := on }
  | 's' => some { f with pointTakesAll := on }
  | 'U' => some f
  | 'u' => if on then some f else none
  | _ => none

/-- The flags up to a colon or a closing parenthesis, which is told. No flag stands twice, and a
minus sign, behind which flags are switched off, is not the last. -/
def readFlags (on : Bool) (seen : List Char) (f : Flags) :
    List Char → Option (Flags × Char × List Char)
  | [] => none
  | c :: rest =>
    if c = ':' || c = ')' then
      if seen.head? = some '-' || (c = ')' && seen.isEmpty) then none else some (f, c, rest)
    else if seen.contains c then none
    else if c = '-' then readFlags false (c :: seen) f rest
    else (f.switch on c).bind fun f => readFlags on (c :: seen) f rest

/-- What an opening parenthesis begins. -/
inductive Opening where
  | group (f : Flags) (name : Option (List Char))
  | flags (f : Flags)

/-- The text can name a group. -/
def isGroupName : List Char → Bool
  | [] => false
  | c :: rest =>
    (c = '_' || Text.isAlphabetic c)
      && rest.all fun c => c = '_' || c = '.' || c = '[' || c = ']' || Text.isAlphanumeric c

/-- What stands behind an opening parenthesis. -/
def readOpening (f : Flags) : List Char → Option (Opening × List Char)
  | '?' :: 'P' :: '<' :: rest | '?' :: '<' :: rest =>
    match rest.dropWhile (· ≠ '>') with
    | [] => none
    | _ :: after =>
      let name := rest.takeWhile (· ≠ '>')
      if isGroupName name then some (.group f (some name), after) else none
  | '?' :: rest =>
    (readFlags true [] f rest).map fun (g, c, rest) =>
      (if c = ':' then .group g none else .flags g, rest)
  | rest => some (.group f none, rest)

/-- The greatest count that can be written. -/
def countLimit : Nat := 4294967295

/-- A count with blanks around it. -/
def readCount (cs : List Char) : Option (Nat × List Char) :=
  let cs := cs.dropWhile Text.isBlank
  let digits := cs.takeWhile Char.isDigit
  let n := digits.foldl (fun n d => 10 * n + (d.toNat - '0'.toNat)) 0
  if digits.isEmpty || n > countLimit then none
  else some (n, (cs.dropWhile Char.isDigit).dropWhile Text.isBlank)

/-- The least and the greatest number of rounds, behind an opening brace. -/
def readCounts (cs : List Char) : Option (Nat × Option Nat × List Char) := do
  let (least, rest) ← readCount cs
  match rest with
  | '\x7d' :: rest => some (least, some least, rest)
  | ',' :: '\x7d' :: rest => some (least, none, rest)
  | ',' :: rest =>
    let (most, rest) ← readCount rest
    match rest with
    | '\x7d' :: rest => if least ≤ most then some (least, some most, rest) else none
    | _ => none
  | _ => none

/-- A group that is not closed yet. -/
structure OpenGroup where
  /-- The finished alternatives, the last one first. -/
  done : List Pattern := []
  /-- The pieces of the current alternative, the last one first. A change of flags is a piece that
  cannot be repeated. -/
  pieces : List (Option Pattern) := []

/-- The pieces one after another. -/
def ofPieces (pieces : List (Option Pattern)) : Pattern :=
  pieces.foldl (fun p piece => match piece with
    | none => p
    | some q => .seq q p) .empty

/-- The alternatives of a group. -/
def OpenGroup.pattern (g : OpenGroup) : Pattern :=
  g.done.foldl (fun p q => .alt q p) (ofPieces g.pieces)

/-- What has been read of a pattern. -/
structure Reader where
  flags : Flags := {}
  group : OpenGroup := {}
  /-- The enclosing groups, innermost first, each with the flags to go back to. -/
  outer : List (OpenGroup × Flags) := []
  names : List (List Char) := []

namespace Reader

/-- A further piece. -/
def push (s : Reader) (p : Pattern) : Reader :=
  { s with group := { s.group with pieces := some p :: s.group.pieces } }

/-- A further piece for one character. -/
def pushSet (s : Reader) (set : CharSet) : Reader :=
  s.push (.char s.flags.ignoreCase set)

/-- The last piece repeated. A question mark behind the repetition belongs to it. -/
def repeated (s : Reader) (least : Nat) (most : Option Nat) (rest : List Char) :
    Option (Reader × List Char) :=
  match s.group.pieces with
  | some p :: pieces =>
    let rest := match rest with
      | '?' :: rest => rest
      | _ => rest
    some ({ s with group := { s.group with pieces := some (.repeat least most p) :: pieces } },
      rest)
  | _ => none

/-- The piece at an opening parenthesis. -/
def opened (s : Reader) (rest : List Char) : Option (Reader × List Char) :=
  match readOpening s.flags rest with
  | none => none
  | some (.flags f, rest) =>
    some ({ s with flags := f, group := { s.group with pieces := none :: s.group.pieces } }, rest)
  | some (.group f name, rest) =>
    if name.any s.names.contains then none
    else
      some ({ s with flags := f, group := {}, outer := (s.group, s.flags) :: s.outer,
                     names := name.toList ++ s.names }, rest)

/-- The piece at a closing parenthesis. -/
def closed (s : Reader) : Option Reader :=
  match s.outer with
  | [] => none
  | (g, f) :: outer => some ({ s with flags := f, group := g, outer }.push s.group.pattern)

/-- The piece that starts with a character. -/
def step (s : Reader) (c : Char) (rest : List Char) : Option (Reader × List Char) :=
  match c with
  | '(' => s.opened rest
  | ')' => s.closed.map (·, rest)
  | '|' => some ({ s with group := ⟨ofPieces s.group.pieces :: s.group.done, []⟩ }, rest)
  | '*' => s.repeated 0 none rest
  | '+' => s.repeated 1 none rest
  | '?' => s.repeated 0 (some 1) rest
  | '\x7b' => (readCounts rest).bind fun (least, most, rest) => s.repeated least most rest
  | '[' => (readBracket rest).map fun (set, rest) => (s.pushSet set, rest)
  | '.' =>
    some (s.pushSet (.complement (if s.flags.pointTakesAll then .empty else .single '\n')), rest)
  | '^' => some (s.push (.anchor (if s.flags.byLine then .lineStart else .textStart)), rest)
  | '$' => some (s.push (.anchor (if s.flags.byLine then .lineEnd else .textEnd)), rest)
  | '\\' =>
    (readEscape rest).map fun
      | (.literal c, rest) => (s.pushSet (.single c), rest)
      | (.set set, rest) => (s.pushSet set, rest)
      | (.anchor a, rest) => (s.push (.anchor a), rest)
  | c => some (s.pushSet (.single c), rest)

/-- The pattern of a text. Every round takes a character, which bounds their number. -/
def finish : Nat → Reader → List Char → Option Pattern
  | _, s, [] => if s.outer.isEmpty then some s.group.pattern else none
  | 0, _, _ :: _ => none
  | n + 1, s, c :: rest => (s.step c rest).bind fun (s, rest) => finish n s rest

end Reader

/-- How many single steps a pattern takes when its counted repetitions are written out. -/
def weight : Pattern → Nat
  | .empty => 0
  | .char _ _ => 1
  | .anchor _ => 1
  | .seq a b => a.weight + b.weight
  | .alt a b => a.weight + b.weight + 1
  | .repeat least most p => max least (most.getD 1) * max 1 p.weight + 1

/-- The greatest weight of a pattern. -/
def weightLimit : Nat := 327680

/-- The pattern of a text, if the text is well formed and the pattern is not too large. -/
def parse (text : String) : Option Pattern :=
  (Reader.finish text.length {} text.toList).filter fun p => p.weight ≤ weightLimit

end HeaderReflection.Pattern
