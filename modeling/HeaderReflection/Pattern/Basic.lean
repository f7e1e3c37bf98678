import HeaderReflection.Text.Case

/-!
# Patterns

Regular expressions and the places of a text that they match. A pattern takes a set of starting
places to the set of places where a match that starts there can end, so matching needs no
backtracking and every pattern terminates.
-/

namespace HeaderReflection

/-- A set of characters. -/
inductive CharSet where
  /-- The characters between two, both included. -/
  | range (first last : Char)
  | digit
  | word
  | blank
  | complement (s : CharSet)
  | union (a b : CharSet)
  | inter (a b : CharSet)
  | empty
  deriving Repr

namespace CharSet

/-- The character is in the set, or one that differs in case alone if case is ignored. -/
def mem (ignoreCase : Bool) : CharSet → Char → Bool
  | .range first last, c =>
    (if ignoreCase then Text.caseForms c else [c]).any fun d => first ≤ d && d ≤ last
  | .digit, c => Text.isDecimalDigit c
  | .word, c => Text.isPatternWord c
  | .blank, c => Text.isBlank c
  | .complement s, c => !s.mem ignoreCase c
  | .union a b, c => a.mem ignoreCase c || b.mem ignoreCase c
  | .inter a b, c => a.mem ignoreCase c && b.mem ignoreCase c
  | .empty, _ => false

end CharSet

/-- A place in a text that a pattern can ask for. -/
inductive Anchor where
  | textStart | textEnd | lineStart | lineEnd | wordEdge | noWordEdge | wordStart | wordEnd
  deriving DecidableEq, Repr

/-- A regular expression. -/
inductive Pattern where
  | empty
  | char (ignoreCase : Bool) (s : CharSet)
  | anchor (a : Anchor)
  | seq (a b : Pattern)
  | alt (a b : Pattern)
  /-- At least `least` times, and at most `most` times if that is given. -/
  | repeat (least : Nat) (most : Option Nat) (p : Pattern)
  deriving Repr

namespace Pattern

/-- The anchor holds before the character at a place. -/
def anchorHolds (cs : Array Char) (place : Nat) : Anchor → Bool
  | .textStart => place = 0
  | .textEnd => place = cs.size
  | .lineStart => place = 0 || cs[place - 1]? = some '\n'
  | .lineEnd => place = cs.size || cs[place]? = some '\n'
  | .wordEdge => wordBefore != wordAfter
  | .noWordEdge => wordBefore == wordAfter
  | .wordStart => !wordBefore && wordAfter
  | .wordEnd => wordBefore && !wordAfter
where
  wordBefore : Bool := place ≠ 0 && cs[place - 1]?.any Text.isPatternWord
  wordAfter : Bool := cs[place]?.any Text.isPatternWord

/-- The places reached from a set by up to `n` more rounds of a step. -/
def close (step : List Nat → List Nat) : Nat → List Nat → List Nat
  | 0, places => places
  | n + 1, places =>
    let more := (step places).filter fun p => !places.contains p
    if more.isEmpty then places else close step n (places ++ more)

/-- The places where matches that start at the given places can end. -/
def ends (cs : Array Char) : Pattern → List Nat → List Nat
  | .empty, places => places
  | .char ignoreCase s, places =>
    places.filterMap fun p =>
      if cs[p]?.any (s.mem ignoreCase) then some (p + 1) else none
  | .anchor a, places => places.filter fun p => anchorHolds cs p a
  | .seq a b, places => b.ends cs (a.ends cs places)
  | .alt a b, places => (a.ends cs places ++ b.ends cs places).eraseDups
  | .repeat least most p, places =>
    let start := Nat.repeat (p.ends cs) least places
    match most with
    | none => close (p.ends cs) (cs.size + 1) start
    | some n => close (p.ends cs) (n - least) start

/-- The pattern matches somewhere in the text. -/
def matchesIn (p : Pattern) (text : String) : Bool :=
  let cs := text.toList.toArray
  !(p.ends cs (List.range (cs.size + 1))).isEmpty

end Pattern

end HeaderReflection
