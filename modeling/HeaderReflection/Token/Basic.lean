import HeaderReflection.Text.Position
import HeaderReflection.Token.Gap
import HeaderReflection.Token.Lexeme

/-!
# Tokens

A text falls into tokens with gaps between them. Every token keeps the gap before it, so a stretch
of tokens spells a stretch of the text.

* `lexFrom_eq_nil_iff`: a text without tokens is one gap.
-/

namespace HeaderReflection

open Text (Position byteLength)

/-- A token of a text, with the gap between the token before it and itself. -/
structure Token where
  kind : Token.Kind
  text : String
  gap : String
  /-- The number of bytes before the token. -/
  offset : Nat
  position : Position
  deriving DecidableEq, Repr

namespace Token

/-- A place in a text between two lexemes. -/
structure Cursor where
  offset : Nat
  position : Position
  /-- Only blanks stand before this place on its line. -/
  lineStart : Bool
  deriving DecidableEq, Repr

/-- The start of a text. -/
def Cursor.start : Cursor := ⟨0, .start, true⟩

/-- The place behind a stretch of text. -/
def Cursor.past (k : Cursor) (cs : List Char) : Cursor :=
  ⟨k.offset + byteLength cs, k.position.past cs, atLineStart k.lineStart cs⟩

/-- The tokens of the text behind a place. -/
def lexFrom (k : Cursor) (cs : List Char) : List Token :=
  let g := splitGap k.lineStart cs
  match _h : g.2 with
  | [] => []
  | c :: rest =>
    let start := k.past g.1
    let l := splitLexeme c rest
    { kind := l.1, text := String.ofList l.2.1, gap := String.ofList g.1
      offset := start.offset, position := start.position }
      :: lexFrom (start.past l.2.1) l.2.2
termination_by cs.length
decreasing_by
  have hg := congrArg List.length (append_splitGap k.lineStart cs)
  have hl := length_splitLexeme_le c rest
  simp only [g, _h, List.length_append, List.length_cons] at *
  omega

/-- The tokens of a text. -/
def lex (source : String) : List Token :=
  lexFrom .start source.toList

/-- The number of bytes before the end of a token. -/
def stop (t : Token) : Nat :=
  t.offset + t.text.utf8ByteSize

/-- The token is this punctuation. -/
def isPunctuation (t : Token) (p : String) : Bool :=
  t.kind = .punctuation && t.text = p

/-- The stretch of text that tokens and the gaps before them take up. -/
def spell (ts : List Token) : String :=
  String.join (ts.map fun t => t.gap ++ t.text)

/-- The stretch of text from the start of the first token to the end of the last. -/
def spellTight : List Token → String
  | [] => ""
  | t :: rest => t.text ++ spell rest

theorem lexFrom_eq_nil_iff (k : Cursor) (cs : List Char) :
    lexFrom k cs = [] ↔ (splitGap k.lineStart cs).2 = [] := by
  rw [lexFrom]
  dsimp only
  split <;> rename_i h <;> simp [h]

end Token

end HeaderReflection
