import HeaderReflection.Text.ClassTable

/-!
# Character classes

The classes that the lexer, the attribute grammar and the pattern language ask for. Each is stated
outright on ASCII and by the property table above it, so a proof about an ASCII character never
meets a table.

* `isBlank_of_isAsciiBlank`: what the lexer skips as white space is white space.
* `isWordChar_of_isWordStart`: what starts a word continues one.
-/

namespace HeaderReflection.Text

/-! ## Quantifiers over the characters of a text

A statement about the characters of a list is decided along the list, never along all characters. -/

section Decidable

variable {p : Char → Prop} [DecidablePred p]

instance (priority := high) decidableForallMem (cs : List Char) : Decidable (∀ c ∈ cs, p c) :=
  List.decidableBAll p cs

instance (priority := high) decidableExistsMem (cs : List Char) : Decidable (∃ c ∈ cs, p c) :=
  List.decidableBEx p cs

instance (priority := high) decidableForallMemOption (c? : Option Char) :
    Decidable (∀ c ∈ c?, p c) :=
  Option.decidableForallMem c?

end Decidable

/-! ## Classes -/

/-- A character lies in one of the closed ranges. -/
def inRanges (table : List (Nat × Nat)) (c : Char) : Bool :=
  table.any fun (first, last) => first ≤ c.toNat && c.toNat ≤ last

/-- ASCII letters. -/
def isAsciiLetter (c : Char) : Bool :=
  ('a' ≤ c && c ≤ 'z') || ('A' ≤ c && c ≤ 'Z')

/-- ASCII digits. -/
def isAsciiDigit (c : Char) : Bool :=
  '0' ≤ c && c ≤ '9'

/-- ASCII letters and digits. -/
def isAsciiAlphanumeric (c : Char) : Bool :=
  isAsciiLetter c || isAsciiDigit c

/-- The ASCII blanks between tokens: space, tab, line feed, form feed and carriage return. -/
def isAsciiBlank (c : Char) : Bool :=
  c == ' ' || c == '\t' || c == '\n' || c == '\x0c' || c == '\x0d'

/-- The value of a hexadecimal digit. -/
def hexValue? (c : Char) : Option Nat :=
  if '0' ≤ c && c ≤ '9' then some (c.toNat - '0'.toNat)
  else if 'a' ≤ c && c ≤ 'f' then some (c.toNat - 'a'.toNat + 10)
  else if 'A' ≤ c && c ≤ 'F' then some (c.toNat - 'A'.toNat + 10)
  else none

/-- The property White_Space. On ASCII it also holds the vertical tab. -/
def isBlank (c : Char) : Bool :=
  if c.toNat < 128 then isAsciiBlank c || c == '\x0b' else inRanges ClassTable.whiteSpace c

/-- The property Alphabetic. -/
def isAlphabetic (c : Char) : Bool :=
  if c.toNat < 128 then isAsciiLetter c else inRanges ClassTable.alphabetic c

/-- Characters of a numeric general category. -/
def isNumeric (c : Char) : Bool :=
  if c.toNat < 128 then isAsciiDigit c else inRanges ClassTable.numeric c

/-- Alphabetic or numeric characters. -/
def isAlphanumeric (c : Char) : Bool :=
  isAlphabetic c || isNumeric c

/-- Decimal digits of any script. -/
def isDecimalDigit (c : Char) : Bool :=
  if c.toNat < 128 then isAsciiDigit c else inRanges ClassTable.decimalDigit c

/-- The word characters of patterns: letters, marks, decimal digits, connectors and joiners. -/
def isPatternWord (c : Char) : Bool :=
  if c.toNat < 128 then isAsciiAlphanumeric c || c == '_'
  else inRanges ClassTable.alphabetic c || inRanges ClassTable.wordMark c

/-- What may start an identifier. -/
def isWordStart (c : Char) : Bool :=
  isAlphabetic c || c == '_'

/-- What may continue an identifier. -/
def isWordChar (c : Char) : Bool :=
  isAlphanumeric c || c == '_'

theorem isBlank_of_isAsciiBlank {c : Char} (h : isAsciiBlank c = true) : isBlank c = true := by
  have : c.toNat < 128 := by
    simp only [isAsciiBlank, Bool.or_eq_true, beq_iff_eq] at h
    rcases h with (((rfl | rfl) | rfl) | rfl) | rfl <;> decide
  simp [isBlank, this, h]

theorem isWordChar_of_isWordStart {c : Char} (h : isWordStart c = true) : isWordChar c = true := by
  simp only [isWordStart, isWordChar, isAlphanumeric, Bool.or_eq_true] at *
  exact h.imp_left Or.inl

/-- A text without the blanks at its two ends. -/
def trimBlanks (cs : List Char) : List Char :=
  ((cs.dropWhile isBlank).reverse.dropWhile isBlank).reverse

/-- A string without the blanks at its two ends. -/
def trim (s : String) : String :=
  String.ofList (trimBlanks s.toList)

/-- A nonempty run of ASCII letters, digits and underscores that starts with no digit. -/
def isAsciiIdentifier (s : String) : Bool :=
  match s.toList with
  | [] => false
  | c :: rest =>
    (isAsciiLetter c || c == '_') && rest.all fun d => isAsciiAlphanumeric d || d == '_'

end HeaderReflection.Text
