import HeaderReflection.Text.CharClass

/-!
# Lexemes

How far a token reaches: words, numbers, quoted texts, raw strings, the scope mark and single
punctuation characters.

* `append_splitLexeme`: a lexeme and the text behind it make up the text.
-/

namespace HeaderReflection.Token

open Text (isAsciiDigit isAsciiAlphanumeric isWordStart isWordChar)

/-- The kinds of tokens. -/
inductive Kind where
  | identifier | number | string | character
  /-- One character, or the scope mark of two. -/
  | punctuation
  deriving DecidableEq, Repr

/-- A quote, as the character that ends a quoted text. -/
def doubleQuote : Char := '\x22'

/-- The quote of character literals. -/
def singleQuote : Char := '\x27'

/-- The rest of a quoted text through its closing quote. A backslash keeps the character after it;
an unclosed text ends before its line end. -/
def splitQuoted (quote : Char) : List Char → List Char × List Char
  | [] => ([], [])
  | '\\' :: [] => (['\\'], [])
  | '\\' :: c :: rest =>
    let r := splitQuoted quote rest
    ('\\' :: c :: r.1, r.2)
  | c :: rest =>
    if c = '\n' then ([], c :: rest)
    else if c = quote then ([c], rest)
    else
      let r := splitQuoted quote rest
      (c :: r.1, r.2)

/-- A text cut behind the first occurrence of a pattern. -/
def splitBehind? (pattern : List Char) : List Char → Option (List Char × List Char)
  | [] => if pattern = [] then some ([], []) else none
  | c :: rest =>
    if pattern.isPrefixOf (c :: rest) then some (pattern, (c :: rest).drop pattern.length)
    else (splitBehind? pattern rest).map fun (before, after) => (c :: before, after)

/-- The rest of a raw string behind its opening quote. Its delimiter stands before the first
parenthesis, and it ends behind a closing parenthesis, the delimiter and a quote; an unclosed one
takes the whole text. -/
def splitRawString (cs : List Char) : List Char × List Char :=
  let delimiter := cs.takeWhile (· ≠ '(')
  let body := cs.dropWhile (· ≠ '(')
  match splitBehind? (')' :: delimiter ++ [doubleQuote]) body with
  | some (inside, rest) => (delimiter ++ inside, rest)
  | none => (cs, [])

/-- The rest of a number behind a character of it. A sign continues it behind an exponent letter. -/
def splitNumber (previous : Char) : List Char → List Char × List Char
  | [] => ([], [])
  | c :: rest =>
    if isAsciiAlphanumeric c || c = '.' || c = singleQuote
        || ((c = '+' || c = '-') && ['e', 'E', 'p', 'P'].contains previous) then
      let r := splitNumber c rest
      (c :: r.1, r.2)
    else ([], c :: rest)

/-- The words that make a quote behind them open a raw string. -/
def rawStringMarks : List (List Char) :=
  [['R'], ['L', 'R'], ['u', 'R'], ['U', 'R'], ['u', '8', 'R']]

/-- The words that make a quote behind them open a string of an encoding. -/
def encodingMarks : List (List Char) :=
  [['L'], ['u'], ['U'], ['u', '8']]

/-- A lexeme that starts with a word: the word, or the string that it marks. -/
def splitWord (word rest : List Char) : Kind × List Char × List Char :=
  match rest with
  | [] => (.identifier, word, rest)
  | c :: after =>
    if c = doubleQuote && rawStringMarks.contains word then
      let r := splitRawString after
      (.string, word ++ c :: r.1, r.2)
    else if c = doubleQuote && encodingMarks.contains word then
      let r := splitQuoted doubleQuote after
      (.string, word ++ c :: r.1, r.2)
    else (.identifier, word, rest)

/-- The lexeme that starts with a given character: its kind, its text, and what follows it. -/
def splitLexeme (c : Char) (rest : List Char) : Kind × List Char × List Char :=
  if isWordStart c then splitWord (c :: rest.takeWhile isWordChar) (rest.dropWhile isWordChar)
  else if isAsciiDigit c || (c = '.' && rest.head?.any isAsciiDigit) then
    let r := splitNumber c rest
    (.number, c :: r.1, r.2)
  else if c = doubleQuote then
    let r := splitQuoted c rest
    (.string, c :: r.1, r.2)
  else if c = singleQuote then
    let r := splitQuoted c rest
    (.character, c :: r.1, r.2)
  else if c = ':' && rest.head? = some ':' then (.punctuation, [c, ':'], rest.tail)
  else (.punctuation, [c], rest)

theorem append_splitQuoted (quote : Char) (cs : List Char) :
    (splitQuoted quote cs).1 ++ (splitQuoted quote cs).2 = cs := by
  fun_induction splitQuoted quote cs <;> simp_all +zetaDelta

theorem append_splitBehind {pattern cs before after : List Char}
    (h : splitBehind? pattern cs = some (before, after)) : before ++ after = cs := by
  induction cs generalizing before with
  | nil =>
    simp only [splitBehind?] at h
    split at h <;> simp_all
  | cons c rest ih =>
    simp only [splitBehind?] at h
    split at h
    · rename_i hp
      obtain ⟨rfl, rfl⟩ := Prod.mk.inj (Option.some.inj h)
      obtain ⟨tail, ht⟩ := List.isPrefixOf_iff_prefix.1 hp
      rw [← ht]
      simp
    · simp only [Option.map_eq_some_iff, Prod.mk.injEq, Prod.exists] at h
      obtain ⟨b, a, hba, rfl, rfl⟩ := h
      simp [ih hba]

theorem append_splitRawString (cs : List Char) :
    (splitRawString cs).1 ++ (splitRawString cs).2 = cs := by
  simp only [splitRawString]
  split
  · rename_i h
    rw [List.append_assoc, append_splitBehind h, List.takeWhile_append_dropWhile]
  · simp

theorem append_splitNumber (previous : Char) (cs : List Char) :
    (splitNumber previous cs).1 ++ (splitNumber previous cs).2 = cs := by
  fun_induction splitNumber previous cs <;> simp_all +zetaDelta

theorem append_splitWord (word rest : List Char) :
    (splitWord word rest).2.1 ++ (splitWord word rest).2.2 = word ++ rest := by
  unfold splitWord
  split
  · rfl
  · split
    · simp [append_splitRawString]
    · split
      · simp [append_splitQuoted]
      · rfl

theorem append_splitLexeme (c : Char) (rest : List Char) :
    (splitLexeme c rest).2.1 ++ (splitLexeme c rest).2.2 = c :: rest := by
  unfold splitLexeme
  split
  · simp [append_splitWord, List.takeWhile_append_dropWhile]
  · split
    · simp [append_splitNumber]
    · split
      · simp [append_splitQuoted]
      · split
        · simp [append_splitQuoted]
        · split
          · rename_i h
            cases rest <;> simp_all
          · rfl

theorem splitWord_ne_nil {word rest : List Char} (h : word ≠ []) :
    (splitWord word rest).2.1 ≠ [] := by
  unfold splitWord
  split
  · exact h
  · split
    · simp
    · split
      · simp
      · exact h

theorem splitLexeme_ne_nil (c : Char) (rest : List Char) : (splitLexeme c rest).2.1 ≠ [] := by
  unfold splitLexeme
  split
  · exact splitWord_ne_nil (by simp)
  · split
    · simp
    · split
      · simp
      · split
        · simp
        · split <;> simp

theorem length_splitLexeme_le (c : Char) (rest : List Char) :
    (splitLexeme c rest).2.2.length ≤ rest.length := by
  have hl := congrArg List.length (append_splitLexeme c rest)
  have hp := List.length_pos_iff.2 (splitLexeme_ne_nil c rest)
  simp only [List.length_append, List.length_cons] at hl
  omega

end HeaderReflection.Token
