import HeaderReflection.Text.CharClass

/-!
# Gaps between tokens

Blanks, comments and preprocessor directives make up the gaps between tokens. A directive starts at
a number sign with only blanks before it on its line, and runs to the first line end that no
backslash continues.

* `append_splitGap`: a gap and the text behind it make up the text.
* `length_gapPiece_lt`: each piece of a gap is shorter than what it is taken from by at least one
  character.
-/

namespace HeaderReflection.Token

open Text (isAsciiBlank isBlank)

/-- The rest of a comment up to its line end. -/
def splitLineComment (cs : List Char) : List Char × List Char :=
  (cs.takeWhile (· ≠ '\n'), cs.dropWhile (· ≠ '\n'))

/-- The rest of a block comment through its closing mark, or all of an unclosed one. -/
def splitBlockComment : List Char → List Char × List Char
  | [] => ([], [])
  | '*' :: '/' :: rest => (['*', '/'], rest)
  | c :: rest =>
    let r := splitBlockComment rest
    (c :: r.1, r.2)

/-- The rest of a directive up to the line end that no backslash continues. -/
def splitDirective : List Char → List Char × List Char
  | [] => ([], [])
  | '\\' :: '\n' :: rest =>
    let r := splitDirective rest
    ('\\' :: '\n' :: r.1, r.2)
  | '\\' :: '\x0d' :: '\n' :: rest =>
    let r := splitDirective rest
    ('\\' :: '\x0d' :: '\n' :: r.1, r.2)
  | c :: rest =>
    if c = '\n' then ([], c :: rest)
    else
      let r := splitDirective rest
      (c :: r.1, r.2)

/-- Only blanks stand between the last line end and the end of a text, given whether that was so
before the text. -/
def atLineStart (before : Bool) (cs : List Char) : Bool :=
  cs.foldl (fun b c => c = '\n' || (b && isBlank c)) before

/-- The first piece of a gap, if the text starts with one: a blank, a comment or, at the start of a
line, a directive. -/
def gapPiece? (lineStart : Bool) : List Char → Option (List Char × List Char)
  | [] => none
  | '/' :: '/' :: rest =>
    let r := splitLineComment rest
    some ('/' :: '/' :: r.1, r.2)
  | '/' :: '*' :: rest =>
    let r := splitBlockComment rest
    some ('/' :: '*' :: r.1, r.2)
  | c :: rest =>
    if isAsciiBlank c then some ([c], rest)
    else if c = '#' && lineStart then
      let r := splitDirective rest
      some (c :: r.1, r.2)
    else none

theorem append_splitLineComment (cs : List Char) :
    (splitLineComment cs).1 ++ (splitLineComment cs).2 = cs :=
  List.takeWhile_append_dropWhile

theorem append_splitBlockComment (cs : List Char) :
    (splitBlockComment cs).1 ++ (splitBlockComment cs).2 = cs := by
  fun_induction splitBlockComment cs <;> simp_all +zetaDelta

theorem append_splitDirective (cs : List Char) :
    (splitDirective cs).1 ++ (splitDirective cs).2 = cs := by
  fun_induction splitDirective cs <;> simp_all +zetaDelta

theorem append_gapPiece {lineStart : Bool} {cs piece rest : List Char}
    (h : gapPiece? lineStart cs = some (piece, rest)) : piece ++ rest = cs := by
  unfold gapPiece? at h
  split at h
  · simp at h
  · obtain ⟨rfl, rfl⟩ := Prod.mk.inj (Option.some.inj h)
    simp [append_splitLineComment]
  · obtain ⟨rfl, rfl⟩ := Prod.mk.inj (Option.some.inj h)
    simp [append_splitBlockComment]
  · split at h
    · obtain ⟨rfl, rfl⟩ := Prod.mk.inj (Option.some.inj h)
      rfl
    · split at h
      · obtain ⟨rfl, rfl⟩ := Prod.mk.inj (Option.some.inj h)
        simp [append_splitDirective]
      · simp at h

theorem gapPiece_ne_nil {lineStart : Bool} {cs piece rest : List Char}
    (h : gapPiece? lineStart cs = some (piece, rest)) : piece ≠ [] := by
  unfold gapPiece? at h
  split at h
  · simp at h
  · obtain ⟨rfl, rfl⟩ := Prod.mk.inj (Option.some.inj h); simp
  · obtain ⟨rfl, rfl⟩ := Prod.mk.inj (Option.some.inj h); simp
  · split at h
    · obtain ⟨rfl, rfl⟩ := Prod.mk.inj (Option.some.inj h); simp
    · split at h
      · obtain ⟨rfl, rfl⟩ := Prod.mk.inj (Option.some.inj h); simp
      · simp at h

theorem length_gapPiece_lt {lineStart : Bool} {cs piece rest : List Char}
    (h : gapPiece? lineStart cs = some (piece, rest)) : rest.length < cs.length := by
  have hl := congrArg List.length (append_gapPiece h)
  have hp := List.length_pos_iff.2 (gapPiece_ne_nil h)
  simp only [List.length_append] at hl
  omega

/-- The gap at the start of a text, and what follows it. -/
def splitGap (lineStart : Bool) (cs : List Char) : List Char × List Char :=
  match _h : gapPiece? lineStart cs with
  | none => ([], cs)
  | some (piece, rest) =>
    let (more, tail) := splitGap (atLineStart lineStart piece) rest
    (piece ++ more, tail)
termination_by cs.length
decreasing_by exact length_gapPiece_lt _h

theorem splitGap_of_none {lineStart : Bool} {cs : List Char}
    (h : gapPiece? lineStart cs = none) : splitGap lineStart cs = ([], cs) := by
  rw [splitGap]
  split
  · rfl
  · simp_all

theorem splitGap_of_some {lineStart : Bool} {cs piece rest : List Char}
    (h : gapPiece? lineStart cs = some (piece, rest)) :
    splitGap lineStart cs =
      (piece ++ (splitGap (atLineStart lineStart piece) rest).1,
        (splitGap (atLineStart lineStart piece) rest).2) := by
  rw [splitGap]
  split
  · simp_all
  · rename_i h'
    obtain ⟨rfl, rfl⟩ := Prod.mk.inj (Option.some.inj (h.symm.trans h'))
    rfl

theorem append_splitGap (lineStart : Bool) (cs : List Char) :
    (splitGap lineStart cs).1 ++ (splitGap lineStart cs).2 = cs := by
  fun_induction splitGap lineStart cs with
  | case1 => simp
  | case2 lineStart cs piece rest h more tail hs ih =>
    simp only [hs] at ih
    rw [List.append_assoc, ih, append_gapPiece h]

end HeaderReflection.Token
