import HeaderReflection.Declaration.Brackets
import HeaderReflection.Declaration.TypeRef
import HeaderReflection.Text.CharClass
import HeaderReflection.Token.Basic

/-!
# Reading types

A type is read off the tokens of a declaration from left to right. Words make up its name, marks
set its decorations, angle brackets hold its arguments, and all else is passed over.
-/

namespace HeaderReflection

open Text (isWordStart isAsciiAlphanumeric)

namespace Declaration

/-- The tokens of a declaration. -/
def tokens (text : String) : List String :=
  (Token.lex text).map Token.text

/-- The token starts like an identifier. -/
def isWord (t : String) : Bool :=
  t.toList.head?.any isWordStart

/-- Words that qualify a declaration and name no type. -/
def qualifiers : List String :=
  ["volatile", "static", "mutable", "inline", "constexpr", "virtual", "explicit", "typename",
   "struct", "class", "enum", "extern", "thread_local", "friend"]

/-- The token is part of a type's name: a word, or a number. -/
def isNamePart (t : String) : Bool :=
  isWord t || t.toList.all fun c => isAsciiAlphanumeric c || c == '.'

/-- A name with one more word. A space stands between two words that no scope mark joins. -/
def extendName (name : String) (afterScope : Bool) (t : String) : String :=
  if name ≠ "" && !afterScope then name ++ " " ++ t else name ++ t

/-- A type with what a single token adds to it: a decoration, a word of its name, or nothing. A
`const` behind a pointer mark is no part of the type. -/
def extendType (ty : TypeRef) (afterScope : Bool) (t : String) : TypeRef :=
  if t = "const" then { ty with isConst := ty.isConst || !ty.isPointer }
  else if t = "*" then { ty with isPointer := true }
  else if t = "&" then { ty with isReference := true }
  else if qualifiers.contains t then ty
  else if isNamePart t then { ty with name := extendName ty.name afterScope t }
  else ty

/-- What follows a group of which the opening bracket has been read; all of it if it is never
closed. -/
def skipGroup (ts : List String) : List String :=
  match closeGroup 1 ts with
  | some (_, after) => after
  | none => ts

theorem length_skipGroup_le (ts : List String) : (skipGroup ts).length ≤ ts.length := by
  unfold skipGroup
  split
  · rename_i h
    have := length_closeGroup h
    omega
  · exact Nat.le_refl _

/-- The parts of a template's argument list that hold anything. -/
def argumentParts (ts : List String) : List (List String) :=
  (splitTop "," 0 ts).filter (· ≠ [])

theorem length_le_of_mem_argumentParts {ts part : List String} (h : part ∈ argumentParts ts) :
    part.length ≤ ts.length :=
  length_le_of_mem_splitTop (List.mem_filter.1 h).1

/-- A type with what tokens add to it, given whether a scope mark stands right before them. An
angle bracket that is never closed ends the type. -/
def collectType (ty : TypeRef) (afterScope : Bool) : List String → TypeRef
  | [] => ty
  | t :: rest =>
    if t = "::" then collectType { ty with name := ty.name ++ "::" } true rest
    else if t = "[" then collectType { ty with isArray := true } false (skipGroup rest)
    else if t = "<" then
      match _h : closeGroup 1 rest with
      | none => ty
      | some (group, after) =>
        let arguments := (argumentParts group.dropLast).attach.map fun part =>
          collectType {} false part.1
        collectType { ty with arguments } false after
    else collectType (extendType ty afterScope t) false rest
termination_by ts => ts.length
decreasing_by
  · simp
  · exact Nat.lt_succ_of_le (length_skipGroup_le rest)
  · have h1 := length_le_of_mem_argumentParts part.2
    have h2 := length_closeGroup _h
    simp only [List.length_dropLast, List.length_cons] at h1 ⊢
    omega
  · have := length_closeGroup _h
    simp only [List.length_cons]
    omega
  · simp

theorem collectType_angle {ty : TypeRef} {afterScope : Bool} {rest group after : List String}
    (h : closeGroup 1 rest = some (group, after)) :
    collectType ty afterScope ("<" :: rest) =
      collectType { ty with arguments := (argumentParts group.dropLast).map (collectType {} false) }
        false after := by
  rw [collectType]
  simp only [String.reduceEq, if_false, if_true]
  split
  · simp_all
  · rename_i h'
    obtain ⟨rfl, rfl⟩ := Prod.mk.inj (Option.some.inj (h.symm.trans h'))
    simp

end Declaration

/-- The type that tokens spell. -/
def TypeRef.ofTokens (ts : List String) : TypeRef :=
  Declaration.collectType {} false ts

end HeaderReflection
