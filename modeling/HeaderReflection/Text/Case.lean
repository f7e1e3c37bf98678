import HeaderReflection.Text.CaseTable
import HeaderReflection.Text.CharClass

/-!
# Case

Upper and lower case of characters and texts. Upper case works character by character, and one
character may become several. Lower case does too, but for the Greek capital sigma, which becomes
the final form at the end of a word.
-/

namespace HeaderReflection.Text

/-- The image of a code point under a table of runs. -/
def runImage (table : List (Nat × Nat × Nat × Nat)) (n : Nat) : Option Nat :=
  table.findSome? fun (first, last, step, image) =>
    if first ≤ n && n ≤ last && (n - first) % step == 0 then some (image + (n - first)) else none

/-- A code point lies in one of the runs of a table. -/
def inRuns (table : List (Nat × Nat × Nat)) (n : Nat) : Bool :=
  table.any fun (first, last, step) => first ≤ n && n ≤ last && (n - first) % step == 0

/-- The lower-case character of a character that has exactly one. -/
def lowerChar (c : Char) : Char :=
  if c.toNat < 128 then c.toLower
  else ((runImage CaseTable.lower c.toNat).map Char.ofNat).getD c

/-- The upper-case character of a character that has exactly one. -/
def upperChar (c : Char) : Char :=
  if c.toNat < 128 then c.toUpper
  else ((runImage CaseTable.upper c.toNat).map Char.ofNat).getD c

/-- The lower case of a character; only the dotted capital I becomes two characters. -/
def lowerChars (c : Char) : List Char :=
  if c = 'İ' then ['i', '\u0307'] else [lowerChar c]

/-- The upper case of a character. -/
def upperChars (c : Char) : List Char :=
  if c.toNat < 128 then [c.toUpper]
  else match CaseTable.upperExpansions.lookup c.toNat with
    | some image => image.map Char.ofNat
    | none => [upperChar c]

/-- The property Uppercase. -/
def isUppercase (c : Char) : Bool :=
  if c.toNat < 128 then 'A' ≤ c && c ≤ 'Z' else inRuns CaseTable.uppercase c.toNat

/-- The property Cased. -/
def isCased (c : Char) : Bool :=
  if c.toNat < 128 then isAsciiLetter c else inRanges CaseTable.cased c

/-- The property Case_Ignorable: signs that a word's end looks past. -/
def isCaseIgnorable (c : Char) : Bool :=
  if c.toNat < 128 then c == '\x27' || c == '.' || c == ':' || c == '^' || c == '\x60'
  else inRanges CaseTable.caseIgnorable c

/-- The first character past the ignorable ones is cased. -/
def meetsCased (cs : List Char) : Bool :=
  (cs.dropWhile isCaseIgnorable).head?.any isCased

/-- The upper case of a text. -/
def upperCase (cs : List Char) : List Char :=
  cs.flatMap upperChars

/-- The lower case of a text that stands after another one, given reversed. A capital sigma becomes
the final form if a cased character stands before it and none after it. -/
def lowerCaseAfter : List Char → List Char → List Char
  | _, [] => []
  | before, c :: rest =>
    (if c = 'Σ' then [if meetsCased before && !meetsCased rest then 'ς' else 'σ']
      else lowerChars c) ++ lowerCaseAfter (c :: before) rest

/-- The lower case of a text. -/
def lowerCase (cs : List Char) : List Char :=
  lowerCaseAfter [] cs

/-- The lower case of a string. -/
def lowerString (s : String) : String :=
  String.ofList (lowerCase s.toList)

/-- A character without its case, for comparisons that ignore case. The dotted and the dotless
I have no partner. -/
def foldChar (c : Char) : Char :=
  if c = 'İ' || c = 'ı' then c else lowerChar (upperChar c)

/-- The code points that a table of runs takes to a code point. -/
def runSources (table : List (Nat × Nat × Nat × Nat)) (n : Nat) : List Nat :=
  table.filterMap fun (first, last, step, image) =>
    let source := first + (n - image)
    if image ≤ n && source ≤ last && (n - image) % step == 0 then some source else none

/-- The characters that differ from a character in case alone, itself among them: those with the
same character without case. -/
def caseForms (c : Char) : List Char :=
  let f := foldChar c
  let capitals := f :: f.toUpper :: (runSources CaseTable.lower f.toNat).map Char.ofNat
  let others := capitals.flatMap fun d =>
    d.toLower :: (runSources CaseTable.upper d.toNat).map Char.ofNat
  (capitals ++ others).filter fun d => foldChar d = f

end HeaderReflection.Text
