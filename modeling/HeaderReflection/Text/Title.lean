import HeaderReflection.Text.Case
import HeaderReflection.Text.Cluster

/-!
# Title case

An identifier is cut into words at blanks, hyphens and underscores and where the case or a digit
changes, and the words are written with a capital first letter, one space apart.
-/

namespace HeaderReflection.Text.Title

/-- What the word rules tell apart in a cluster. A cluster that no case mapping changes is
`other`. -/
inductive Shape where
  | separator | digit | upper | lower | other
  deriving DecidableEq, Repr

/-- The shape of a cluster. -/
def shape (g : List Char) : Shape :=
  if g = ['-'] || g = ['_'] || g = [' '] then .separator
  else if g.all isAsciiDigit then .digit
  else
    let upper := upperCase g
    let lower := lowerCase g
    if upper = lower then .other
    else if g = upper then .upper
    else if g = lower then .lower
    else .other

/-- A word ends between two clusters of these shapes. -/
def changes : Shape → Shape → Bool
  | .lower, .upper | .upper, .digit | .digit, .upper | .digit, .lower | .lower, .digit => true
  | _, _ => false

/-- A capital followed by a small letter starts a word after a capital. -/
def endsAcronym (first second : Shape) (third : Option Shape) : Bool :=
  first = .upper && second = .upper && third = some .lower

/-- The words of a list of clusters, the current word given reversed with the shape of its last
cluster. Words may be empty. -/
def wordsFrom (last : Option Shape) (word : List (List Char)) :
    List (List Char) → List (List (List Char))
  | [] => [word.reverse]
  | g :: rest =>
    let k := shape g
    let next := rest.head?.map shape
    if k = .separator then word.reverse :: wordsFrom (some k) [] rest
    else if last.any fun p => changes p k || endsAcronym p k next then
      word.reverse :: wordsFrom (some k) [g] rest
    else wordsFrom (some k) (g :: word) rest

/-- The words of a text. -/
def words (cs : List Char) : List (List Char) :=
  ((wordsFrom none [] (clusters cs)).map List.flatten).filter (· ≠ [])

/-- A word with its first cluster in upper case and the rest in lower case. -/
def capitalize (word : List Char) : List Char :=
  match clusters word with
  | [] => []
  | g :: rest => upperCase g ++ lowerCase rest.flatten

/-- A text in title case. -/
def titleCase (s : String) : String :=
  String.ofList ([' '].intercalate ((words s.toList).map capitalize))

end HeaderReflection.Text.Title
