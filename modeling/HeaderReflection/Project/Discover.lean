import HeaderReflection.Config.Check
import HeaderReflection.FileTree.Lookup
import HeaderReflection.FileTree.Walk

/-!
# Input files

The files below the input root that are read: those with a configured extension that no pattern
leaves out, in the order of their identifiers. A pattern that matches a directory leaves out all
that is below it, and nothing below the output root is read.

A file system keeps names that need not be text. What is compared and shown of them is the text
that they are decoded to, and different names can have one text. So the search is written for any
way to decode names.

* `discoverBy`: the search, with the way to decode names and what the patterns match.
* `discover`: the search where the names are texts already, with the configured patterns.
-/

namespace HeaderReflection

/-- An input file. -/
structure SourceFile where
  path : String
  /-- The path from the input root. -/
  fileId : String
  deriving DecidableEq, Repr

namespace Project

/-- The path of a location from the directory it starts at. -/
def fileIdOf (l : Location) : String := "/".intercalate l

/-- An extension as it is compared: without points in front, and in lower case. -/
def extensionKey (e : String) : String :=
  Text.lowerString (String.ofList (e.toList.dropWhile (· = '.')))

section Names

variable (decode : String → String)

/-- The name has one of the extensions, once its own is decoded. -/
def hasExtension (extensions : List String) (name : String) : Bool :=
  (Path.splitExtension name).2.any fun e =>
    (extensions.map extensionKey).contains (Text.lowerString (decode e))

/-- A walk through the input root goes on to what is neither excluded nor the barred directory. -/
def isEntered (excluded : String → Bool) (barred : Location → Bool) (l : Location) (e : Entry) :
    Bool :=
  !(e.isDirectory && barred l) && !excluded (fileIdOf (l.map decode))

/-- What a walk comes to is a file with one of the extensions. -/
def isCandidate (extensions : List String) (x : Location × Entry) : Bool :=
  x.2.isFile && x.1.getLast?.any (hasExtension decode extensions)

/-- The identifier of one location is not above that of another. -/
def idLe (a b : Location) : Bool :=
  decide (fileIdOf (a.map decode) ≤ fileIdOf (b.map decode))

/-- The selected files below a location, in the order of their identifiers. -/
def selectedBelow (t : FileTree) (top : Location) (extensions : List String)
    (excluded : String → Bool) (barred : Location → Bool) : List Location :=
  (((t.walkBelow (isEntered decode excluded barred) top []).filter
    (isCandidate decode extensions)).map (·.1)).mergeSort (idLe decode)

end Names

/-- The location of the output root is reached from the input root by a location. -/
def leadsToOutput (c : Config) (t : FileTree) (top l : Location) : Bool :=
  match t.get? c.output.root with
  | .ok (output, _) => top ++ l = output
  | .error _ => false

/-- The input files of a configuration, by the way to decode names and by what the patterns match,
or the fault that one of them does not compile. A path keeps the names as they are. -/
def discoverBy (decode : String → String) (excludes : Except Fault (List (String → Bool)))
    (c : Config) (t : FileTree) : Except Fault (List SourceFile) :=
  match t.get? c.input.root with
  | .ok (top, .directory) => do
    let excludes ← excludes
    let excluded := fun id => excludes.any fun isMatch => isMatch id
    let barred := leadsToOutput c t top
    return (selectedBelow decode t top c.input.extensions excluded barred).map fun l =>
      ⟨FileTree.pathBelow c.input.root l, fileIdOf (l.map decode)⟩
  | _ => .error (.configuration ("input root " ++ c.input.root ++ " is not a directory"))

/-- The input files of a configuration. -/
def discover (c : Config) (t : FileTree) : Except Fault (List SourceFile) :=
  discoverBy id (c.patterns.map (List.map Pattern.matchesIn)) c t

end Project

end HeaderReflection
