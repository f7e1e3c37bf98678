import HeaderReflection.FileTree.Basic

/-!
# Looking up paths

A path is followed step by step from the top of a tree, through the links on the way, to what it
leads to.
-/

namespace HeaderReflection.FileTree

/-- How many links are followed on the way to one location. -/
def linkLimit : Nat := 40

/-- The location that steps lead to from a directory. Links on the way are followed, up to a number
of them, and the last step's link if `follow` is set. The location itself may be free. -/
def walk (t : FileTree) (follow : Bool) (links : Nat) (here : Location) :
    List String → Except FileError Location
  | [] => .ok here
  | step :: rest =>
    match t.find? here with
    | none => .error .notFound
    | some (.file _) => .error .notDirectory
    | some (.link _) => .error .notDirectory
    | some .directory =>
      if step = "" || step = "." then walk t follow links here rest
      else if step = ".." then walk t follow links here.dropLast rest
      else
        let next := here ++ [step]
        match t.find? next with
        | some (.link target) =>
          if rest = [] && !follow then .ok next
          else match links with
            | 0 => .error .tooManyLinks
            | links + 1 =>
              walk t follow links (if Path.isAbsolute target then [] else here)
                (Path.segments target ++ rest)
        | _ => walk t follow links next rest
termination_by steps => (links, steps.length)

/-- The location that a path leads to. -/
def locate (t : FileTree) (follow : Bool) (path : String) : Except FileError Location :=
  if path = "" then .error .notFound else t.walk follow linkLimit [] (Path.segments path)

/-- What a path leads to through links. -/
def get? (t : FileTree) (path : String) : Except FileError (Location × Entry) := do
  let l ← t.locate true path
  match t.find? l with
  | some e => .ok (l, e)
  | none => .error .notFound

/-- The path leads to a directory. -/
def isDirectory (t : FileTree) (path : String) : Bool :=
  match t.get? path with
  | .ok (_, .directory) => true
  | _ => false

/-- The path leads to a file. -/
def isFile (t : FileTree) (path : String) : Bool :=
  match t.get? path with
  | .ok (_, .file _) => true
  | _ => false

/-- The content of the file that a path leads to. -/
def read (t : FileTree) (path : String) : Except FileError ByteArray := do
  match ← t.get? path with
  | (_, .file content) => .ok content
  | _ => .error .isDirectory

/-- The text of the file that a path leads to. -/
def readText (t : FileTree) (path : String) : Except FileError String := do
  let content ← t.read path
  match String.fromUTF8? content with
  | some text => .ok text
  | none => .error .invalidText

end HeaderReflection.FileTree
