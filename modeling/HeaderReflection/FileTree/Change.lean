import HeaderReflection.FileTree.Lookup

/-!
# Changing trees

Directories are created, files are put in place and deleted, as paths name them.
-/

namespace HeaderReflection.FileTree

/-- The directory that steps lead to, with every missing directory on the way created. -/
def makeDirectories (t : FileTree) (links : Nat) (here : Location) :
    List String → Except (FileError × FileTree) FileTree
  | [] => .ok t
  | step :: rest =>
    if step = "" || step = "." then makeDirectories t links here rest
    else if step = ".." then makeDirectories t links here.dropLast rest
    else
      let next := here ++ [step]
      match t.find? next with
      | none => makeDirectories (t.insert next .directory) links next rest
      | some .directory => makeDirectories t links next rest
      | some (.file _) =>
        .error (if rest.all fun s => s = "" || s = "." then .occupied else .notDirectory, t)
      | some (.link target) =>
        match t.walk true links here [step] with
        | .error e => .error (if e = .tooManyLinks then e else .occupied, t)
        | .ok l =>
          match t.find? l, links with
          | some .directory, links + 1 =>
            makeDirectories t links (if Path.isAbsolute target then [] else here)
              (Path.segments target ++ rest)
          | some .directory, 0 => .error (.tooManyLinks, t)
          | some (.file _), _ =>
            .error (if rest.all fun s => s = "" || s = "." then .occupied else .notDirectory, t)
          | _, _ => .error (.occupied, t)
termination_by steps => (links, steps.length)

/-- The tree with a directory at a path, and with all directories on the way to it. If one cannot
be created, the ones before it are kept. -/
def createDirectories (t : FileTree) (path : String) : Except (FileError × FileTree) FileTree :=
  t.makeDirectories linkLimit [] (Path.segments path)

/-- The tree with a file in place of what a path names. A link is replaced, not followed. The path
has to end in a name. -/
def replace (t : FileTree) (path : String) (content : ByteArray) : Except FileError FileTree := do
  let last := (Path.segments path).getLast?
  if path ≠ "" && last = some "" then
    throw .notDirectory
  let l ← t.locate false path
  if last = some "." || last = some ".." then
    throw .busy
  match t.find? l with
  | some .directory => throw .isDirectory
  | _ => return t.insert l (.file content)

/-- The tree without the file or link that a path names. -/
def unlink (t : FileTree) (path : String) : Except FileError FileTree := do
  let l ← t.locate false path
  match t.find? l with
  | none => .error .notFound
  | some .directory => .error .isDirectory
  | some _ => .ok (t.remove l)

end HeaderReflection.FileTree
