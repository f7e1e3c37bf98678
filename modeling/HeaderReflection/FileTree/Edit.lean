import HeaderReflection.FileTree.Change

/-!
# Setting up trees

Entries are put at paths, deleted with all that is below them, and listed. Directories on the way
are created.
-/

namespace HeaderReflection.FileTree

/-- The tree with the directories on the way to a path, as far as they can be created. -/
def withParent (t : FileTree) (path : String) : FileTree :=
  match Path.parent? path with
  | none => t
  | some d =>
    match t.createDirectories d with
    | .ok t => t
    | .error (_, t) => t

/-- The tree with a directory at a path. -/
def putDirectory (t : FileTree) (path : String) : FileTree :=
  match t.createDirectories path with
  | .ok t => t
  | .error (_, t) => t

/-- The tree with a content at a path. A link is followed to the file it leads to. -/
def putFile (t : FileTree) (path : String) (content : ByteArray) : FileTree :=
  let t := t.withParent path
  match t.locate true path with
  | .error _ => t
  | .ok l =>
    match t.find? l with
    | some .directory => t
    | _ => t.insert l (.file content)

/-- The tree with a link at a path, if nothing is there. -/
def putLink (t : FileTree) (path target : String) : FileTree :=
  let t := t.withParent path
  match t.locate false path with
  | .error _ => t
  | .ok l => if (t.find? l).isSome then t else t.insert l (.link target)

/-- The tree without what is at a path and all that is below it. -/
def deleteAll (t : FileTree) (path : String) : FileTree :=
  match t.locate false path with
  | .error _ => t
  | .ok l => ⟨t.entries.filter fun e => !l.isPrefixOf e.1⟩

/-- The files below a path with their contents, sorted by their paths. -/
def filesAt (t : FileTree) (path : String) : List (String × ByteArray) :=
  match t.get? path with
  | .ok (l, .directory) =>
    ((t.filesBelow l).map fun f => (pathBelow path f.1, f.2)).mergeSort
      fun a b => decide (a.1 ≤ b.1)
  | _ => []

end HeaderReflection.FileTree
