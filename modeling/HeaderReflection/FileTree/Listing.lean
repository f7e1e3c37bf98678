import HeaderReflection.FileTree.Edit

/-!
# Listings and changes

A directory outside is known by a listing of what stands in it, and what a tree holds more or less
than before is brought back to it as a list of changes.
-/

namespace HeaderReflection

/-- A line of a listing: a path, with a slash behind it for a directory, and with an arrow and a
target behind it for a link. -/
inductive ListedEntry where
  | directory (path : String)
  | file (path : String)
  | link (path target : String)
  deriving DecidableEq, Repr

/-- The text before and the text behind the first arrow. -/
def splitArrow : List Char → Option (List Char × List Char)
  | ' ' :: '-' :: '>' :: ' ' :: rest => some ([], rest)
  | [] => none
  | c :: rest => (splitArrow rest).map fun (before, behind) => (c :: before, behind)

/-- What a line of a listing tells. -/
def ListedEntry.ofLine (line : String) : ListedEntry :=
  match splitArrow line.toList with
  | some (path, target) => .link (String.ofList path) (String.ofList target)
  | none => if line.toList.getLast? = some '/' then .directory line else .file line

/-- A change of a directory. -/
inductive TreeChange where
  | createDirectory (path : String)
  | write (path : String) (content : ByteArray)
  | delete (path : String)

namespace FileTree

/-- The change that leads to an entry, if the tree before does not hold it. -/
def changeTo (before : FileTree) (e : Location × Entry) : Option TreeChange :=
  match before.find? e.1, e.2 with
  | none, .directory => some (.createDirectory (pathBelow "" e.1))
  | some (.file held), .file content =>
    if held.data == content.data then none else some (.write (pathBelow "" e.1) content)
  | _, .file content => some (.write (pathBelow "" e.1) content)
  | _, _ => none

/-- The changes that lead from one tree to another: what is gone is deleted, and what is new is
created, outermost first. -/
def changes (before after : FileTree) : List TreeChange :=
  (before.entries.filterMap fun e =>
    if (after.find? e.1).isNone then some (.delete (pathBelow "" e.1)) else none)
    ++ (after.entries.mergeSort fun a b => a.1.length ≤ b.1.length).filterMap before.changeTo

end FileTree

end HeaderReflection
