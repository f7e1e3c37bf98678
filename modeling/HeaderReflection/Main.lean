import HeaderReflection.CommandLine.Perform
import HeaderReflection.FileTree.Listing

/-!
# The program at work

The program works in the directory it is started in. Standard input lists what stands there, one
path on each line: a directory with a slash behind it, a link with an arrow and its target. Files
that change are written back at the end.
-/

namespace HeaderReflection.Main

/-- The lines of a stream, without their line ends. -/
partial def readLines (input : IO.FS.Stream) (before : Array String) : IO (Array String) := do
  let line ← input.getLine
  if line.isEmpty then return before
  readLines input (before.push (String.ofList (line.toList.filter (· ≠ '\n'))))

/-- The tree with what a line of a listing tells. -/
def addListed (t : FileTree) (line : String) : IO FileTree := do
  match ListedEntry.ofLine line with
  | .directory path => return t.putDirectory path
  | .link path target => return t.putLink path target
  | .file path => return t.putFile path (← IO.FS.readBinFile path)

/-- Carries out one change. -/
def applyChange : TreeChange → IO Unit
  | .createDirectory path => IO.FS.createDirAll path
  | .write path content => IO.FS.writeBinFile path content
  | .delete path => IO.FS.removeFile path

end HeaderReflection.Main

/-- Runs the program. -/
def main (arguments : List String) : IO UInt32 := do
  let listing ← HeaderReflection.Main.readLines (← IO.getStdin) #[]
  let before ← listing.foldlM HeaderReflection.Main.addListed {}
  let ended := HeaderReflection.CommandLine.run arguments before
  (before.changes ended.2).forM HeaderReflection.Main.applyChange
  IO.print ended.1.output
  IO.eprint ended.1.errors
  return UInt32.ofNat ended.1.status
