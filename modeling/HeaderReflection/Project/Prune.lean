import HeaderReflection.Artifact.Basic
import HeaderReflection.Config.Basic
import HeaderReflection.Project.Commit
import HeaderReflection.Project.Discover

/-!
# Pruning

Generated files below the output root that no input file yields any more are deleted. A file counts
as generated if both its name and its first line say so.
-/

namespace HeaderReflection.Project

/-- One list of characters stands somewhere in another. -/
def occursIn (part : List Char) : List Char → Bool
  | [] => part.isEmpty
  | c :: rest => part.isPrefixOf (c :: rest) || occursIn part rest

/-- The name ends in the suffix, or has it before an extension. -/
def isNamedGenerated (suffix name : String) : Bool :=
  let mark := '.' :: suffix.toList
  mark.isSuffixOf name.toList || occursIn (mark ++ ['.']) name.toList

/-- The content starts with the mark of generated files. -/
def isMarkedGenerated (content : ByteArray) : Bool :=
  (String.fromUTF8? content).any fun text =>
    Artifact.generatedMark.toList.isPrefixOf text.toList

/-- The file is a generated one that is not expected. -/
def isStale (suffix root : String) (expected : List String) (file : Location × ByteArray) : Bool :=
  !((expected.map Path.parts).contains (Path.parts (FileTree.pathBelow root file.1)))
    && file.1.getLast?.any (isNamedGenerated suffix)
    && isMarkedGenerated file.2

/-- The stale files below a location, in their order. -/
def staleBelow (t : FileTree) (top : Location) (suffix root : String) (expected : List String) :
    List Location :=
  (((t.filesBelow top).filter (isStale suffix root expected)).map fun f => f.1).mergeSort
    FileTree.locationLe

/-- What pruning did. -/
structure Pruned where
  removed : List String := []
  faults : List Fault := []
  tree : FileTree

/-- Deletes one stale file. -/
def Pruned.step (dryRun : Bool) (p : Pruned) (path : String) : Pruned :=
  match remove dryRun p.tree path with
  | .ok (true, t) => { p with removed := p.removed ++ [path], tree := t }
  | .ok (false, t) => { p with tree := t }
  | .error e => { p with faults := p.faults ++ [.writeFailed path e.message] }

/-- Deletes the generated files below the output root that are not expected. -/
def prune (o : OutputConfig) (dryRun : Bool) (expected : List String) (t : FileTree) : Pruned :=
  match t.get? o.root with
  | .ok (top, .directory) =>
    ((staleBelow t top o.suffix o.root expected).map (FileTree.pathBelow o.root)).foldl
      (Pruned.step dryRun) { tree := t }
  | _ => { tree := t }

end HeaderReflection.Project
