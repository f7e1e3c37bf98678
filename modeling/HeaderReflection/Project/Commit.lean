import HeaderReflection.FileTree.Change
import HeaderReflection.Project.Report

/-!
# Committing generated files

A file is written only if its bytes change, so that builds which watch it are not disturbed. A dry
run tells what would happen and changes nothing.
-/

namespace HeaderReflection.Project

/-- The directory that a file is written into. -/
def directoryOf (path : String) : String :=
  match Path.parent? path with
  | none | some "" => "."
  | some d => d

/-- The outcome of writing a file whose bytes change. -/
def writeOver (t : FileTree) (path : String) (bytes : ByteArray) : WriteOutcome × FileTree :=
  match t.createDirectories (directoryOf path) with
  | .error (e, t) => (.failed e.message, t)
  | .ok t =>
    match t.replace path bytes with
    | .error e => (.failed e.message, t)
    | .ok t => (.written, t)

/-- Makes a path hold a text. -/
def commit (dryRun : Bool) (t : FileTree) (path text : String) : WriteOutcome × FileTree :=
  let bytes := text.toUTF8
  let change := if dryRun then (.outdated, t) else writeOver t path bytes
  match t.read path with
  | .ok held => if held.data == bytes.data then (.unchanged, t) else change
  | .error .notFound => change
  | .error e => (.failed e.message, t)

/-- A dry run leaves the tree alone. -/
theorem commit_dry_tree (t : FileTree) (path text : String) : (commit true t path text).2 = t := by
  simp only [commit, if_true]
  split
  · split <;> rfl
  · rfl
  · rfl

/-- Deletes a file, and tells whether there was one. -/
def remove (dryRun : Bool) (t : FileTree) (path : String) : Except FileError (Bool × FileTree) :=
  if !t.isFile path then .ok (false, t)
  else if dryRun then .ok (true, t)
  else (t.unlink path).map (true, ·)

/-- A dry run leaves the tree alone. -/
theorem remove_dry_tree {t t' : FileTree} {path : String} {found : Bool}
    (h : remove true t path = .ok (found, t')) : t' = t := by
  simp only [remove, if_true] at h
  split at h <;> simp_all

end HeaderReflection.Project
