import HeaderReflection.Artifact.Options
import HeaderReflection.Fault

/-!
# Reports

What a run tells about itself: the artifacts with what became of each, the files it deleted, and
the faults and warnings on the way.
-/

namespace HeaderReflection.Project

/-- What became of a generated file. -/
inductive WriteOutcome where
  /-- The file already held the text. -/
  | unchanged
  | written
  /-- The file is missing or holds something else, and nothing is written. -/
  | outdated
  | failed (reason : String)
  deriving DecidableEq, Repr

/-- Nothing was written, against the intention. -/
def WriteOutcome.isFailure : WriteOutcome → Bool
  | .failed _ => true
  | _ => false

/-- What became of one part of the artifact of an input file. -/
structure ArtifactReport where
  fileId : String
  part : ArtifactPart
  path : String
  /-- How many containers the input file has. -/
  containers : Nat
  outcome : WriteOutcome
  deriving DecidableEq, Repr

/-- What a run did. -/
structure Report where
  filesScanned : Nat := 0
  containers : Nat := 0
  artifacts : List ArtifactReport := []
  /-- The generated files without a source. -/
  pruned : List String := []
  faults : List Fault := []
  warnings : List String := []
  /-- What stopped the run before anything was written. -/
  fatal : Option Fault := none
  deriving DecidableEq, Repr

/-- The fault of an artifact that could not be written. -/
def ArtifactReport.fault? (a : ArtifactReport) : Option Fault :=
  match a.outcome with
  | .failed reason => some (.writeFailed a.path reason)
  | _ => none

namespace Report

/-- Nothing went wrong. -/
def isSuccess (r : Report) : Bool :=
  r.fatal.isNone && r.faults.isEmpty && !r.artifacts.any fun a => a.outcome.isFailure

/-- How many artifacts ended in an outcome. -/
def count (r : Report) (o : WriteOutcome) : Nat :=
  (r.artifacts.filter fun a => a.outcome = o).length

/-- How many artifacts could not be written. -/
def failures (r : Report) : Nat :=
  (r.artifacts.filter fun a => a.outcome.isFailure).length

/-- A run that writes would change a generated file. -/
def hasOutdated (r : Report) : Bool :=
  0 < r.count .outdated || !r.pruned.isEmpty

end Report

end HeaderReflection.Project
