import HeaderReflection.Project.Dump
import HeaderReflection.Project.Layout
import HeaderReflection.Project.Prune

/-!
# Runs

What can be done with a project: all of them find and read the input files and resolve the bases of
their containers. A run then writes an artifact for each input file with containers, in the order of
the files, and prunes the output root. If bases cannot be resolved, nothing is written.
-/

namespace HeaderReflection.Project

/-- The report of an analysis. -/
def Analysis.report (a : Analysis) : Report where
  filesScanned := a.files.length
  containers := a.containers.length
  faults := a.faults
  warnings := a.warnings

/-- The containers of an analysis with their ancestors. -/
def Analysis.resolved (a : Analysis) (c : Config) : Except Fault (List Resolved) :=
  resolve a.containers c.codegen.externalBases

/-- The report with what stopped the run. -/
def Report.stoppedBy (r : Report) (f : Fault) : Report := { r with fatal := some f }

/-- The analysis of a configuration that passes its check. -/
def start (c : Config) (t : FileTree) : Except Fault Analysis := do
  c.check
  analyze c t

/-- A part of an artifact that is to be written. -/
structure PlannedFile where
  fileId : String
  part : ArtifactPart
  path : String
  containers : Nat
  text : String
  deriving DecidableEq, Repr

/-- The parts of the artifacts of all files with containers, in the order they are written. -/
def planned (c : Config) (backends : List Backend) (a : Analysis) (rs : List Resolved) :
    List PlannedFile :=
  (a.files.filter fun f => f.count ≠ 0).flatMap fun f =>
    let artifact :=
      Artifact.generate backends c.codegen.options f.source.fileId (f.slice rs)
    [ArtifactPart.header, .inlined].map fun part =>
      { fileId := f.source.fileId
        part
        path := c.output.artifactPath f.source.fileId part
        containers := f.count
        text := artifact.part part }

/-- Writes one planned file. -/
def commitPlanned (dryRun : Bool) (t : FileTree) (p : PlannedFile) : ArtifactReport × FileTree :=
  let r := commit dryRun t p.path p.text
  ({ fileId := p.fileId, part := p.part, path := p.path, containers := p.containers,
     outcome := r.1 }, r.2)

/-- Writes the planned files one after another. -/
def commitAll (dryRun : Bool) (t : FileTree) : List PlannedFile → List ArtifactReport × FileTree
  | [] => ([], t)
  | p :: rest =>
    let first := commitPlanned dryRun t p
    let others := commitAll dryRun first.2 rest
    (first.1 :: others.1, others.2)

/-- A dry run leaves the tree alone. -/
theorem commitAll_dry_tree (t : FileTree) (ps : List PlannedFile) :
    (commitAll true t ps).2 = t := by
  induction ps generalizing t with
  | nil => rfl
  | cons p rest ih => simp only [commitAll, commitPlanned, commit_dry_tree, ih]

/-- Writes the artifacts of resolved containers and prunes the output root. -/
def generate (c : Config) (backends : List Backend) (dryRun : Bool) (a : Analysis)
    (rs : List Resolved) (t : FileTree) : Report × FileTree :=
  let (artifacts, t) := commitAll dryRun t (planned c backends a rs)
  let pruned :=
    if c.output.pruneStale then prune c.output dryRun (artifacts.map (·.path)) t
    else { tree := t }
  ({ a.report with
      artifacts
      pruned := pruned.removed
      faults := a.faults ++ artifacts.filterMap ArtifactReport.fault? ++ pruned.faults },
    pruned.tree)

/-- A whole run. -/
def run (c : Config) (dryRun : Bool) (t : FileTree) : Except Fault Report × FileTree :=
  let inputs := do
    let a ← start c t
    let backends ← c.backends
    return (a, backends)
  match inputs with
  | .error f => (.error f, t)
  | .ok (a, backends) =>
    match a.resolved c with
    | .error f => (.ok (a.report.stoppedBy f), t)
    | .ok rs =>
      let (report, t) := generate c backends dryRun a rs t
      (.ok report, t)

/-- A run that generates nothing. -/
def validate (c : Config) (t : FileTree) : Except Fault Report := do
  let a ← start c t
  return match a.resolved c with
    | .error f => a.report.stoppedBy f
    | .ok _ => a.report

/-- The resolved containers as a document, if bases can be resolved. -/
def dump (c : Config) (t : FileTree) : Except Fault (Option String × Report) := do
  let a ← start c t
  return match a.resolved c with
    | .error f => (none, a.report.stoppedBy f)
    | .ok rs => (some (a.toJson rs).render, a.report)

end HeaderReflection.Project
