import HeaderReflection.Container.Build
import HeaderReflection.Project.Discover

/-!
# Analyses

What the input files of a project declare. The containers of all files stand in one list, in which
each file has a range of its own, because bases are looked up among the containers of all files.
-/

namespace HeaderReflection.Project

/-- An input file with the range of its containers. -/
structure AnalyzedFile where
  source : SourceFile
  /-- How many containers the files before it have. -/
  start : Nat
  /-- How many containers it has itself. -/
  count : Nat
  deriving DecidableEq, Repr

/-- What a list about all containers holds about the file's containers. -/
def AnalyzedFile.slice {α : Type} (f : AnalyzedFile) (xs : List α) : List α :=
  (xs.drop f.start).take f.count

/-- What the input files declare, before bases are resolved. -/
structure Analysis where
  files : List AnalyzedFile := []
  /-- In the order of the files, and within a file in the order they are opened. -/
  containers : List Container := []
  faults : List Fault := []
  warnings : List String := []

/-- The model of an input file. A file that cannot be read declares nothing. -/
def modelOf (v : Vocabulary) (t : FileTree) (s : SourceFile) : FileModel :=
  match t.readText s.path with
  | .ok text => FileModel.ofSource v s.path s.fileId text
  | .error e =>
    { path := s.path, fileId := s.fileId, containers := [],
      faults := [.unreadable s.path e.message], warnings := [] }

/-- The analysis with a further file. -/
def Analysis.add (a : Analysis) (s : SourceFile) (m : FileModel) : Analysis where
  files := a.files ++ [⟨s, a.containers.length, m.containers.length⟩]
  containers := a.containers ++ m.containers
  faults := a.faults ++ m.faults
  warnings := a.warnings ++ m.warnings

/-- The analysis of input files with their models. -/
def Analysis.ofModels (models : List (SourceFile × FileModel)) : Analysis :=
  models.foldl (fun a m => a.add m.1 m.2) {}

/-- The analysis of all input files of a configuration. -/
def analyze (c : Config) (t : FileTree) : Except Fault Analysis := do
  let sources ← discover c t
  return .ofModels (sources.map fun s => (s, modelOf c.vocabulary t s))

end HeaderReflection.Project
