import HeaderReflection.Proofs.Artifact.Sections
import HeaderReflection.Proofs.Lineage.Flattening
import HeaderReflection.Proofs.Project.Distinct
import HeaderReflection.Proofs.Project.Dumps
import HeaderReflection.Proofs.Project.Identities
import HeaderReflection.Proofs.Project.Stopped

/-!
# What each file gets

The containers of all files are resolved in one list, and each file takes its own back by the range
that it has in this list. Neither loses a container nor gives it to another file: what is written
and what is dumped for a file are the containers that it declares, in their order.

* `Consecutive`: ranges that follow one another.
* `Consecutive.flatMap_slice`: such ranges divide a list.
* `shares_ofModels`: the ranges of an analysis are those of the models.
* `planned_eq_sharedFiles`: what is planned for a file is made of its share alone.
* `run_shares`: what a run reports and a dump lists for each file.
-/

namespace HeaderReflection.Project

open Lineage (Flattens)

/-! ## Ranges -/

/-- The ranges of files follow one another from a place to another one. -/
def Consecutive : Nat → List AnalyzedFile → Nat → Prop
  | first, [], last => first = last
  | first, f :: rest, last => f.start = first ∧ Consecutive (first + f.count) rest last

theorem Consecutive.le {first last : Nat} {files : List AnalyzedFile}
    (h : Consecutive first files last) : first ≤ last := by
  induction files generalizing first with
  | nil => exact Nat.le_of_eq h
  | cons f rest ih => exact Nat.le_trans (Nat.le_add_right ..) (ih h.2)

/-- Ranges that follow one another divide what is between their ends. -/
theorem Consecutive.flatMap_slice {α : Type} {first last : Nat} {files : List AnalyzedFile}
    (h : Consecutive first files last) (xs : List α) :
    (files.flatMap fun f => f.slice xs) = (xs.take last).drop first := by
  induction files generalizing first with
  | nil =>
    obtain rfl : first = last := h
    simp
  | cons f rest ih =>
    obtain ⟨rfl, hrest⟩ := h
    have hle := hrest.le
    rw [List.flatMap_cons, ih hrest, AnalyzedFile.slice, List.drop_take, List.drop_take,
      ← List.drop_drop]
    have hcount : last - f.start = f.count + (last - (f.start + f.count)) := by omega
    rw [hcount, List.take_add]

/-- What a list about all containers holds about each file. -/
def Analysis.shares {α : Type} (a : Analysis) (xs : List α) : List (SourceFile × List α) :=
  a.files.map fun f => (f.source, f.slice xs)

/-- The shares of a list are the whole of it. -/
theorem Consecutive.flatMap_shares {α : Type} {a : Analysis} {xs : List α}
    (h : Consecutive 0 a.files xs.length) : (a.shares xs).flatMap (·.2) = xs := by
  rw [Analysis.shares, List.flatMap_map]
  exact (h.flatMap_slice xs).trans (by simp)

theorem slice_map {α β : Type} (f : AnalyzedFile) (g : α → β) (xs : List α) :
    f.slice (xs.map g) = (f.slice xs).map g := by
  rw [AnalyzedFile.slice, AnalyzedFile.slice, List.map_take, List.map_drop]

/-! ## Analyses of models -/

/-- Files with the ranges of their containers, behind a number of others. -/
def filesFrom : Nat → List (SourceFile × FileModel) → List AnalyzedFile
  | _, [] => []
  | first, m :: rest =>
    ⟨m.1, first, m.2.containers.length⟩ :: filesFrom (first + m.2.containers.length) rest

theorem files_ofModels_eq (models : List (SourceFile × FileModel)) :
    (Analysis.ofModels models).files = filesFrom 0 models := by
  have add (a : Analysis) : (models.foldl (fun a m => a.add m.1 m.2) a).files
      = a.files ++ filesFrom a.containers.length models := by
    induction models generalizing a with
    | nil => simp [filesFrom]
    | cons m models ih =>
      rw [List.foldl_cons, ih]
      simp [Analysis.add, filesFrom]
  simpa [Analysis.ofModels] using add {}

theorem consecutive_filesFrom (first : Nat) (models : List (SourceFile × FileModel)) :
    Consecutive first (filesFrom first models)
      (first + (models.flatMap fun m => m.2.containers).length) := by
  induction models generalizing first with
  | nil => rfl
  | cons m rest ih =>
    refine ⟨rfl, ?_⟩
    rw [List.flatMap_cons, List.length_append, ← Nat.add_assoc]
    exact ih _

theorem slices_filesFrom (models : List (SourceFile × FileModel)) (before : List Container) :
    ((filesFrom before.length models).map fun f =>
        (f.source, f.slice (before ++ models.flatMap fun m => m.2.containers)))
      = models.map fun m => (m.1, m.2.containers) := by
  induction models generalizing before with
  | nil => rfl
  | cons m rest ih =>
    have hrest := ih (before ++ m.2.containers)
    rw [List.length_append, List.append_assoc] at hrest
    rw [filesFrom, List.map_cons, List.map_cons, List.flatMap_cons, hrest]
    simp [AnalyzedFile.slice]

/-- The ranges of an analysis follow one another and divide its containers into those of the
models. -/
theorem shares_ofModels (models : List (SourceFile × FileModel)) :
    Consecutive 0 (Analysis.ofModels models).files (Analysis.ofModels models).containers.length ∧
      (Analysis.ofModels models).shares (Analysis.ofModels models).containers
        = models.map fun m => (m.1, m.2.containers) := by
  rw [Analysis.shares, files_ofModels_eq, containers_ofModels]
  refine ⟨?_, slices_filesFrom models []⟩
  have h := consecutive_filesFrom 0 models
  rwa [Nat.zero_add] at h

/-- Each file has a share, be it empty. -/
theorem map_fst_shares {α : Type} (models : List (SourceFile × FileModel)) (xs : List α) :
    ((Analysis.ofModels models).shares xs).map (·.1) = models.map (·.1) := by
  rw [Analysis.shares, List.map_map]
  exact files_ofModels models

/-- A file with two structs, one without any, and one with a struct. -/
example : ((analysisOf {} [
    (⟨"src/a.h", "a.h"⟩, .ok "STRUCT() struct S \x7b\x7d; STRUCT() struct T \x7b\x7d;"),
    (⟨"src/b.h", "b.h"⟩, .ok "int x;"), (⟨"src/c.h", "c.h"⟩, .ok "STRUCT() struct U \x7b\x7d;")]
    ).files.map fun f => (f.start, f.count)) = [(0, 2), (2, 0), (2, 1)] := by
  decide +kernel

/-! ## Shares of resolved containers -/

theorem Consecutive.length_slice {α : Type} {first last : Nat} {files : List AnalyzedFile}
    (h : Consecutive first files last) {xs : List α} (hlast : last ≤ xs.length) {f : AnalyzedFile}
    (hf : f ∈ files) : (f.slice xs).length = f.count := by
  induction files generalizing first with
  | nil => cases hf
  | cons g rest ih =>
    rcases List.mem_cons.1 hf with rfl | hf
    · have hle := h.2.le
      have hstart := h.1
      rw [AnalyzedFile.slice, List.length_take, List.length_drop]
      omega
    · exact ih h.2 hf

/-- What holds of the shares of resolved containers, by the models of the files. -/
structure ResolvedShares (models : List (SourceFile × FileModel)) (external : List String)
    (shares : List (SourceFile × List Resolved)) : Prop where
  containers : shares.map (fun x => (x.1, x.2.map (·.container)))
    = models.map fun m => (m.1, m.2.containers)
  ancestors : ∀ x ∈ shares, ∀ r ∈ x.2,
    Flattens (models.flatMap fun m => m.2.containers) external r.container.bases r.ancestors

/-- Resolution keeps the share of each file. -/
theorem shares_of_resolve {models : List (SourceFile × FileModel)} {external : List String}
    {rs : List Resolved}
    (h : resolve (Analysis.ofModels models).containers external = .ok rs) :
    Consecutive 0 (Analysis.ofModels models).files rs.length ∧
      ResolvedShares models external ((Analysis.ofModels models).shares rs) := by
  obtain ⟨hmap, hall⟩ := Lineage.flattens_of_resolve h
  obtain ⟨hconsecutive, hshares⟩ := shares_ofModels models
  have hlength : (Analysis.ofModels models).containers.length = rs.length := by
    rw [← hmap, List.length_map]
  rw [hlength] at hconsecutive
  refine ⟨hconsecutive, ?_, fun x hx r hr => ?_⟩
  · rw [← hshares]
    conv_rhs => rw [← hmap]
    simp only [Analysis.shares, List.map_map, slice_map]
    rfl
  · rw [← containers_ofModels]
    refine hall r ?_
    rw [← hconsecutive.flatMap_shares]
    exact List.mem_flatMap.2 ⟨x, hx, hr⟩

/-- How the ranges of an analysis divide its containers among its input files, before bases are
resolved and after. -/
structure Divided (v : Vocabulary) (inputs : List (SourceFile × Except FileError String)) :
    Prop where
  consecutive :
    Consecutive 0 (analysisOf v inputs).files (analysisOf v inputs).containers.length
  shares : (analysisOf v inputs).shares (analysisOf v inputs).containers
    = inputs.map fun i => (i.1, (modelWith v i.1 i.2).containers)
  whole : ((analysisOf v inputs).shares (analysisOf v inputs).containers).flatMap (·.2)
    = (analysisOf v inputs).containers
  fileIds : ∀ x ∈ (analysisOf v inputs).shares (analysisOf v inputs).containers,
    ∀ d ∈ x.2, d.fileId = x.1.fileId
  resolved : ∀ external rs, resolve (analysisOf v inputs).containers external = .ok rs →
    ((analysisOf v inputs).shares rs).flatMap (·.2) = rs ∧
      ResolvedShares (inputs.map fun i => (i.1, modelWith v i.1 i.2)) external
        ((analysisOf v inputs).shares rs)

theorem divided (v : Vocabulary) (inputs : List (SourceFile × Except FileError String)) :
    Divided v inputs := by
  obtain ⟨hconsecutive, hshares⟩ :=
    shares_ofModels (inputs.map fun i => (i.1, modelWith v i.1 i.2))
  rw [List.map_map] at hshares
  refine ⟨hconsecutive, hshares, hconsecutive.flatMap_shares, ?_, fun external rs hr => ?_⟩
  · rw [analysisOf, hshares]
    intro x hx d hd
    obtain ⟨i, -, rfl⟩ := List.mem_map.1 hx
    exact fileId_of_mem_modelWith hd
  · obtain ⟨hconsecutive, hresolved⟩ := shares_of_resolve hr
    exact ⟨hconsecutive.flatMap_shares, hresolved⟩

/-! ## Runs -/

/-- The files that are planned for the shares of resolved containers. -/
def sharedFiles (c : Config) (backends : List Backend)
    (shares : List (SourceFile × List Resolved)) : List PlannedFile :=
  (shares.filter fun x => !x.2.isEmpty).flatMap fun x =>
    [ArtifactPart.header, .inlined].map fun part =>
      { fileId := x.1.fileId
        part
        path := c.output.artifactPath x.1.fileId part
        containers := x.2.length
        text := (Artifact.generate backends c.codegen.options x.1.fileId x.2).part part }

/-- What is planned for a file is made of its share. -/
theorem planned_eq_sharedFiles (c : Config) (backends : List Backend) {a : Analysis}
    {rs : List Resolved} (h : Consecutive 0 a.files rs.length) :
    planned c backends a rs = sharedFiles c backends (a.shares rs) := by
  have hlength : ∀ f ∈ a.files, (f.slice rs).length = f.count := fun f hf =>
    h.length_slice (Nat.le_refl _) hf
  rw [planned, sharedFiles, Analysis.shares, List.filter_map, List.flatMap_map]
  have hfilter : (a.files.filter fun f => f.count ≠ 0) =
      a.files.filter ((fun x => !x.2.isEmpty) ∘ fun f => (f.source, f.slice rs)) := by
    refine List.filter_congr fun f hf => ?_
    rw [← hlength f hf]
    change decide ((f.slice rs).length ≠ 0) = !(f.slice rs).isEmpty
    cases f.slice rs <;> rfl
  rw [hfilter]
  refine List.flatMap_congr fun f hf => ?_
  simp only [hlength f (List.mem_of_mem_filter hf)]

/-- A dump lists the share of each file. -/
theorem toJson_eq_shares (a : Analysis) (rs : List Resolved) :
    a.toJson rs = .array ((a.shares rs).map fun x =>
      .object [("file_id", .string x.1.fileId),
        ("containers", .array (x.2.map Resolved.toJson))]) := by
  rw [Analysis.toJson, Analysis.shares, List.map_map]
  rfl

/-- The sections of a container in the inline part, if there are tables among them. -/
theorem sections_of_tables {backends : List Backend} (h : .tables ∈ backends)
    (options : GenerationOptions) (r : Resolved) :
    Artifact.sections backends options .inlined r = Tables.generate options r .inlined ++
      if .registration ∈ backends then Registration.generate options r .inlined else "" := by
  by_cases hr : .registration ∈ backends
  · simp [Artifact.sections, Artifact.ordered, h, hr, Artifact.sectionOf, String.join]
  · simp [Artifact.sections, Artifact.ordered, h, hr, Artifact.sectionOf, String.join]

/-- The inline part has the sections of each container, behind those of the ones before it. -/
theorem inlined_of_tables {backends : List Backend} (h : .tables ∈ backends)
    (options : GenerationOptions) (fileId : String) (rs : List Resolved) :
    (Artifact.generate backends options fileId rs).inlined =
      Artifact.inlinedOpening options fileId ++
        String.join (rs.map fun r => Tables.generate options r .inlined ++
          if .registration ∈ backends then Registration.generate options r .inlined else "") := by
  rw [Artifact.generate, funext (sections_of_tables h options)]

/-- What is reported of the files that are planned for shares, whatever becomes of them: two
artifacts of each share with a container. -/
theorem map_artifacts_sharedFiles (c : Config) (dryRun : Bool) (t : FileTree)
    (backends : List Backend) (shares : List (SourceFile × List Resolved)) :
    (commitAll dryRun t (sharedFiles c backends shares)).1.map
        (fun a => (a.fileId, a.part, a.containers))
      = (shares.filter fun x => !x.2.isEmpty).flatMap fun x =>
        [(x.1.fileId, .header, x.2.length), (x.1.fileId, .inlined, x.2.length)] := by
  have hsettled := congrArg
    (List.map fun x : ArtifactReport => (x.fileId, x.part, x.containers))
    (map_settled_commitAll dryRun t (sharedFiles c backends shares))
  rw [List.map_map, List.map_map] at hsettled
  refine hsettled.trans ?_
  rw [sharedFiles, List.map_flatMap]
  rfl

/-- The shares of the input files in the resolved containers of a project, and what a run and a dump
tell of each file: what is in its share, and nothing else. -/
structure RunShares (c : Config) (dryRun : Bool) (t : FileTree) (r : Report)
    (backends : List Backend) (shares : List (SourceFile × List Resolved)) : Prop where
  sources : discover c t = .ok (shares.map (·.1))
  sorted : shares.Pairwise fun x y => x.1.fileId ≤ y.1.fileId
  configured : c.backends = .ok backends
  resolved : ResolvedShares ((shares.map (·.1)).map fun s => (s, modelOf c.vocabulary t s))
    c.codegen.externalBases shares
  /-- Each file with a container has its two artifacts, and no other file has any. -/
  artifacts : r.artifacts.map (fun a => (a.fileId, a.part, a.containers))
    = (shares.filter fun x => !x.2.isEmpty).flatMap fun x =>
      [(x.1.fileId, .header, x.2.length), (x.1.fileId, .inlined, x.2.length)]
  committed : r.artifacts = (commitAll dryRun t (sharedFiles c backends shares)).1
  /-- The inline part has the titles of the share, in its order, and no others. -/
  titles : .tables ∈ backends → ∀ x ∈ shares,
    (Artifact.generate backends c.codegen.options x.1.fileId x.2).inlined =
      lines (Artifact.inlinedLines backends c.codegen.options x.1.fileId x.2) ∧
    (Artifact.inlinedLines backends c.codegen.options x.1.fileId x.2).filter isTitle =
      x.2.map fun r => "// " ++ r.container.kind.word ++ " " ++ r.container.qualifiedName
  /-- Its sections are those of the share. -/
  inlined : .tables ∈ backends → ∀ x ∈ shares,
    (Artifact.generate backends c.codegen.options x.1.fileId x.2).inlined =
      Artifact.inlinedOpening c.codegen.options x.1.fileId ++
        String.join (x.2.map fun r => Tables.generate c.codegen.options r .inlined ++
          if .registration ∈ backends then Registration.generate c.codegen.options r .inlined
          else "")
  /-- A dump names each file and the containers of its share, in its order, and no others. -/
  dumped : ∃ text report, dump c t = .ok (some text, report) ∧
    text = (Json.array (shares.map fun x => .object [("file_id", .string x.1.fileId),
      ("containers", .array (x.2.map Resolved.toJson))])).render ∧
    namingLines text = shares.flatMap fun x =>
      ("    \"file_id\": " ++ Json.quoted x.1.fileId ++ ",") :: x.2.flatMap fun r =>
        ["        \"name\": " ++ Json.quoted r.container.name ++ ",",
          "        \"kind\": " ++ Json.quoted r.container.kind.word ++ ",",
          "        \"file_id\": " ++ Json.quoted r.container.fileId ++ ","]

/-- The input files are in the order of their identifiers. -/
theorem sorted_of_discover {c : Config} {t : FileTree} {sources : List SourceFile}
    (h : discover c t = .ok sources) : sources.Pairwise fun s u => s.fileId ≤ u.fileId := by
  obtain ⟨top, patterns, -, -, rfl⟩ := discover_eq_ok_iff.1 h
  refine List.pairwise_map.2 (sorted_selectedBelow.imp fun hle => ?_)
  simpa only [List.map_id] using hle

/-- The ranges of an analysis divide its containers into those of its files. A run that nothing
stops reports the artifacts of the files with containers in the order of the files, made of the
resolved forms of their own containers, and a dump lists the same for each file. -/
theorem run_shares {c : Config} {dryRun : Bool} {t : FileTree} {r : Report}
    (hrun : (run c dryRun t).1 = .ok r) (hfatal : r.fatal = none) :
    (∀ v inputs, Divided v inputs) ∧ ∃ backends shares, RunShares c dryRun t r backends shares := by
  refine ⟨divided, ?_⟩
  rcases run_cases c t with ⟨f, h⟩ | ⟨a, f, -, -, h⟩ | ⟨a, backends, rs, hs, hb, hr, h⟩
  · rw [h] at hrun
    cases hrun
  · rw [h] at hrun
    obtain rfl := Except.ok.inj hrun
    cases hfatal
  · rw [h] at hrun
    obtain rfl := Except.ok.inj hrun
    obtain ⟨⟨⟩, hcheck, ha⟩ := bind_eq_ok_iff.1 hs
    obtain ⟨sources, hd, hof⟩ := bind_eq_ok_iff.1 ha
    have hdump := (commands_of_resolved hs hr dryRun).2.2
    obtain rfl := Except.ok.inj hof
    obtain ⟨hconsecutive, hshares⟩ := shares_of_resolve hr
    generalize ha : Analysis.ofModels (sources.map fun s => (s, modelOf c.vocabulary t s)) = a
      at hconsecutive hshares hdump
    have hsources : (a.shares rs).map (·.1) = sources := by
      rw [← ha, map_fst_shares, List.map_map]
      exact List.map_id _
    rw [toJson_eq_shares] at hdump
    have hplanned := planned_eq_sharedFiles c backends hconsecutive
    have hartifacts : (generate c backends dryRun a rs t).1.artifacts
        = (commitAll dryRun t (sharedFiles c backends (a.shares rs))).1 := by
      rw [← hplanned]
      rfl
    refine ⟨backends, a.shares rs, ?_, ?_, hb, ?_, ?_, hartifacts,
      fun htables x _ => ⟨Artifact.generate_inlined .., ?_⟩,
      fun htables x _ => inlined_of_tables htables .., _, _, hdump, rfl, namingLines_dump _⟩
    · rw [hsources, hd]
    · have hsorted := sorted_of_discover hd
      rw [← hsources, List.pairwise_map] at hsorted
      exact hsorted
    · rw [hsources]
      exact hshares
    · rw [hartifacts, map_artifacts_sharedFiles]
    · exact Artifact.filter_isTitle_inlinedLines htables
        (Config.isAsciiIdentifier_of_check hcheck) ..

/-- What names a container. -/
def namesOf (c : Container) : List String :=
  [c.kind.word, c.qualifiedName, c.name, c.fileId]

/-- The two headers declare a struct each. -/
theorem names_pair :
    [⟨"src/a.h", "a.h"⟩, ⟨"src/b.h", "b.h"⟩].map (fun s : SourceFile =>
      (s.fileId,
        (modelOf smallConfig.vocabulary (pairTree "a.h" "b.h") s).containers.map namesOf)) =
      [("a.h", [["struct", "S", "S", "a.h"]]), ("b.h", [["struct", "T", "T", "b.h"]])] := by
  have hname : Path.IsName "a.h" := by decide
  have hother : Path.IsName "b.h" := by decide
  obtain ⟨hread, hread'⟩ := readText_pair hname hother (by decide)
  have hpaths : Path.join "src" "a.h" = "src/a.h" ∧ Path.join "src" "b.h" = "src/b.h" := by decide
  rw [hpaths.1] at hread
  rw [hpaths.2] at hread'
  simp only [List.map_cons, List.map_nil, modelOf, hread, hread']
  decide +kernel

/-- The two headers are found. -/
theorem sources_pair : discover smallConfig (pairTree "a.h" "b.h") =
    .ok [⟨"src/a.h", "a.h"⟩, ⟨"src/b.h", "b.h"⟩] :=
  discover_pair (by decide) (by decide) (by decide) (by decide) (by decide)

/-- The share of each of them is its struct. -/
theorem RunShares.names_pair {dryRun : Bool} {r : Report} {backends : List Backend}
    {shares : List (SourceFile × List Resolved)}
    (h : RunShares smallConfig dryRun (pairTree "a.h" "b.h") r backends shares) :
    shares.map (fun x => (x.1.fileId, x.2.map fun r => namesOf r.container)) =
      [("a.h", [["struct", "S", "S", "a.h"]]), ("b.h", [["struct", "T", "T", "b.h"]])] := by
  have hshares := congrArg
    (List.map fun x : SourceFile × List Container => (x.1.fileId, x.2.map namesOf))
    h.resolved.containers
  rw [Except.ok.inj (h.sources.symm.trans sources_pair), List.map_map, List.map_map,
    List.map_map] at hshares
  simpa [Function.comp_def] using hshares.trans Project.names_pair

/-- Two headers with a struct each get two artifacts each, with their own struct, and a dump names
both. -/
theorem run_shares_pair : ∃ r t', run smallConfig false (pairTree "a.h" "b.h") = (.ok r, t') ∧
    r.artifacts.map (fun x => (x.fileId, x.part, x.containers)) =
      [("a.h", .header, 1), ("a.h", .inlined, 1), ("b.h", .header, 1), ("b.h", .inlined, 1)] ∧
    (∃ backends shares,
      r.artifacts =
        (commitAll false (pairTree "a.h" "b.h") (sharedFiles smallConfig backends shares)).1 ∧
      shares.map (fun x => (Artifact.inlinedLines backends smallConfig.codegen.options x.1.fileId
        x.2).filter isTitle) = [["// struct S"], ["// struct T"]] ∧
      ∀ x ∈ shares,
        (Artifact.generate backends smallConfig.codegen.options x.1.fileId x.2).inlined =
          lines (Artifact.inlinedLines backends smallConfig.codegen.options x.1.fileId x.2)) ∧
    ∃ text report, dump smallConfig (pairTree "a.h" "b.h") = .ok (some text, report) ∧
      namingLines text =
        ["    \"file_id\": \"a.h\",", "        \"name\": \"S\",", "        \"kind\": \"struct\",",
          "        \"file_id\": \"a.h\",", "    \"file_id\": \"b.h\",",
          "        \"name\": \"T\",", "        \"kind\": \"struct\",",
          "        \"file_id\": \"b.h\","] := by
  obtain ⟨a, rs, hs, hr, -⟩ :=
    planned_of_sources [.tables, .registration] (by decide) sources_pair containers_pair
  obtain ⟨⟨r, t', hrun, hforetells⟩, -, -⟩ := commands_of_resolved hs hr false
  have hok : (run smallConfig false (pairTree "a.h" "b.h")).1 = .ok r := by rw [hrun]
  obtain ⟨-, backends, shares, h⟩ := run_shares hok hforetells.fatal
  have htables : .tables ∈ backends := by
    have hbackends : smallConfig.backends = .ok [.tables, .registration] := by decide
    obtain rfl := Except.ok.inj (h.configured.symm.trans hbackends)
    decide
  obtain ⟨x, rest, hx, hfirst, hrest⟩ := List.map_eq_cons_iff.1 h.names_pair
  obtain ⟨y, hy, hsecond⟩ := List.map_eq_singleton_iff.1 hrest
  obtain ⟨hxid, hxnames⟩ := Prod.mk.inj hfirst
  obtain ⟨hyid, hynames⟩ := Prod.mk.inj hsecond
  obtain ⟨u, hu, hunames⟩ := List.map_eq_singleton_iff.1 hxnames
  obtain ⟨v, hv, hvnames⟩ := List.map_eq_singleton_iff.1 hynames
  simp only [namesOf, List.cons.injEq, and_true] at hunames hvnames
  subst hy
  obtain ⟨text, report, hdump, -, hnaming⟩ := h.dumped
  have hquoted : ∀ word ∈ ["a.h", "b.h", "S", "T", "struct"],
      Json.quoted word = "\"" ++ word ++ "\"" := by decide
  refine ⟨r, t', hrun, ?_,
    ⟨backends, shares, h.committed, ?_, fun x hx => (h.titles htables x hx).1⟩,
    text, report, hdump, ?_⟩
  · rw [h.artifacts, hx]
    simp [hxid, hyid, hu, hv]
  · have htitles := fun x hx => (h.titles htables x hx).2
    rw [List.map_congr_left htitles, hx]
    simp [hu, hv, hunames, hvnames]
  · rw [hnaming, hx]
    simp [hxid, hyid, hu, hv, hunames, hvnames, hquoted]

end HeaderReflection.Project
