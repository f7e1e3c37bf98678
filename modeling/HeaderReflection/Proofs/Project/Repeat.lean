import Mathlib.Data.List.Flatten
import HeaderReflection.Proofs.Project.Inputs

/-!
# Repeated runs

A run that comes to its end leaves nothing for the next one to do: what it writes and deletes
stands below the output root, where no input file is, and each planned file has a place of its own.

* `generate_plain`: what a run does to a plain tree.
* `run_repeat`: a second run reports the same, with every artifact unchanged and nothing deleted,
  and changes nothing.
-/

namespace HeaderReflection.Project

open FileTree (Edits IsPlain Reaches pathBelow)
open HeaderReflection.Path (IsName destination)

variable {t t' : FileTree} {c : Config}

/-- The paths of the artifacts of input files. -/
def artifactPaths (o : OutputConfig) (sources : List SourceFile) : List String :=
  sources.flatMap fun s => [ArtifactPart.header, .inlined].map (o.artifactPath s.fileId)

/-- The report of an artifact that the next run finds as it is. -/
def ArtifactReport.settled (a : ArtifactReport) : ArtifactReport := { a with outcome := .unchanged }

/-! ## The places of planned files -/

/-- A path is that of the output root with names behind it. -/
def IsBelowRoot (root path : String) : Prop :=
  ∃ l, l ≠ [] ∧ (∀ s ∈ l, IsName s) ∧ path = pathBelow root l

theorem IsBelowRoot.destination {root path : String} (h : IsBelowRoot root path) :
    Below (destination root) (destination path) := by
  obtain ⟨l, hne, hl, rfl⟩ := h
  exact ⟨l, hne, FileTree.destination_pathBelow root hl⟩

/-- Such paths are told apart by where they lead. -/
theorem IsBelowRoot.destination_inj {root p q : String} (hp : IsBelowRoot root p)
    (hq : IsBelowRoot root q) (he : Path.destination p = Path.destination q) : p = q := by
  obtain ⟨l, -, hl, rfl⟩ := hp
  obtain ⟨m, -, hm, rfl⟩ := hq
  rw [FileTree.destination_pathBelow root hl, FileTree.destination_pathBelow root hm,
    List.append_cancel_left_eq] at he
  rw [he]

theorem IsBelowRoot.reaches {root path : String} (h : IsBelowRoot root path) (hroot : root ≠ "")
    (hr : t.Reaches path) : t.Reaches root := by
  obtain ⟨l, -, hl, rfl⟩ := h
  exact ⟨hroot, fun m hm =>
    hr.directories m ((FileTree.mem_waypoints_pathBelow root hl).2 (.inl hm))⟩

/-- The artifacts of the input files of a plain tree stand below the output root. -/
theorem artifactPath_isBelowRoot (h : t.IsPlain) (ho : OutputApart c t)
    (hsuffix : '/' ∉ c.output.suffix.toList) {sources : List SourceFile}
    (hd : discover c t = .ok sources) {path : String}
    (hp : path ∈ artifactPaths c.output sources) : IsBelowRoot c.output.root path := by
  obtain ⟨-, -, patterns, -, rfl⟩ := discover_eq_ok h hd
  obtain ⟨s, hs, hpart⟩ := List.mem_flatMap.1 hp
  obtain ⟨part, -, rfl⟩ := List.mem_map.1 hpart
  obtain ⟨l, hl, rfl⟩ := List.mem_map.1 hs
  obtain ⟨hne, hnames⟩ := selected_names h hl
  have hname := isName_artifactName hsuffix hnames ((mem_selected_iff h ho).1 hl).1.1 part
  refine ⟨_, ?_, ?_, artifactPath_fileIdOf c.output hnames hne hname⟩
  · simp
  · refine List.forall_mem_append.2 ⟨fun s hs => hnames s (List.dropLast_subset l hs), ?_⟩
    simpa using hname

/-- Planned files with different paths have different places. -/
theorem nodup_destinations {root : String} {ps : List PlannedFile}
    (hplaces : ∀ p ∈ ps, IsBelowRoot root p.path) (hdistinct : (ps.map (·.path)).Nodup) :
    (ps.map fun p => destination p.path).Nodup := by
  have hmap := hdistinct.map_on (f := destination) fun p hp q hq he => by
    obtain ⟨x, hx, rfl⟩ := List.mem_map.1 hp
    obtain ⟨y, hy, rfl⟩ := List.mem_map.1 hq
    exact (hplaces x hx).destination_inj (hplaces y hy) he
  rwa [List.map_map] at hmap

section Planned

variable {backends : List Backend} {a : Analysis} {rs : List Resolved}

theorem planned_paths :
    (planned c backends a rs).map (·.path)
      = artifactPaths c.output ((a.files.filter fun f => f.count ≠ 0).map (·.source)) := by
  rw [planned, artifactPaths, List.map_flatMap, List.flatMap_map]
  rfl

/-- The files of an analysis are the input files. -/
theorem sources_of_analyze {sources : List SourceFile} (hd : discover c t = .ok sources)
    (ha : analyze c t = .ok a) : a.files.map (·.source) = sources := by
  obtain ⟨sources', hd', hof⟩ := bind_eq_ok_iff.1 ha
  obtain rfl := Except.ok.inj (hd.symm.trans hd')
  obtain rfl := Except.ok.inj hof
  rw [files_ofModels, List.map_map]
  exact List.map_id _

/-- The planned files are artifacts of input files. -/
theorem planned_paths_sublist {sources : List SourceFile} (hd : discover c t = .ok sources)
    (ha : analyze c t = .ok a) :
    ((planned c backends a rs).map (·.path)).Sublist (artifactPaths c.output sources) := by
  rw [planned_paths, ← sources_of_analyze hd ha]
  exact (List.filter_sublist.map _).flatMap _

theorem map_settled_commitAll (dryRun : Bool) (t : FileTree) (ps : List PlannedFile) :
    (commitAll dryRun t ps).1.map ArtifactReport.settled = ps.map PlannedFile.settled := by
  induction ps generalizing t with
  | nil => rfl
  | cons p rest ih =>
    rw [commitAll, List.map_cons, List.map_cons, ih]
    rfl

end Planned

/-! ## Pruning after a run -/

/-- What pruning does to a plain tree, if there is pruning. -/
theorem prunedBy_plain (h : t.IsPlain) (c : Config) (expected : List String) :
    ∃ paths, (∀ path ∈ paths, path ∈ candidates c.output expected t) ∧
      Deletes paths { tree := t } (prunedBy c false expected t) ∧
      (c.output.pruneStale = true → Clean c.output expected (prunedBy c false expected t).tree) := by
  unfold prunedBy
  split
  · obtain ⟨deletes, clean⟩ := prune_plain h c.output expected
    exact ⟨_, fun _ hp => hp, deletes, fun _ => clean⟩
  · rename_i hprune
    exact ⟨[], by simp, ⟨h, rfl, .refl _, .refl _ _, by simp⟩, fun hp => absurd hp hprune⟩

theorem candidate_isBelowRoot (h : t.IsPlain) {o : OutputConfig} {expected : List String}
    {path : String} (hpath : path ∈ candidates o expected t) : IsBelowRoot o.root path := by
  obtain ⟨-, -, l, content, rfl, hne, hf, -⟩ := (mem_candidates_iff h).1 hpath
  exact ⟨l, hne, fun s hs => h.isName hf s (List.mem_append_right _ hs), rfl⟩

/-- A stale file is none of the expected ones. -/
theorem destination_candidate_ne (h : t.IsPlain) {o : OutputConfig} {expected : List String}
    {path : String} (hpath : path ∈ candidates o expected t) {p : String} (hp : p ∈ expected)
    (hbelow : IsBelowRoot o.root p) : destination p ≠ destination path := by
  have hsame := hbelow.destination_inj (candidate_isBelowRoot h hpath)
  obtain ⟨-, -, l, content, rfl, -, -, hstale⟩ := (mem_candidates_iff h).1 hpath
  intro he
  rw [hsame he] at hp
  simp [isStale, List.mem_map_of_mem hp] at hstale

/-- Pruning keeps what is expected. -/
theorem Holds.prunedBy (h : t.IsPlain) {expected : List String} {path text : String}
    (hholds : Holds t path text) (hexpected : path ∈ expected)
    (hbelow : IsBelowRoot c.output.root path) :
    Holds (prunedBy c false expected t).tree path text := by
  obtain ⟨paths, hpaths, deletes, -⟩ := prunedBy_plain h c expected
  refine hholds.edits h deletes.plain deletes.edits fun hm => ?_
  obtain ⟨stale, hstale, he⟩ := List.mem_map.1 hm
  exact destination_candidate_ne h (hpaths stale hstale) hexpected hbelow he.symm

/-! ## Repeated runs -/

/-- What became of a plain tree in a run without failures. -/
structure Finished (c : Config) (backends : List Backend) (a : Analysis) (rs : List Resolved)
    (t t' : FileTree) : Prop where
  plain : t'.IsPlain
  edits : Edits (Below (destination c.output.root)) t t'
  apart : OutputApart c t'
  settled : Settled c backends a rs t'

section Generate

variable {backends : List Backend} {a : Analysis} {rs : List Resolved}

/-- The output root is reached once a planned file is, and before that if it is there. -/
theorem reached_of_holds (ho : OutputApart c t) (h' : t'.IsPlain)
    {ps : List PlannedFile} (hplaces : ∀ p ∈ ps, IsBelowRoot c.output.root p.path)
    (holds : ∀ p ∈ ps, Holds t' p.path p.text) (hnil : ps = [] → Shrinks t t') :
    OutputApart c t' := by
  refine ⟨ho.apart, fun hfound => ?_⟩
  cases ps with
  | nil =>
    have shrinks := hnil rfl
    refine shrinks.reaches_iff.2 (ho.reached ?_)
    cases hf : t'.find? (destination c.output.root) with
    | none => exact absurd hf hfound
    | some e =>
      cases e with
      | file content => simp [shrinks.files _ _ hf]
      | directory => simp [(shrinks.directories _).1 hf]
      | link target => exact absurd hf (h'.find?_ne_link _ _)
  | cons p rest =>
    have hp := hplaces p List.mem_cons_self
    refine hp.reaches ?_ ((holds_iff h').1 (holds p List.mem_cons_self)).1
    intro hroot
    exact ho.apart (by rw [hroot]; exact List.nil_prefix)

/-- After a run without failures each planned file holds its text, there is no stale file, if they
are looked for, and all that has changed is below the output root. -/
theorem generate_plain (h : t.IsPlain) (ho : OutputApart c t)
    (hplaces : ∀ p ∈ planned c backends a rs, IsBelowRoot c.output.root p.path)
    (hdistinct : ((planned c backends a rs).map (·.path)).Nodup)
    (hok : ∀ r ∈ (generate c backends false a rs t).1.artifacts, r.outcome.isFailure = false) :
    Finished c backends a rs t (generate c backends false a rs t).2 ∧
      (generate c backends false a rs t).1.faults = a.faults := by
  obtain ⟨h₁, edits₁, holds₁⟩ := commitAll_plain h (nodup_destinations hplaces hdistinct)
  have hpaths := commitAll_paths false t (planned c backends a rs)
  obtain ⟨paths, hpaths', deletes, clean⟩ :=
    prunedBy_plain h₁ c ((planned c backends a rs).map (·.path))
  have hfaults : (commitAll false t (planned c backends a rs)).1.filterMap ArtifactReport.fault?
      = [] := by
    refine List.filterMap_eq_nil_iff.2 fun r hr => ?_
    have hr := hok r hr
    unfold ArtifactReport.fault?
    split
    · rename_i ho
      rw [ho] at hr
      cases hr
    · rfl
  simp only [generate_eq, hpaths, hfaults]
  have holds : ∀ p ∈ planned c backends a rs, Holds (prunedBy c false
      ((planned c backends a rs).map (·.path)) (commitAll false t (planned c backends a rs)).2).tree
      p.path p.text := by
    intro p hp
    obtain ⟨r, hr, hpr⟩ := mem_zip_commitAll false t hp
    exact (holds₁ _ hpr (hok r hr)).prunedBy h₁ (List.mem_map_of_mem hp) (hplaces p hp)
  refine ⟨⟨deletes.plain, (edits₁.mono ?_).trans (deletes.edits.mono ?_), ?_, holds, clean⟩, ?_⟩
  · intro l hl
    obtain ⟨p, hp, rfl⟩ := List.mem_map.1 hl
    exact (hplaces p hp).destination
  · intro l hl
    obtain ⟨path, hpath, rfl⟩ := List.mem_map.1 hl
    exact (candidate_isBelowRoot h₁ (hpaths' path hpath)).destination
  · refine reached_of_holds ho deletes.plain hplaces holds fun hnil => ?_
    have shrinks := deletes.shrinks
    rw [hnil] at shrinks ⊢
    exact shrinks
  · rw [deletes.faults]
    simp

end Generate

/-- After a run that neither is stopped nor fails to write an artifact, a second one reports the
same inputs, faults and warnings, with every artifact unchanged and nothing deleted, and changes
nothing. -/
theorem run_repeat {r : Report} (h : t.IsPlain) (ho : OutputApart c t)
    (hsuffix : '/' ∉ c.output.suffix.toList)
    (hdistinct : ∀ sources, discover c t = .ok sources → (artifactPaths c.output sources).Nodup)
    (hrun : run c false t = (.ok r, t')) (hfatal : r.fatal = none)
    (hok : ∀ a ∈ r.artifacts, a.outcome.isFailure = false) :
    run c false t' =
      (.ok { r with artifacts := r.artifacts.map ArtifactReport.settled, pruned := [] }, t') := by
  rcases run_cases c t with ⟨f, hc⟩ | ⟨a, f, -, -, hc⟩ | ⟨a, backends, rs, hs, hb, hr, hc⟩
  · cases (hc false).symm.trans hrun
  · obtain ⟨hr, -⟩ := Prod.mk.inj ((hc false).symm.trans hrun)
    obtain rfl := Except.ok.inj hr
    cases hfatal
  · obtain ⟨hreport, rfl⟩ := Prod.mk.inj ((hc false).symm.trans hrun)
    obtain rfl := Except.ok.inj hreport
    obtain ⟨u, hcheck, ha⟩ := bind_eq_ok_iff.1 hs
    obtain ⟨sources, hd, -⟩ := bind_eq_ok_iff.1 ha
    have sublist : ((planned c backends a rs).map (·.path)).Sublist
        (artifactPaths c.output sources) := planned_paths_sublist hd ha
    have hplaces : ∀ p ∈ planned c backends a rs, IsBelowRoot c.output.root p.path := fun p hp =>
      artifactPath_isBelowRoot h ho hsuffix hd (sublist.subset (List.mem_map_of_mem hp))
    obtain ⟨finished, hfaults⟩ :=
      generate_plain h ho hplaces ((hdistinct sources hd).sublist sublist) hok
    have hs' : start c (generate c backends false a rs t).2 = .ok a := by
      rw [start, hcheck, ok_bind]
      exact analyze_edits h finished.plain ho finished.apart finished.edits ha
    rw [run_of_resolved hs' hb hr, finished.settled.generate_eq, ← map_settled_commitAll false t,
      hfaults]
    rfl

/-! ### A project with one header -/

/-- A header with a struct. -/
def structText : String := "STRUCT() struct S { GENERATED_BODY() };"

theorem planned_pair {ps : List PlannedFile} {x y : String} (h : ps.map (·.path) = [x, y]) :
    ∃ p q, ps = [p, q] ∧ p.path = x ∧ q.path = y := by
  obtain ⟨p, rest, rfl, hp, hrest⟩ := List.map_eq_cons_iff.1 h
  obtain ⟨q, rest, rfl, hq, hrest⟩ := List.map_eq_cons_iff.1 hrest
  obtain rfl := List.map_eq_nil_iff.1 hrest
  exact ⟨p, q, rfl, hp, hq⟩

theorem fromUTF8?_toUTF8 (text : String) : String.fromUTF8? text.toUTF8 = some text :=
  dif_pos text.isValidUTF8

theorem readText_of_read {path text : String} (h : t.read path = .ok text.toUTF8) :
    t.readText path = .ok text := by
  simp only [FileTree.readText, h, ok_bind, fromUTF8?_toUTF8]

theorem resolveFrom_of_no_bases (cs : List Container) (external : List String)
    {memo : Lineage.Memo} (hm : ∀ x ∈ memo, x.2 = []) {ds : List (Container × Nat)}
    (hb : ∀ d ∈ ds, d.1.bases = []) :
    Lineage.resolveFrom cs external memo ds = .ok (ds.map fun d => ⟨d.1, []⟩) := by
  induction ds generalizing memo with
  | nil => rfl
  | cons d rest ih =>
    obtain ⟨hd, hrest⟩ := List.forall_mem_cons.1 hb
    obtain ⟨c, place⟩ := d
    cases hl : memo.lookup place with
    | some up =>
      have hup : up = [] := by
        obtain ⟨before, behind, hmemo, -⟩ := List.lookup_eq_some_iff.1 hl
        exact hm (place, up) (by simp [hmemo])
      simp [Lineage.resolveFrom, Lineage.ancestors, Lineage.Memo.recall, hl, hup, ih hm hrest]
    | none =>
      have hm' : ∀ x ∈ (place, []) :: memo, x.2 = [] := by simpa using hm
      have hd : c.bases = [] := hd
      simp [Lineage.resolveFrom, Lineage.ancestors, Lineage.Memo.recall, hl, hd,
        Lineage.ancestorsFrom, Except.map, ih hm' hrest]

/-- Containers without bases have no ancestors. -/
theorem resolve_of_no_bases {cs : List Container} (hb : ∀ d ∈ cs, d.bases = [])
    (external : List String) : resolve cs external = .ok (cs.map fun d => ⟨d, []⟩) := by
  rw [resolve, resolveFrom_of_no_bases cs external (by simp) fun d hd =>
    hb d.1 (List.fst_mem_of_mem_zipIdx hd)]
  rw [show (fun d : Container × Nat => (⟨d.1, []⟩ : Resolved)) = (fun d => ⟨d, []⟩) ∘ Prod.fst
    from rfl, ← List.map_map, List.zipIdx_map_fst]

/-- The run of a project whose input files each declare one container without bases plans the
artifacts of all of them. -/
theorem planned_of_sources (backends : List Backend) {sources : List SourceFile}
    (hc : c.check = .ok ()) (hd : discover c t = .ok sources)
    (hm : ∀ s ∈ sources, ∃ d, (modelOf c.vocabulary t s).containers = [d] ∧ d.bases = []) :
    ∃ a rs, start c t = .ok a ∧ a.resolved c = .ok rs ∧
      (planned c backends a rs).map (·.path) = artifactPaths c.output sources := by
  have hs : start c t = .ok (.ofModels (sources.map fun s => (s, modelOf c.vocabulary t s))) := by
    simp [start, hc, analyze, hd, bind, Except.bind, pure, Except.pure]
  generalize hmodels : sources.map (fun s => (s, modelOf c.vocabulary t s)) = models at hs
  have hone : ∀ m ∈ models, ∃ d, m.2.containers = [d] ∧ d.bases = [] := by
    rw [← hmodels]
    intro m hmem
    obtain ⟨s, hsource, rfl⟩ := List.mem_map.1 hmem
    exact hm s hsource
  have hbases : ∀ d ∈ (Analysis.ofModels models).containers, d.bases = [] := by
    intro d hmem
    rw [containers_ofModels] at hmem
    obtain ⟨m, hmem, hd⟩ := List.mem_flatMap.1 hmem
    obtain ⟨d', hd', hb⟩ := hone m hmem
    rw [hd', List.mem_singleton] at hd
    rwa [hd]
  refine ⟨_, _, hs, resolve_of_no_bases hbases _, ?_⟩
  -- No file is left out, since each has a container.
  have hall : ∀ f ∈ (Analysis.ofModels models).files, f.count ≠ 0 := by
    intro f hf
    have hpair := List.mem_map_of_mem (f := fun f : AnalyzedFile => (f.source, f.count)) hf
    rw [counts_ofModels] at hpair
    obtain ⟨m, hmem, he⟩ := List.mem_map.1 hpair
    obtain ⟨d, hd, -⟩ := hone m hmem
    rw [← (Prod.mk.inj he).2, hd]
    simp
  rw [planned_paths, List.filter_eq_self.2 (by simpa using hall), files_ofModels, ← hmodels,
    List.map_map]
  congr 1
  exact List.map_id _

theorem planned_of_singleton (backends : List Backend) {s : SourceFile} {d : Container}
    (hc : c.check = .ok ()) (hd : discover c t = .ok [s])
    (hm : (modelOf c.vocabulary t s).containers = [d]) (hb : d.bases = []) :
    ∃ a rs, start c t = .ok a ∧ a.resolved c = .ok rs ∧
      (planned c backends a rs).map (·.path) = artifactPaths c.output [s] :=
  planned_of_sources backends hc hd (by simpa using ⟨d, hm, hb⟩)

/-- A header, and an output directory with a generated file that has no source. -/
def smallTree : FileTree where
  entries :=
    [(["src"], .directory), (["src", "a.h"], .file structText.toUTF8), (["out"], .directory),
      (["out", "b.gen.h"], .file Artifact.generatedMark.toUTF8)]

def smallConfig : Config where
  input := { root := "src" }
  output := { root := "out", pruneStale := true }

theorem smallTree_isPlain : smallTree.IsPlain := by
  refine ⟨by decide, by decide, ?_, ?_, ?_⟩
  · have names : ∀ l ∈ smallTree.entries.map (·.1), ∀ s ∈ l, IsName s := by decide
    exact fun e he => names e.1 (List.mem_map_of_mem he)
  · simp [smallTree, FileTree.find?, List.lookup_cons]
  · simp [smallTree]

theorem discover_small : discover smallConfig smallTree = .ok [⟨"src/a.h", "a.h"⟩] := by
  have hin : smallTree.get? smallConfig.input.root = .ok (["src"], .directory) :=
    FileTree.get?_of_isName smallTree_isPlain (by decide) rfl
  have hp : smallConfig.patterns = .ok [] := rfl
  have hfiles : smallTree.filesBelow ["src"] = [(["a.h"], structText.toUTF8)] := rfl
  have hext : hasExtension id smallConfig.input.extensions "a.h" = true := by decide
  refine discover_eq_ok_iff.2 ⟨["src"], [], hin, hp, ?_⟩
  simp only [selectedBelow_eq smallTree_isPlain.wellFormed, hfiles, isSelected,
    List.map_cons, List.map_nil, List.filter_cons, List.getLast?_singleton, Option.any_some, hext]
  simp [stages, excludedBy]
  decide

section Commits

variable {p q : PlannedFile}

theorem commitAll_small (hp : p.path = "out/a.gen.h") (hq : q.path = "out/a.gen.inl") :
    (commitAll false smallTree [p, q]).1.map (·.outcome) = [.written, .written] := by
  have hout : Path.segments "out" = ["out"] := by decide
  have hps : Path.segments "out/a.gen.h" = ["out", "a.gen.h"] := by decide
  have hqs : Path.segments "out/a.gen.inl" = ["out", "a.gen.inl"] := by decide
  have hpd : directoryOf "out/a.gen.h" = "out" := by decide
  have hqd : directoryOf "out/a.gen.inl" = "out" := by decide
  simp [commitAll, commitPlanned, commit, writeOver, smallTree, hp, hq, hout, hps, hqs, hpd, hqd,
    FileTree.read, FileTree.get?, FileTree.locate, FileTree.walk, FileTree.linkLimit,
    FileTree.find?, FileTree.createDirectories, FileTree.makeDirectories, FileTree.replace,
    FileTree.insert, FileTree.remove, List.lookup_cons, pure, Except.pure]

end Commits

theorem readText_small : smallTree.readText "src/a.h" = .ok structText := by
  have hseg : Path.segments "src/a.h" = ["src", "a.h"] := by decide
  have hread : smallTree.read "src/a.h" = .ok structText.toUTF8 := by
    simp [FileTree.read, FileTree.get?, FileTree.locate, FileTree.walk, FileTree.linkLimit,
      FileTree.find?, smallTree, hseg, List.lookup_cons]
  exact readText_of_read hread

theorem containers_small : ∃ d, (modelOf smallConfig.vocabulary smallTree
    ⟨"src/a.h", "a.h"⟩).containers = [d] ∧ d.bases = [] := by
  have hbases : (FileModel.ofSource {} "src/a.h" "a.h" structText).containers.map
      (·.bases.length) = [0] := by decide +kernel
  simpa [modelOf, readText_small, smallConfig, List.map_eq_cons_iff] using hbases

/-- The artifacts of the header are written, and a second run leaves them. -/
theorem run_repeat_small : ∃ r t', run smallConfig false smallTree = (.ok r, t') ∧
    r.artifacts.map (·.outcome) = [.written, .written] ∧
    run smallConfig false t' =
      (.ok { r with artifacts := r.artifacts.map ArtifactReport.settled, pruned := [] }, t') := by
  have hd := discover_small
  obtain ⟨d, hm, hb⟩ := containers_small
  have hbackends : smallConfig.backends = .ok [.tables, .registration] := by decide
  obtain ⟨a, rs, hs, hr, hpaths⟩ :=
    planned_of_singleton [.tables, .registration] (by decide) hd hm hb
  have hrun := run_of_resolved hs hbackends hr false
  have houtcomes : (generate smallConfig [.tables, .registration] false a rs
      smallTree).1.artifacts.map (·.outcome) = [.written, .written] := by
    obtain ⟨p, q, hplanned, hp, hq⟩ := planned_pair (hpaths.trans
      (show _ = ["out/a.gen.h", "out/a.gen.inl"] by decide))
    rw [generate_eq, hplanned]
    exact commitAll_small hp hq
  refine ⟨_, _, hrun, houtcomes, ?_⟩
  refine run_repeat smallTree_isPlain ⟨by decide, fun _ =>
    FileTree.reaches_of_isName (by decide)⟩ (by decide) ?_ hrun rfl ?_
  · intro sources hsources
    obtain rfl := Except.ok.inj (hd.symm.trans hsources)
    decide
  · intro x hx
    have hx := List.mem_map_of_mem (f := (·.outcome)) hx
    rw [houtcomes] at hx
    have hx : x.outcome = .written := by simpa using hx
    rw [hx]
    rfl

/-- A header below a directory that the path of the output root leads to, but by way of a directory
that is missing. -/
def detourTree : FileTree where
  entries :=
    [(["src"], .directory), (["src", "out"], .directory),
      (["src", "out", "a.h"], .file structText.toUTF8)]

def detourConfig : Config where
  input := { root := "src" }
  output := { root := "src/new/../out" }

theorem detourTree_isPlain : detourTree.IsPlain := by
  refine ⟨by decide, by decide, ?_, ?_, ?_⟩
  · have names : ∀ l ∈ detourTree.entries.map (·.1), ∀ s ∈ l, IsName s := by decide
    exact fun e he => names e.1 (List.mem_map_of_mem he)
  · simp [detourTree, FileTree.find?, List.lookup_cons]
  · simp [detourTree]

/-- The missing directory hides the output root, so the header in it is an input file. -/
theorem discover_detour : discover detourConfig detourTree = .ok [⟨"src/out/a.h", "out/a.h"⟩] := by
  have hin : detourTree.get? detourConfig.input.root = .ok (["src"], .directory) :=
    FileTree.get?_of_isName detourTree_isPlain (by decide) rfl
  have hseg : Path.segments detourConfig.output.root = ["src", "new", "..", "out"] := by
    decide
  have hne : detourConfig.output.root ≠ "" := by decide
  have hout : detourTree.get? detourConfig.output.root = .error .notFound := by
    simp [FileTree.get?, FileTree.locate, FileTree.walk, FileTree.find?, detourTree, hseg, hne,
      List.lookup_cons]
  have hp : detourConfig.patterns = .ok [] := rfl
  have hfiles : detourTree.filesBelow ["src"] = [(["out", "a.h"], structText.toUTF8)] := rfl
  have hext : hasExtension id detourConfig.input.extensions "a.h" = true := by decide
  have hsel : isSelected id detourConfig.input.extensions (excludedBy [])
      (leadsToOutput detourConfig detourTree ["src"]) ["out", "a.h"] = true := by
    simp [isSelected, hext, stages, List.range_succ, leadsToOutput, hout, excludedBy]
  refine discover_eq_ok_iff.2 ⟨["src"], [], hin, hp, ?_⟩
  simp only [selectedBelow_eq detourTree_isPlain.wellFormed, hfiles, List.map_cons, List.map_nil]
  simp [hsel]
  decide

/-- The tree with two artifacts of the header, and the directories on the way to them. -/
def detourTreeAfter (header inlined : ByteArray) : FileTree where
  entries :=
    [(["src", "out", "out", "a.gen.inl"], .file inlined),
      (["src", "out", "out", "a.gen.h"], .file header), (["src", "out", "out"], .directory),
      (["src", "new"], .directory), (["src"], .directory), (["src", "out"], .directory),
      (["src", "out", "a.h"], .file structText.toUTF8)]

theorem detourTreeAfter_wellFormed (header inlined : ByteArray) :
    (detourTreeAfter header inlined).WellFormed := by
  refine ⟨by simp [detourTreeAfter], by simp [detourTreeAfter], ?_, ?_⟩
  · have names : ∀ s ∈ ["src", "new", "out", "a.h", "a.gen.h", "a.gen.inl"], IsName s := by decide
    simp only [List.forall_mem_cons] at names
    simp [detourTreeAfter, names]
  · simp [detourTreeAfter, FileTree.find?, List.lookup_cons]

/-- Once the missing directory is there, the output root is found. -/
theorem discover_detourTreeAfter (header inlined : ByteArray) :
    discover detourConfig (detourTreeAfter header inlined) = .ok [] := by
  have hseg : Path.segments detourConfig.output.root = ["src", "new", "..", "out"] := by
    decide
  have hne : detourConfig.output.root ≠ "" := by decide
  have hsrc : Path.segments "src" = ["src"] := by decide
  have hin : (detourTreeAfter header inlined).get? detourConfig.input.root
      = .ok (["src"], .directory) := by
    simp [FileTree.get?, FileTree.locate, FileTree.walk, FileTree.find?, detourTreeAfter,
      detourConfig, hsrc, List.lookup_cons]
  have hout : (detourTreeAfter header inlined).get? detourConfig.output.root
      = .ok (["src", "out"], .directory) := by
    simp [FileTree.get?, FileTree.locate, FileTree.walk, FileTree.find?, detourTreeAfter, hseg,
      hne, List.lookup_cons]
  have hp : detourConfig.patterns = .ok [] := rfl
  have hfiles : ((detourTreeAfter header inlined).filesBelow ["src"]).map (·.1)
      = [["out", "out", "a.gen.inl"], ["out", "out", "a.gen.h"], ["out", "a.h"]] := rfl
  refine discover_eq_ok_iff.2 ⟨["src"], [], hin, hp, ?_⟩
  simp [selectedBelow_eq (detourTreeAfter_wellFormed header inlined), hfiles, isSelected, stages,
    List.range_succ, leadsToOutput, hout]

theorem commitAll_detour {p q : PlannedFile} (hp : p.path = "src/new/../out/out/a.gen.h")
    (hq : q.path = "src/new/../out/out/a.gen.inl") :
    (commitAll false detourTree [p, q]).1.map (·.outcome) = [.written, .written] ∧
      (commitAll false detourTree [p, q]).2
        = detourTreeAfter p.text.toUTF8 q.text.toUTF8 := by
  have hout : Path.segments "src/new/../out/out" = ["src", "new", "..", "out", "out"] := by
    decide
  have hps : Path.segments p.path = ["src", "new", "..", "out", "out", "a.gen.h"] := by
    rw [hp]
    decide
  have hqs : Path.segments q.path = ["src", "new", "..", "out", "out", "a.gen.inl"] := by
    rw [hq]
    decide
  have hpd : directoryOf p.path = "src/new/../out/out" := by
    rw [hp]
    decide
  have hqd : directoryOf q.path = "src/new/../out/out" := by
    rw [hq]
    decide
  have hpne : p.path ≠ "" := by simp [hp]
  have hqne : q.path ≠ "" := by simp [hq]
  simp [commitAll, commitPlanned, commit, writeOver, detourTree, detourTreeAfter, hout, hps, hqs,
    hpd, hqd, hpne, hqne,
    FileTree.read, FileTree.get?, FileTree.locate, FileTree.walk, FileTree.linkLimit,
    FileTree.find?, FileTree.createDirectories, FileTree.makeDirectories, FileTree.replace,
    FileTree.insert, FileTree.remove, List.lookup_cons, pure, Except.pure]

theorem containers_detour : ∃ d, (modelOf detourConfig.vocabulary detourTree
    ⟨"src/out/a.h", "out/a.h"⟩).containers = [d] ∧ d.bases = [] := by
  have hbases : (FileModel.ofSource {} "src/out/a.h" "out/a.h" structText).containers.map
      (·.bases.length) = [0] := by decide +kernel
  have hread : detourTree.readText "src/out/a.h" = .ok structText := by
    have hseg : Path.segments "src/out/a.h" = ["src", "out", "a.h"] := by decide
    refine readText_of_read ?_
    simp [FileTree.read, FileTree.get?, FileTree.locate, FileTree.walk, FileTree.linkLimit,
      FileTree.find?, detourTree, hseg, List.lookup_cons]
  simpa [modelOf, hread, detourConfig, List.map_eq_cons_iff] using hbases

/-- Where the output root is not reached at first, the second run leaves out an input file that the
first one has read. -/
theorem run_detour : detourTree.IsPlain ∧
    ¬ destination detourConfig.output.root <+: destination detourConfig.input.root ∧
    '/' ∉ detourConfig.output.suffix.toList ∧
    (∀ sources, discover detourConfig detourTree = .ok sources →
      (artifactPaths detourConfig.output sources).Nodup) ∧
    ∃ r t', run detourConfig false detourTree = (.ok r, t') ∧ r.fatal = none ∧
      r.artifacts.map (·.outcome) = [.written, .written] ∧
      ∃ r' t'', run detourConfig false t' = (.ok r', t'') ∧ r'.artifacts = [] := by
  have hd := discover_detour
  refine ⟨detourTree_isPlain, by decide, by decide, ?_, ?_⟩
  · intro sources hsources
    obtain rfl := Except.ok.inj (hd.symm.trans hsources)
    decide
  obtain ⟨d, hm, hb⟩ := containers_detour
  have hbackends : detourConfig.backends = .ok [.tables, .registration] := by decide
  obtain ⟨a, rs, hs, hr, hpaths⟩ :=
    planned_of_singleton [.tables, .registration] (by decide) hd hm hb
  obtain ⟨p, q, hplanned, hp, hq⟩ := planned_pair (hpaths.trans
    (show _ = ["src/new/../out/out/a.gen.h", "src/new/../out/out/a.gen.inl"] by decide))
  obtain ⟨houtcomes, htree⟩ := commitAll_detour hp hq
  have hrun := run_of_resolved hs hbackends hr false
  refine ⟨_, _, hrun, rfl, ?_, ?_⟩
  · rw [generate_eq, hplanned]
    exact houtcomes
  · have hafter : (generate detourConfig [.tables, .registration] false a rs detourTree).2
        = detourTreeAfter p.text.toUTF8 q.text.toUTF8 := by
      rw [generate_eq, hplanned]
      exact htree
    have hs' : start detourConfig (detourTreeAfter p.text.toUTF8 q.text.toUTF8) = .ok {} := by
      rw [start, show detourConfig.check = .ok () by decide, ok_bind, analyze,
        discover_detourTreeAfter]
      rfl
    rw [hafter]
    exact ⟨_, _, run_of_resolved hs' hbackends rfl false, rfl⟩

end HeaderReflection.Project
