import HeaderReflection.Proofs.Project.Distinct
import HeaderReflection.Proofs.Project.Pruning

/-!
# Clean output trees

The artifacts of a run have the names and the texts that pruning takes for those of generated files,
and their paths are the expected ones. So pruning leaves the artifacts of the run, and no other
generated file.

* `commitAll_wellFormed`: what a run writes, it writes into well-formed trees.
* `planned_generated`: the artifacts look generated, and where they stand.
* `prune_exact`: what pruning does to a tree, and what is below the output root after a run.
-/

namespace HeaderReflection

namespace FileTree

open HeaderReflection.Path (IsName)

variable {base : String} {l m : Location}

/-- The steps of a path with names behind it. -/
theorem parts_pathBelow (base : String) (hnames : ∀ s ∈ l, IsName s) (hl : l ≠ []) :
    Path.parts (pathBelow base l) = Path.parts base ++ l.map .name := by
  have habsolute := Path.isAbsolute_names hnames
  have hhere : (Path.segments ("/".intercalate l)).head? ≠ some "." := by
    rw [Path.segments_names hnames hl]
    exact Project.head?_names_ne hnames
  rw [← join_names base hnames hl, Path.parts_join base habsolute hhere,
    Path.segments_names hnames hl, Project.filterMap_partOf?_names hnames]

/-- Names behind a path are told from its steps. -/
theorem eq_of_parts_pathBelow (hl : l ≠ []) (hm : m ≠ []) (hlnames : ∀ s ∈ l, IsName s)
    (hmnames : ∀ s ∈ m, IsName s)
    (h : Path.parts (pathBelow base l) = Path.parts (pathBelow base m)) : l = m := by
  rw [parts_pathBelow base hlnames hl, parts_pathBelow base hmnames hm,
    List.append_cancel_left_eq] at h
  exact (List.map_injective_iff.2 fun _ _ hs => Path.Part.name.inj hs) h

end FileTree

namespace Project

open FileTree (SameWays WellFormed pathBelow)
open HeaderReflection.Path (IsName)

variable {t : FileTree} {c : Config} {a : Analysis} {backends : List Backend} {rs : List Resolved}

/-! ## Writing into well-formed trees -/

theorem writeOver_wellFormed (h : t.WellFormed) (path : String) (bytes : ByteArray) :
    (writeOver t path bytes).2.WellFormed := by
  have hmade := FileTree.createDirectories_wellFormed h (directoryOf path)
  unfold writeOver
  split
  · rename_i hmake
    rwa [hmake] at hmade
  · rename_i made hmake
    rw [hmake] at hmade
    split
    · exact hmade
    · rename_i hput
      exact FileTree.replace_wellFormed hmade hput

theorem commit_wellFormed (h : t.WellFormed) (path text : String) :
    (commit false t path text).2.WellFormed := by
  by_cases hh : Holds t path text
  · rwa [commit_of_holds hh]
  · rcases commit_of_not_holds hh false with hc | ⟨reason, hc⟩
    · rw [hc]
      exact writeOver_wellFormed h path _
    · rwa [hc]

theorem commitAll_wellFormed (h : t.WellFormed) (ps : List PlannedFile) :
    (commitAll false t ps).2.WellFormed := by
  induction ps generalizing t with
  | nil => exact h
  | cons p rest ih => exact ih (commit_wellFormed h p.path p.text)

/-! ## Artifacts look generated -/

theorem exists_lines_append (mark behind : String) (ls : List String) (more : String) :
    ∃ rest, lines ((mark ++ behind) :: ls) ++ more = mark ++ rest :=
  ⟨behind ++ "\n" ++ lines ls ++ more, by simp [lines, String.join_cons, String.append_assoc]⟩

/-- The text of an artifact starts with the mark. -/
theorem exists_part_generate (backends : List Backend) (options : GenerationOptions)
    (fileId : String) (rs : List Resolved) (part : ArtifactPart) :
    ∃ rest, (Artifact.generate backends options fileId rs).part part =
      Artifact.generatedMark ++ rest := by
  have first : Artifact.generatedMark ++ " from " ++ fileId ++ ". Do not edit." =
      Artifact.generatedMark ++ (" from " ++ fileId ++ ". Do not edit.") := by
    simp only [String.append_assoc]
  cases part with
  | header =>
    rw [Artifact.part, Artifact.generate, Artifact.headerOpening, first]
    exact exists_lines_append ..
  | inlined =>
    rw [Artifact.part, Artifact.generate, Artifact.inlinedOpening, first]
    exact exists_lines_append ..

/-- The artifacts stand below the output root, with the names and the texts of generated files. -/
theorem planned_generated (h : t.WellFormed) (hsuffix : '/' ∉ c.output.suffix.toList)
    (ha : analyze c t = .ok a) {p : PlannedFile} (hp : p ∈ planned c backends a rs) :
    ∃ directory name, (∀ s ∈ directory ++ [name], IsName s) ∧
      p.path = pathBelow c.output.root (directory ++ [name]) ∧
      IsGenerated c.output.suffix name p.text.toUTF8 := by
  obtain ⟨sources, hd, -⟩ := bind_eq_ok_iff.1 ha
  obtain ⟨f, hf, hpart⟩ := List.mem_flatMap.1 hp
  obtain ⟨part, -, rfl⟩ := List.mem_map.1 hpart
  have hsource : f.source ∈ sources := by
    rw [← sources_of_analyze hd ha]
    exact List.mem_map_of_mem (List.mem_filter.1 hf).1
  obtain ⟨directory, stem, e, hinput⟩ := isInput_of_discover h.names hd hsource
  obtain ⟨hname, hpath⟩ := hinput.artifactPath_eq hsuffix part
  obtain ⟨x, hx, -⟩ := hinput.extension part
  obtain ⟨rest, htext⟩ := exists_part_generate backends c.codegen.options f.source.fileId
    (f.slice rs) part
  refine ⟨directory, _, ?_, hpath, .inr ⟨stem, x, hinput.artifactName_eq hx⟩, rest, ?_⟩
  · exact List.forall_mem_append.2 ⟨hinput.names, by simpa using hname⟩
  · rw [fromUTF8?_toUTF8, htext]

/-! ## What pruning leaves -/

section Prune

variable {o : OutputConfig} {expected : List String} {top l : Location}

/-- A suffix that the name of a file has in it is in one piece. -/
theorem IsGenerated.suffix_no_slash {suffix name : String} {content : ByteArray}
    (hg : IsGenerated suffix name content) (hname : IsName name) : '/' ∉ suffix.toList := by
  have hslash := hname.no_slash
  rcases hg.named with ⟨stem, rfl⟩ | ⟨before, behind, rfl⟩
  · simp only [String.toList_append, List.mem_append, not_or] at hslash
    exact hslash.2
  · simp only [String.toList_append, List.mem_append, not_or] at hslash
    exact hslash.1.1.2

/-- What pruning does to a tree where the output root leads to a directory: it deletes the stale
files, tells their paths in the order of their locations, and leaves everything else. A dry run
tells the same paths and deletes nothing. -/
structure PrunesExactly (o : OutputConfig) (expected : List String) (t : FileTree)
    (top : Location) (stale : List Location) : Prop where
  stale_iff : ∀ l, l ∈ stale ↔ Stale o expected t top l
  sorted : stale.Pairwise (· < ·)
  removed : ∀ dryRun, (prune o dryRun expected t).removed = stale.map (pathBelow o.root)
  faults : ∀ dryRun, (prune o dryRun expected t).faults = []
  dry : (prune o true expected t).tree = t
  gone : ∀ l ∈ stale, (prune o false expected t).tree.find? (top ++ l) = none
  kept : ∀ m, (∀ l ∈ stale, m ≠ top ++ l) →
    (prune o false expected t).tree.find? m = t.find? m
  root : (prune o false expected t).tree.get? o.root = .ok (top, .directory)
  no_more : ∀ l, ¬ Stale o expected (prune o false expected t).tree top l

theorem prunesExactly (h : t.WellFormed) (hroot : t.get? o.root = .ok (top, .directory)) :
    PrunesExactly o expected t top (staleBelow t top o.suffix o.root expected) := by
  have sweeps := prune_sweeps h hroot expected
  have dry := prune_dry h hroot expected
  constructor
  · exact fun l => mem_staleBelow_iff h
  · exact sorted_staleBelow h top o.suffix o.root expected
  · rintro (_ | _)
    · exact sweeps.removed.trans (List.nil_append _)
    · rw [dry]
  · rintro (_ | _)
    · exact sweeps.faults
    · rw [dry]
  · rw [dry]
  · exact sweeps.gone
  · exact sweeps.kept
  · exact sweeps.ways.get?_directory_iff.2 hroot
  · exact sweeps.not_stale h

theorem sameWays_prune (h : t.WellFormed) (o : OutputConfig) (expected : List String) :
    SameWays t (prune o false expected t).tree := by
  by_cases hroot : ∃ top, t.get? o.root = .ok (top, .directory)
  · obtain ⟨top, hroot⟩ := hroot
    exact (prune_sweeps h hroot expected).ways
  · rw [prune_of_not_directory (not_exists.1 hroot)]
    exact .refl t

/-- No expected path is among those of the deleted files. -/
theorem parts_ne_of_mem_removed (h : t.WellFormed) {path other : String}
    (hpath : path ∈ (prune o false expected t).removed) (hother : other ∈ expected) :
    Path.parts path ≠ Path.parts other := by
  by_cases hroot : ∃ top, t.get? o.root = .ok (top, .directory)
  · obtain ⟨top, hroot⟩ := hroot
    rw [(prune_sweeps h hroot expected).removed, List.nil_append] at hpath
    obtain ⟨l, hl, rfl⟩ := List.mem_map.1 hpath
    exact (((mem_staleBelow_iff h).1 hl).unexpected other hother).symm
  · rw [prune_of_not_directory (not_exists.1 hroot)] at hpath
    cases hpath

/-- A generated file that pruning leaves has an expected path. -/
theorem mem_expected_of_generated (h : t.WellFormed)
    (hplaces : '/' ∉ o.suffix.toList → ∀ path ∈ expected, IsBelowRoot o.root path)
    (hroot : (prune o false expected t).tree.get? o.root = .ok (top, .directory)) {name : String}
    {content : ByteArray} (hlast : l.getLast? = some name)
    (hf : (prune o false expected t).tree.find? (top ++ l) = some (.file content))
    (hg : IsGenerated o.suffix name content) :
    pathBelow o.root l ∈ expected ∧
      (prune o false expected t).tree.get? (pathBelow o.root l) =
        .ok (top ++ l, .file content) := by
  have sweeps :=
    prune_sweeps h ((sameWays_prune h o expected).get?_directory_iff.1 hroot) expected
  have h' := sweeps.wellFormed
  have hne : l ≠ [] := by
    rintro rfl
    cases hlast
  have hnames := h'.isName_below hf
  have hsuffix := hg.suffix_no_slash (hnames name (List.mem_of_getLast? hlast))
  refine ⟨?_, FileTree.get?_pathBelow hroot h' hne hf (by simp)⟩
  by_contra hexpected
  refine sweeps.not_stale h l ⟨hne, fun stage => h'.directory_of_prefix hf,
    ⟨name, content, hlast, hf, hg⟩, fun path hp he => ?_⟩
  obtain ⟨m, hm, hmnames, rfl⟩ := hplaces hsuffix path hp
  exact hexpected (FileTree.eq_of_parts_pathBelow hm hne hmnames hnames he ▸ hp)

/-- Pruning leaves what expected paths lead to, if no link is below the output root. -/
theorem get?_prune_of_expected (h : t.WellFormed)
    (hplaces : '/' ∉ o.suffix.toList → ∀ path ∈ expected, IsBelowRoot o.root path)
    (hlinks : ∀ top l target,
      (prune o false expected t).tree.get? o.root = .ok (top, .directory) →
        (prune o false expected t).tree.find? (top ++ l) ≠ some (.link target))
    {path : String} (hp : path ∈ expected) {place : Location × Entry}
    (hget : t.get? path = .ok place) : (prune o false expected t).tree.get? path = .ok place := by
  by_cases hdirectory : ∃ top, t.get? o.root = .ok (top, .directory)
  · obtain ⟨top, hroot⟩ := hdirectory
    have sweeps := prune_sweeps h hroot expected
    have hroot' := sweeps.ways.get?_directory_iff.2 hroot
    obtain ⟨place, e⟩ := place
    obtain ⟨hlocate, hf⟩ := FileTree.get?_eq_ok.1 hget
    refine FileTree.get?_eq_ok.2 ⟨sweeps.ways.locate_ok hlocate, ?_⟩
    rw [sweeps.kept place fun l hl hplace => ?_]
    · exact hf
    · have hs := (mem_staleBelow_iff h).1 hl
      obtain ⟨name, content, hlast, hcontent, hg⟩ := hs.generated
      have hname := h.isName_below hcontent name (List.mem_of_getLast? hlast)
      have hsuffix := hg.suffix_no_slash hname
      obtain ⟨m, hm, hmnames, rfl⟩ := hplaces hsuffix path hp
      obtain ⟨left, hleft⟩ := FileTree.exists_locate_pathBelow hroot hmnames hm
      rw [hleft] at hlocate
      have hdown := FileTree.eq_of_walk_names hmnames (fun stage _ target hlink =>
        hlinks top stage target hroot' ((sweeps.ways.links _ _).2 hlink)) hlocate
      obtain rfl := List.append_cancel_left (hplace.symm.trans hdown)
      exact hs.unexpected _ hp rfl
  · rwa [prune_of_not_directory (not_exists.1 hdirectory)]

end Prune

/-! ## What a run leaves -/

/-- What a run that prunes its output root leaves there: the only generated files are its artifacts,
and all of them are left, if there are no links. A tree in which they have been written has what
their paths lead to. Each artifact looks generated itself, unless the suffix has slashes: then no
file does. -/
structure LeavesArtifacts (c : Config) (ps : List PlannedFile) (written : FileTree) (r : Report)
    (t' : FileTree) : Prop where
  only : ∀ top l name content, t'.get? c.output.root = .ok (top, .directory) →
    l.getLast? = some name → t'.find? (top ++ l) = some (.file content) →
    IsGenerated c.output.suffix name content →
      ∃ x ∈ r.artifacts, t'.get? x.path = .ok (top ++ l, .file content)
  apart : ∀ path ∈ r.pruned, ∀ x ∈ r.artifacts, Path.parts path ≠ Path.parts x.path
  kept : (∀ top l target, t'.get? c.output.root = .ok (top, .directory) →
      t'.find? (top ++ l) ≠ some (.link target)) →
    ∀ x ∈ r.artifacts, ∀ place, written.get? x.path = .ok place → t'.get? x.path = .ok place
  recognised : '/' ∉ c.output.suffix.toList → ∀ p ∈ ps, ∃ directory name,
    p.path = pathBelow c.output.root (directory ++ [name]) ∧
      IsGenerated c.output.suffix name p.text.toUTF8

/-- Pruning after the artifacts have been written. -/
theorem leavesArtifacts (h : t.WellFormed) (ha : analyze c t = .ok a)
    (hp : c.output.pruneStale = true) :
    LeavesArtifacts c (planned c backends a rs) (commitAll false t (planned c backends a rs)).2
      (generate c backends false a rs t).1 (generate c backends false a rs t).2 := by
  have h₁ := commitAll_wellFormed h (planned c backends a rs)
  have hpaths := commitAll_paths false t (planned c backends a rs)
  have hplaces : '/' ∉ c.output.suffix.toList →
      ∀ path ∈ (planned c backends a rs).map (·.path), IsBelowRoot c.output.root path := by
    intro hsuffix path hpath
    obtain ⟨p, hp, rfl⟩ := List.mem_map.1 hpath
    obtain ⟨directory, name, hnames, hbelow, -⟩ := planned_generated h hsuffix ha hp
    exact ⟨_, by simp, hnames, hbelow⟩
  have expected {path : String} : path ∈ (planned c backends a rs).map (·.path) ↔
      ∃ x ∈ (commitAll false t (planned c backends a rs)).1, x.path = path := by
    rw [← hpaths, List.mem_map]
  simp only [generate_eq, prunedBy, hp, if_true, hpaths]
  constructor
  · intro top l name content hroot hlast hf hg
    obtain ⟨hmem, hget⟩ := mem_expected_of_generated h₁ hplaces hroot hlast hf hg
    obtain ⟨x, hx, hpath⟩ := expected.1 hmem
    exact ⟨x, hx, hpath ▸ hget⟩
  · intro path hpath x hx
    exact parts_ne_of_mem_removed h₁ hpath (expected.2 ⟨x, hx, rfl⟩)
  · intro hlinks x hx place hget
    exact get?_prune_of_expected h₁ hplaces hlinks (expected.2 ⟨x, hx, rfl⟩) hget
  · intro hsuffix p hp
    obtain ⟨directory, name, -, hpath, hg⟩ := planned_generated h hsuffix ha hp
    exact ⟨directory, name, hpath, hg⟩

/-- **Pruning is exact, and keeps what a run has made.** In a well-formed tree, whatever links it
has, pruning deletes the stale files and nothing else. So after a run that comes to its artifacts,
which are the expected ones, no other generated file is left below the output root. -/
theorem prune_exact (h : t.WellFormed) :
    (∀ (o : OutputConfig) (expected : List String) (top : Location),
      t.get? o.root = .ok (top, .directory) → ∃ stale, PrunesExactly o expected t top stale) ∧
    (∀ (o : OutputConfig) (expected : List String) (dryRun : Bool),
      (∀ top, t.get? o.root ≠ .ok (top, .directory)) →
        prune o dryRun expected t = { tree := t }) ∧
    ∀ (c : Config) (a : Analysis) (backends : List Backend) (rs : List Resolved),
      start c t = .ok a → c.backends = .ok backends → a.resolved c = .ok rs →
      c.output.pruneStale = true →
        ∃ r t', run c false t = (.ok r, t') ∧
          LeavesArtifacts c (planned c backends a rs)
            (commitAll false t (planned c backends a rs)).2 r t' := by
  refine ⟨fun o expected top hroot => ⟨_, prunesExactly h hroot⟩,
    fun o expected dryRun hroot => prune_of_not_directory hroot dryRun,
    fun c a backends rs hs hb hr hp => ?_⟩
  obtain ⟨_, -, ha⟩ := bind_eq_ok_iff.1 hs
  exact ⟨_, _, run_of_resolved hs hb hr false, leavesArtifacts h ha hp⟩

/-- An output directory with a generated file, a file with such a name that was written by hand, and
a link to a directory with a generated file. -/
def crowdedTree : FileTree where
  entries :=
    [(["out"], .directory), (["out", "b.gen.h"], .file Artifact.generatedMark.toUTF8),
      (["out", "notes.gen.h"], .file "// Notes".toUTF8), (["out", "linked"], .link "../kept"),
      (["kept"], .directory), (["kept", "c.gen.h"], .file Artifact.generatedMark.toUTF8)]

theorem crowdedTree_wellFormed : crowdedTree.WellFormed := by
  refine ⟨by decide, by decide, ?_, ?_⟩
  · have names : ∀ l ∈ crowdedTree.entries.map (·.1), ∀ s ∈ l, IsName s := by decide
    exact fun e he => names e.1 (List.mem_map_of_mem he)
  · simp [crowdedTree, FileTree.find?, List.lookup_cons]

theorem stale_crowded : Stale smallConfig.output [] crowdedTree ["out"] ["b.gen.h"] where
  below := by simp
  directories stage := crowdedTree_wellFormed.directory_of_prefix (e := .file _) rfl
  generated := ⟨"b.gen.h", Artifact.generatedMark.toUTF8, rfl, rfl,
    isGenerated_iff.2 ⟨by decide, isMarkedGenerated_iff.2 ⟨"", by rw [fromUTF8?_toUTF8]; rfl⟩⟩⟩
  unexpected := by simp

theorem not_stale_crowded : ¬ Stale smallConfig.output [] crowdedTree ["out"] ["notes.gen.h"] ∧
    ¬ Stale smallConfig.output [] crowdedTree ["out"] ["linked", "c.gen.h"] := by
  constructor
  · intro hs
    obtain ⟨name, content, -, hf, -, rest, hrest⟩ := hs.generated
    obtain rfl : "// Notes".toUTF8 = content := by
      simpa [crowdedTree, FileTree.find?, List.lookup_cons] using hf
    rw [fromUTF8?_toUTF8, Option.some_inj, ← String.toList_inj] at hrest
    simp [Artifact.generatedMark] at hrest
  · intro hs
    have hd := hs.directories ["linked"] ⟨["c.gen.h"], rfl⟩ (by simp)
    simp [crowdedTree, FileTree.find?, List.lookup_cons] at hd

theorem prune_exact_crowded :
    (crowdedTree.WellFormed ∧
      crowdedTree.get? smallConfig.output.root = .ok (["out"], .directory) ∧
      ∃ stale, PrunesExactly smallConfig.output [] crowdedTree ["out"] stale ∧
        ["b.gen.h"] ∈ stale ∧ ["notes.gen.h"] ∉ stale ∧ ["linked", "c.gen.h"] ∉ stale) ∧
    smallTree.WellFormed ∧ ∃ a rs, start smallConfig smallTree = .ok a ∧
      a.resolved smallConfig = .ok rs ∧
      ∃ r t', run smallConfig false smallTree = (.ok r, t') ∧
        LeavesArtifacts smallConfig (planned smallConfig [.tables, .registration] a rs)
          (commitAll false smallTree (planned smallConfig [.tables, .registration] a rs)).2
          r t' := by
  have hout : Path.segments "out" = ["out"] := by decide
  have hroot : crowdedTree.get? smallConfig.output.root = .ok (["out"], .directory) := by
    simp [FileTree.get?, FileTree.locate, FileTree.walk, FileTree.find?, crowdedTree, smallConfig,
      hout, List.lookup_cons]
  obtain ⟨hprune, -, -⟩ := prune_exact crowdedTree_wellFormed
  obtain ⟨stale, exactly⟩ := hprune smallConfig.output [] ["out"] hroot
  refine ⟨⟨crowdedTree_wellFormed, hroot, stale, exactly, ?_, ?_, ?_⟩, ?_⟩
  · exact (exactly.stale_iff _).2 stale_crowded
  · exact fun hm => not_stale_crowded.1 ((exactly.stale_iff _).1 hm)
  · exact fun hm => not_stale_crowded.2 ((exactly.stale_iff _).1 hm)
  · have hsmall := smallTree_isPlain.wellFormed
    obtain ⟨d, hm, hb⟩ := containers_small
    have hbackends : smallConfig.backends = .ok [.tables, .registration] := by decide
    obtain ⟨a, rs, hs, hr, -⟩ :=
      planned_of_singleton [.tables, .registration] (by decide) discover_small hm hb
    obtain ⟨-, -, hrun⟩ := prune_exact hsmall
    exact ⟨hsmall, a, rs, hs, hr, hrun smallConfig a _ rs hs hbackends hr rfl⟩

end Project

end HeaderReflection
