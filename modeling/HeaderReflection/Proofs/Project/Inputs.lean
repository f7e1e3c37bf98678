import Mathlib.Data.List.Nodup
import Mathlib.Data.List.Perm.Basic
import HeaderReflection.Project.Analysis
import HeaderReflection.Proofs.Project.Layout
import HeaderReflection.Proofs.Project.Selection
import HeaderReflection.Proofs.Project.Writing

/-!
# Input files and changes below the output root

Nothing below the output root is an input file, so changes there leave the input files of a plain
tree as they are, with their contents.

* `selected_edits`: the same files are selected.
* `analyze_edits`: and their analysis is the same.
-/

namespace HeaderReflection.Project

open FileTree (Edits IsPlain Reaches pathBelow)
open HeaderReflection.Path (IsName destination)

variable {t t' : FileTree}

/-- A place is below another one. -/
def Below (top l : Location) : Prop := ∃ rest, rest ≠ [] ∧ l = top ++ rest

/-- The output root is neither the input root nor a directory around it. What stands where the path
of the output root leads is reached by that path. -/
structure OutputApart (c : Config) (t : FileTree) : Prop where
  apart : ¬ destination c.output.root <+: destination c.input.root
  reached : t.find? (destination c.output.root) ≠ none → t.Reaches c.output.root

/-! ## Selected files -/

/-- The files that are barred are those below the output root. -/
theorem barred_iff (h : t.IsPlain) {c : Config} (ho : OutputApart c t) {l : Location}
    {content : ByteArray} (hf : t.find? (destination c.input.root ++ l) = some (.file content)) :
    (stages l.dropLast).any (leadsToOutput c t (destination c.input.root)) = true
      ↔ Below (destination c.output.root) (destination c.input.root ++ l) := by
  rw [List.any_eq_true]
  constructor
  · rintro ⟨s, hs, hlead⟩
    obtain ⟨hne, rest, hrest⟩ := mem_stages_iff.1 hs
    unfold leadsToOutput at hlead
    split at hlead
    · rename_i hg
      obtain ⟨-, rfl, -⟩ := (FileTree.get?_eq_ok_iff h).1 hg
      have hl : l ≠ [] := by
        rintro rfl
        simp [hne] at hrest
      refine ⟨rest ++ [l.getLast hl], by simp, ?_⟩
      rw [← of_decide_eq_true hlead, List.append_assoc, ← List.append_assoc s, hrest,
        List.dropLast_append_getLast]
    · cases hlead
  · rintro ⟨rest, hrest, hl⟩
    rcases List.append_eq_append_iff.1 hl with ⟨s, hs, rfl⟩ | ⟨s, hs, -⟩
    · -- The output root is a directory on the way, since the file stands below it.
      have hd := h.ancestor hrest (hl ▸ hf)
      have hr := ho.reached (by simp [hd])
      have hne : s ≠ [] := by
        rintro rfl
        exact ho.apart ⟨[], by simpa using hs⟩
      refine ⟨s, mem_stages_iff.2 ⟨hne, ?_⟩, ?_⟩
      · rw [List.dropLast_append_of_ne_nil hrest]
        exact List.prefix_append _ _
      · rw [leadsToOutput, (FileTree.get?_eq_ok_iff h).2 ⟨hr, rfl, hd⟩]
        exact decide_eq_true hs.symm
    · exact absurd ⟨s, hs.symm⟩ ho.apart

section Selected

variable {c : Config} {excluded : String → Bool}

/-- The selected files of a configuration. -/
def selected (c : Config) (excluded : String → Bool) (t : FileTree) : List Location :=
  selectedBelow id t (destination c.input.root) c.input.extensions excluded
    (leadsToOutput c t (destination c.input.root))

theorem mem_selected_iff (h : t.IsPlain) (ho : OutputApart c t) {l : Location} :
    l ∈ selected c excluded t
      ↔ (l.getLast?.any (hasExtension id c.input.extensions) = true ∧
          ¬ (stages l).any (fun s => excluded (fileIdOf s)) = true) ∧
        ¬ Below (destination c.output.root) (destination c.input.root ++ l) ∧ l ≠ [] ∧
        ∃ content, t.find? (destination c.input.root ++ l) = some (.file content) := by
  simp only [selected, mem_selectedBelow_iff h.wellFormed, isSelected, Bool.and_eq_true,
    Bool.not_eq_true', List.map_id]
  constructor
  · rintro ⟨hne, ⟨content, hf⟩, ⟨he, hx⟩, hb⟩
    refine ⟨⟨he, by simp [hx]⟩, fun hbelow => ?_, hne, content, hf⟩
    rw [(barred_iff h ho hf).2 hbelow] at hb
    cases hb
  · rintro ⟨⟨he, hx⟩, hb, hne, content, hf⟩
    refine ⟨hne, ⟨content, hf⟩, ⟨he, by simpa using hx⟩, ?_⟩
    exact Bool.eq_false_iff.2 (mt (barred_iff h ho hf).1 hb)

theorem selected_names (h : t.IsPlain) {l : Location} (hl : l ∈ selected c excluded t) :
    l ≠ [] ∧ ∀ s ∈ l, IsName s :=
  selectedBelow_names h.wellFormed hl

theorem nodup_selected (h : t.IsPlain) : (selected c excluded t).Nodup :=
  nodup_selectedBelow h.wellFormed

/-- Changes below the output root leave the selected files as they are. -/
theorem selected_edits (h : t.IsPlain) (h' : t'.IsPlain) (ho : OutputApart c t)
    (ho' : OutputApart c t') (edits : Edits (Below (destination c.output.root)) t t') :
    selected c excluded t' = selected c excluded t := by
  have perm : (selected c excluded t').Perm (selected c excluded t) := by
    rw [List.perm_ext_iff_of_nodup (nodup_selected h') (nodup_selected h)]
    intro l
    rw [mem_selected_iff h' ho', mem_selected_iff h ho]
    refine and_congr_right fun _ => and_congr_right fun hb => and_congr_right fun _ => ?_
    exact exists_congr fun content => edits.files _ hb content
  exact eq_of_perm_of_sorted perm (fun l hl => selected_names h' hl) sorted_selectedBelow
    sorted_selectedBelow

end Selected

/-! ## Analyses -/

/-- The input files of a plain tree. -/
theorem discover_eq_ok (h : t.IsPlain) {c : Config} {sources : List SourceFile}
    (hd : discover c t = .ok sources) :
    t.Reaches c.input.root ∧ t.find? (destination c.input.root) = some .directory ∧
      ∃ patterns, c.patterns = .ok patterns ∧
        sources = (selected c (excludedBy (patterns.map Pattern.matchesIn)) t).map fun l =>
          ⟨pathBelow c.input.root l, fileIdOf l⟩ := by
  obtain ⟨top, patterns, hg, hp, rfl⟩ := discover_eq_ok_iff.1 hd
  obtain ⟨hr, rfl, hdir⟩ := (FileTree.get?_eq_ok_iff h).1 hg
  exact ⟨hr, hdir, patterns, hp, rfl⟩

section Analyses

variable {c : Config} (h : t.IsPlain) (h' : t'.IsPlain) (ho : OutputApart c t)
  (ho' : OutputApart c t') (edits : Edits (Below (destination c.output.root)) t t')

include h h' ho ho' edits

/-- Changes below the output root leave the input files as they are. -/
theorem discover_edits {sources : List SourceFile} (hd : discover c t = .ok sources) :
    discover c t' = .ok sources := by
  obtain ⟨hr, hdir, patterns, hp, rfl⟩ := discover_eq_ok h hd
  have hg := (FileTree.get?_eq_ok_iff h').2 ⟨edits.reaches hr, rfl, edits.directories _ hdir⟩
  refine discover_eq_ok_iff.2 ⟨_, patterns, hg, hp, ?_⟩
  exact congrArg _ (selected_edits h h' ho ho' edits)

omit ho' in
/-- They leave the contents of the input files as they are. -/
theorem modelOf_edits {sources : List SourceFile} (hd : discover c t = .ok sources)
    {s : SourceFile} (hs : s ∈ sources) : modelOf c.vocabulary t' s = modelOf c.vocabulary t s := by
  obtain ⟨hr, hdir, patterns, hp, rfl⟩ := discover_eq_ok h hd
  obtain ⟨l, hl, rfl⟩ := List.mem_map.1 hs
  obtain ⟨-, hb, -, content, hf⟩ := (mem_selected_iff h ho).1 hl
  have hnames := (selected_names h hl).2
  have hreach := FileTree.reaches_pathBelow h hr hf
  have hdest := FileTree.destination_pathBelow c.input.root hnames
  have hread : t.read (pathBelow c.input.root l) = .ok content :=
    (FileTree.read_eq_ok_iff h).2 ⟨hreach, hdest ▸ hf⟩
  have hread' : t'.read (pathBelow c.input.root l) = .ok content :=
    (FileTree.read_eq_ok_iff h').2
      ⟨edits.reaches hreach, hdest ▸ (edits.files _ hb content).2 hf⟩
  simp only [modelOf, FileTree.readText, hread, hread']

/-- They leave the analysis of the input files as it is. -/
theorem analyze_edits {a : Analysis} (ha : analyze c t = .ok a) : analyze c t' = .ok a := by
  obtain ⟨sources, hd, hof⟩ := bind_eq_ok_iff.1 ha
  have models : sources.map (fun s => (s, modelOf c.vocabulary t' s))
      = sources.map fun s => (s, modelOf c.vocabulary t s) :=
    List.map_congr_left fun s hs => by rw [modelOf_edits h h' ho edits hd hs]
  rw [analyze, discover_edits h h' ho ho' edits hd, ok_bind, models]
  exact hof

end Analyses

/-- The files of an analysis are the input files, with the numbers of their containers. -/
theorem counts_ofModels (models : List (SourceFile × FileModel)) :
    (Analysis.ofModels models).files.map (fun f => (f.source, f.count))
      = models.map fun m => (m.1, m.2.containers.length) := by
  have add (a : Analysis) : (models.foldl (fun a m => a.add m.1 m.2) a).files.map
      (fun f => (f.source, f.count))
        = a.files.map (fun f => (f.source, f.count))
          ++ models.map fun m => (m.1, m.2.containers.length) := by
    induction models generalizing a with
    | nil => simp
    | cons m models ih =>
      rw [List.foldl_cons, ih]
      simp [Analysis.add]
  simpa [Analysis.ofModels] using add {}

theorem files_ofModels (models : List (SourceFile × FileModel)) :
    (Analysis.ofModels models).files.map (·.source) = models.map (·.1) := by
  have h := congrArg (List.map Prod.fst) (counts_ofModels models)
  rw [List.map_map, List.map_map] at h
  exact h

/-- The containers of an analysis are those of the input files. -/
theorem containers_ofModels (models : List (SourceFile × FileModel)) :
    (Analysis.ofModels models).containers = models.flatMap fun m => m.2.containers := by
  have add (a : Analysis) : (models.foldl (fun a m => a.add m.1 m.2) a).containers
      = a.containers ++ models.flatMap fun m => m.2.containers := by
    induction models generalizing a with
    | nil => simp
    | cons m models ih =>
      rw [List.foldl_cons, ih]
      simp [Analysis.add]
  simpa [Analysis.ofModels] using add {}

end HeaderReflection.Project
