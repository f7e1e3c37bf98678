import HeaderReflection.Project.Discover
import HeaderReflection.Project.Layout
import HeaderReflection.Proofs.FileTree.Paths

/-!
# The places of generated files

A generated file stands below the output root, in the directory that its input file has below the
input root.

* `artifactPath_fileIdOf`: the path of a generated file is the output root with names behind it.
* `isName_artifactName`: the last of them is a name.
* `fileIdOf_injective`: input files at different places have different identifiers.
-/

namespace HeaderReflection.Project

open FileTree (pathBelow)
open HeaderReflection.Path (IsName)

/-! ## Identifiers -/

section Identifiers

variable {l : Location} (h : ∀ s ∈ l, IsName s)

include h

theorem fileIdOf_injective {m : Location} (hm : ∀ s ∈ m, IsName s) (hl : l ≠ []) (hmne : m ≠ [])
    (he : fileIdOf l = fileIdOf m) : l = m := by
  have hs := Path.segments_names h hl
  rw [show "/".intercalate l = "/".intercalate m from he, Path.segments_names hm hmne] at hs
  exact hs.symm

theorem filterMap_partOf?_names : l.filterMap Path.partOf? = l.map .name := by
  induction l with
  | nil => rfl
  | cons s l ih =>
    have hs := h s List.mem_cons_self
    have hp : Path.partOf? s = some (.name s) := by
      simp [Path.partOf?, hs.ne_empty, hs.ne_here, hs.ne_up]
    rw [List.filterMap_cons_some hp, List.map_cons, ih fun x hx => h x (List.mem_cons_of_mem _ hx)]

theorem head?_names_ne : l.head? ≠ some "." :=
  fun he => (h "." (List.mem_of_mem_head? he)).ne_here rfl

theorem parts_fileIdOf (hl : l ≠ []) : Path.parts (fileIdOf l) = l.map .name := by
  rw [Path.parts, fileIdOf, Path.segments_names h hl, Path.isAbsolute_names h,
    filterMap_partOf?_names h]
  simp [head?_names_ne h]

theorem fileName?_fileIdOf : Path.fileName? (fileIdOf l) = l.getLast? := by
  by_cases hl : l = []
  · subst hl
    rfl
  · rw [Path.fileName?, parts_fileIdOf h hl, List.getLast?_map]
    cases l.getLast? <;> rfl

theorem dropIdle_of_names : Path.dropIdle l = l := by
  match l with
  | [] => rfl
  | [s] => simp [Path.dropIdle, (h s List.mem_cons_self).ne_empty]
  | s :: r :: rest =>
    have hs := h s List.mem_cons_self
    simp [Path.dropIdle, Path.isIdle, hs.ne_empty, hs.ne_here]

theorem parent?_fileIdOf (hl : l ≠ []) : Path.parent? (fileIdOf l) = some (fileIdOf l.dropLast) := by
  obtain ⟨directory, s, rfl⟩ := (List.eq_nil_or_concat l).resolve_left hl
  have hr : ∀ x ∈ s :: directory.reverse, IsName x := by
    simpa [or_imp, forall_and, and_comm] using h
  have hd := dropIdle_of_names hr
  have hd' := dropIdle_of_names fun x hx => hr x (List.mem_cons_of_mem _ hx)
  rw [Path.parent?, fileIdOf, Path.isAbsolute_names h, Path.segments_names h hl]
  simp [hd, hd', fileIdOf]

end Identifiers

/-! ## Names of generated files -/

/-- A name that has an extension is its stem and its extension with a point between them. -/
theorem splitExtension_name {name stem e : String}
    (h : Path.splitExtension name = (stem, some e)) :
    name = stem ++ "." ++ e ∧ stem ≠ "" := by
  have hsplit := List.takeWhile_append_dropWhile (p := (· ≠ '.')) (l := name.toList.reverse)
  have hpoint : ∀ c ∈ (name.toList.reverse.dropWhile (· ≠ '.')).head?, c = '.' := by
    intro c hc
    have hnot := List.head?_dropWhile_not (· ≠ '.') name.toList.reverse
    rw [Option.mem_def.1 hc] at hnot
    simpa using hnot
  unfold Path.splitExtension at h
  dsimp only at h
  generalize name.toList.reverse.takeWhile (· ≠ '.') = extension at h hsplit
  generalize name.toList.reverse.dropWhile (· ≠ '.') = before at h hsplit hpoint
  match before with
  | [] => cases h
  | c :: before =>
    dsimp only at h
    split at h
    · cases h
    · rename_i hbefore
      obtain ⟨rfl, he⟩ := Prod.mk.inj h
      obtain rfl := Option.some.inj he
      obtain rfl := hpoint c rfl
      refine ⟨?_, by simpa using hbefore⟩
      rw [← String.toList_inj, ← List.reverse_inj, ← hsplit]
      simp

/-- A text with a point between a text that is not empty and a text with a point. -/
theorem isName_of_points {x y z : String} (hx : x ≠ "")
    (hslash : '/' ∉ (x ++ "." ++ y ++ "." ++ z).toList) :
    IsName (x ++ "." ++ y ++ "." ++ z) := by
  have hlen : 3 ≤ (x ++ "." ++ y ++ "." ++ z).toList.length := by
    have hpos : x.toList.length ≠ 0 := by simpa using hx
    simp only [String.toList_append, List.length_append]
    have hdot : ".".toList.length = 1 := rfl
    omega
  refine ⟨?_, ?_, ?_, hslash⟩ <;>
    · intro he
      rw [he] at hlen
      exact absurd hlen (by decide)

theorem exists_splitExtension {decode : String → String} {extensions : List String} {name : String}
    (h : hasExtension decode extensions name = true) :
    ∃ stem e, Path.splitExtension name = (stem, some e) := by
  rcases hsplit : Path.splitExtension name with ⟨stem, _ | e⟩
  · simp [hasExtension, hsplit] at h
  · exact ⟨stem, e, rfl⟩

/-- The name of a generated file, for an input file whose name has an extension. -/
theorem isName_artifactName {suffix : String} (hsuffix : '/' ∉ suffix.toList) {l : Location}
    (h : ∀ s ∈ l, IsName s) {decode : String → String} {extensions : List String}
    (hl : l.getLast?.any (hasExtension decode extensions) = true) (part : ArtifactPart) :
    IsName (artifactName suffix (fileIdOf l) part) := by
  obtain ⟨name, hlast, hext⟩ :
      ∃ name, l.getLast? = some name ∧ hasExtension decode extensions name := by
    cases hlast : l.getLast? with
    | none => simp [hlast] at hl
    | some name => exact ⟨name, rfl, by simpa [hlast] using hl⟩
  obtain ⟨stem, e, hsplit⟩ := exists_splitExtension hext
  obtain ⟨hname, hstem⟩ := splitExtension_name hsplit
  have hslash := (h name (List.mem_of_getLast? hlast)).no_slash
  rw [hname] at hslash
  have hs : Path.stem? (fileIdOf l) = some stem := by
    simp [Path.stem?, fileName?_fileIdOf h, hlast, hsplit]
  have he : Path.extension? (fileIdOf l) = some e := by
    simp [Path.extension?, fileName?_fileIdOf h, hlast, hsplit]
  cases part with
  | header =>
    simp only [artifactName, ArtifactPart.extension?, hs, he, Option.getD_some]
    refine isName_of_points hstem ?_
    simp_all
  | inlined =>
    simp only [artifactName, ArtifactPart.extension?, hs, Option.getD_some]
    refine isName_of_points hstem ?_
    simp_all

/-- A name behind the text of names, behind a path, is put behind them all. -/
theorem join_join_fileIdOf (base : String) {directory : Location}
    (hd : ∀ s ∈ directory, IsName s) {name : String} (hname : IsName name) :
    Path.join (Path.join base (fileIdOf directory)) name = pathBelow base (directory ++ [name]) := by
  rw [pathBelow, List.foldl_append]
  dsimp only [List.foldl_cons, List.foldl_nil]
  by_cases hn : directory = []
  · rw [hn]
    exact Path.join_join_empty base hname.isAbsolute
  · rw [fileIdOf, FileTree.join_names _ hd hn]
    rfl

/-- The path of a generated file. -/
theorem artifactPath_fileIdOf (o : OutputConfig) {l : Location} (h : ∀ s ∈ l, IsName s)
    (hl : l ≠ []) {part : ArtifactPart}
    (hname : IsName (artifactName o.suffix (fileIdOf l) part)) :
    o.artifactPath (fileIdOf l) part
      = pathBelow o.root (l.dropLast ++ [artifactName o.suffix (fileIdOf l) part]) := by
  rw [OutputConfig.artifactPath, parent?_fileIdOf h hl]
  exact join_join_fileIdOf o.root (fun s hs => h s (List.dropLast_subset l hs)) hname

end HeaderReflection.Project
