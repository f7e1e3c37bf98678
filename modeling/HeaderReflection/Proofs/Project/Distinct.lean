import HeaderReflection.Proofs.Project.Repeat

/-!
# Shared paths of artifacts

The path of an artifact is made of the directory and the stem of its input file, the suffix and an
extension: for the second part that is always the same one. Input files that differ in their
extensions alone share it.

* `Path.parts_join`: the steps of a path behind another one.
* `IsInput.parts_artifactPath_eq_iff`: what a path tells of its input file.
* `artifacts_apart`: when each input file has its paths for itself, and what a run leaves then.
-/

namespace HeaderReflection

namespace Path

/-! ## Steps of paths -/

theorem isAbsolute_append {x : String} (h : x ≠ "") (y : String) :
    isAbsolute (x ++ y) = isAbsolute x := by
  cases hl : x.toList with
  | nil => exact absurd (String.toList_eq_nil_iff.1 hl) h
  | cons c cs => simp [isAbsolute, hl]

theorem isAbsolute_join (base : String) {s : String} (h : isAbsolute s = false) :
    isAbsolute (join base s) = isAbsolute base := by
  by_cases hb : base = ""
  · have hj : join base s = s := by simp [join, h, hb]
    rw [hj, h, hb]
    rfl
  · unfold join
    rw [if_neg (by simp [h])]
    split
    · exact isAbsolute_append hb s
    · rw [String.append_assoc]
      exact isAbsolute_append hb _

/-- The steps of a path behind another one. -/
theorem parts_join (base : String) {s : String} (h : isAbsolute s = false)
    (hhere : (segments s).head? ≠ some ".") :
    parts (join base s) = parts base ++ (segments s).filterMap partOf? := by
  obtain ⟨xs, hb, hj⟩ := segments_join base h
  have hempty : partOf? "" = none := rfl
  have hnames : (segments base).filterMap partOf? = xs.filterMap partOf? := by
    rcases hb with hb | hb <;> simp [hb, hempty]
  have hhead : (segments (join base s)).head? = some "." ↔ (segments base).head? = some "." := by
    cases xs with
    | nil =>
      have hbase : (segments base).head? ≠ some "." := by
        rcases hb with hb | hb <;> simp [hb]
      rw [hj, List.nil_append]
      exact ⟨fun he => absurd he hhere, fun he => absurd he hbase⟩
    | cons x xs => rcases hb with hb | hb <;> simp [hb, hj]
  simp only [parts, isAbsolute_join base h, hhead, hnames]
  rw [hj, List.filterMap_append, List.append_assoc]

theorem partOf?_inj {s s' : String} {p : Part} (h : partOf? s = some p)
    (h' : partOf? s' = some p) : s = s' := by
  unfold partOf? at h h'
  split at h
  · cases h
  · split at h
    · obtain rfl := Option.some.inj h
      split at h'
      · cases h'
      · split at h'
        · simp_all
        · cases h'
    · obtain rfl := Option.some.inj h
      split at h'
      · cases h'
      · split at h'
        · cases h'
        · simpa using h'.symm

theorem partOf?_eq_none_iff {s : String} : partOf? s = none ↔ s = "" ∨ s = "." := by
  unfold partOf?
  split
  · rename_i h
    simpa using h
  · rename_i h
    split <;> simp_all

/-- A text between texts without slashes, cut at its slashes if it has any. -/
theorem segments_between {suffix : String} (h : '/' ∈ suffix.toList) :
    ∃ a mid c, ∀ x y : String, '/' ∉ x.toList → '/' ∉ y.toList →
      segments (x ++ suffix ++ y) = (x ++ a) :: (mid ++ [c ++ y]) := by
  obtain ⟨front, rest, hrest, hfront⟩ := List.eq_append_cons_of_mem h
  by_cases hback : '/' ∈ rest
  · obtain ⟨back, before, hbefore, hnot⟩ :=
      List.eq_append_cons_of_mem (List.mem_reverse.2 hback)
    have hs : suffix = String.ofList front ++ "/" ++ String.ofList before.reverse ++ "/" ++
        String.ofList back.reverse := by
      rw [← String.toList_inj, hrest, ← List.reverse_reverse rest, hbefore]
      simp
    refine ⟨String.ofList front, segments (String.ofList before.reverse),
      String.ofList back.reverse, fun x y hx hy => ?_⟩
    have hcut : x ++ suffix ++ y = (x ++ String.ofList front) ++ "/" ++
        (String.ofList before.reverse ++ "/" ++ (String.ofList back.reverse ++ y)) := by
      rw [hs]
      simp only [String.append_assoc]
    have hfirst : '/' ∉ (x ++ String.ofList front).toList := by simp [hx, hfront]
    have hlast : '/' ∉ (String.ofList back.reverse ++ y).toList := by simp [hy, hnot]
    rw [hcut, segments_append_slash, segments_append_slash, segments_of_no_slash hfirst,
      segments_of_no_slash hlast]
    rfl
  · have hs : suffix = String.ofList front ++ "/" ++ String.ofList rest := by
      rw [← String.toList_inj, hrest]
      simp
    refine ⟨String.ofList front, [], String.ofList rest, fun x y hx hy => ?_⟩
    have hcut : x ++ suffix ++ y = (x ++ String.ofList front) ++ "/" ++
        (String.ofList rest ++ y) := by
      rw [hs]
      simp only [String.append_assoc]
    rw [hcut, segments_append_slash, segments_of_no_slash (by simp [hx, hfront]),
      segments_of_no_slash (by simp [hy, hback])]
    rfl

theorem point_of_append {rest e e' : List Char} (he : '.' ∉ e)
    (h : '.' :: e = rest ++ '.' :: e') : rest = [] := by
  cases rest with
  | nil => rfl
  | cons r rest =>
    obtain ⟨-, hr⟩ := List.cons.inj h
    exact absurd (hr ▸ (by simp : '.' ∈ rest ++ '.' :: e')) he

/-- Texts without points behind a point are told from what stands before the point. -/
theorem append_point_inj {x x' e e' : String} (he : '.' ∉ e.toList) (he' : '.' ∉ e'.toList)
    (h : x ++ "." ++ e = x' ++ "." ++ e') : x = x' ∧ e = e' := by
  have hl : x.toList ++ '.' :: e.toList = x'.toList ++ '.' :: e'.toList := by
    simpa using congrArg String.toList h
  have hx : x'.toList = x.toList := by
    rcases List.append_eq_append_iff.1 hl with ⟨rest, hx, hr⟩ | ⟨rest, hx, hr⟩
    · rw [hx, point_of_append he hr, List.append_nil]
    · rw [hx, point_of_append he' hr, List.append_nil]
  rw [hx, List.append_cancel_left_eq] at hl
  exact ⟨String.toList_inj.1 hx.symm, String.toList_inj.1 (List.cons.inj hl).2⟩

/-- Where a list with its first element moved to its end has the same end, that element is the one
at the end. -/
theorem eq_of_cons_eq_concat {α : Type} {a x : α} {mid : List α} (h : a :: mid = mid ++ [x]) :
    a = x := by
  induction mid with
  | nil => exact (List.cons.inj h).1
  | cons m mid ih =>
    obtain ⟨rfl, h⟩ := List.cons.inj h
    exact ih h

theorem filterMap_singleton (s : String) : [s].filterMap partOf? = (partOf? s).toList := by
  cases h : partOf? s <;> simp [h]

/-- A text with a point names a step, unless the point is all of it. -/
theorem partOf?_point_eq_none {x y : String} (h : partOf? (x ++ "." ++ y) = none) :
    x = "" ∧ y = "" := by
  have hle : (x ++ "." ++ y).toList.length ≤ 1 := by
    rcases partOf?_eq_none_iff.1 h with hn | hn <;> simp [hn]
  have hdot : ".".toList.length = 1 := rfl
  simp only [String.toList_append, List.length_append, hdot] at hle
  have hx : x.toList.length = 0 := by omega
  have hy : y.toList.length = 0 := by omega
  exact ⟨by simpa using hx, by simpa using hy⟩

/-- A text before a point is not told from a point in front of a text without one. -/
theorem point_append_ne {stem y e : String} (hs : stem ≠ "") (he : '.' ∉ e.toList) :
    "." ++ e ≠ stem ++ "." ++ y := by
  intro h
  have hl : '.' :: e.toList = stem.toList ++ '.' :: y.toList := by
    simpa using congrArg String.toList h
  exact hs (String.toList_eq_nil_iff.1 (point_of_append he hl))

/-- A stem with a point behind it is a step. -/
theorem exists_partOf?_stem {stem : String} (hs : stem ≠ "") (y : String) :
    ∃ p, partOf? (stem ++ "." ++ y) = some p :=
  Option.ne_none_iff_exists'.1 fun hn => hs (partOf?_point_eq_none hn).1

/-- Behind equal steps of names with one ending the stems of the names are equal. -/
theorem stem_inj_of_steps {stem stem' a : String} {p p' : Part} {D D' M : List Part}
    (hp : partOf? (stem ++ "." ++ a) = some p) (hp' : partOf? (stem' ++ "." ++ a) = some p')
    (h : D ++ ([p] ++ M) = D' ++ ([p'] ++ M)) : D = D' ∧ stem = stem' := by
  rw [← List.append_assoc, ← List.append_assoc, List.append_cancel_right_eq] at h
  obtain ⟨hD, hpp⟩ := List.append_inj' h rfl
  obtain rfl := List.singleton_inj.1 hpp
  refine ⟨hD, ?_⟩
  have hname := partOf?_inj hp hp'
  simpa [String.append_assoc] using hname

/-- The last step of one path alone would have to be the first one of the other name. -/
theorem steps_ne_of_last {stem' a c e e' : String} {p p' x : Part} {D D' M : List Part}
    (hs' : stem' ≠ "") (he : '.' ∉ e.toList) (hp' : partOf? (stem' ++ "." ++ a) = some p')
    (hx : partOf? (c ++ "." ++ e) = some x) (hn : partOf? (c ++ "." ++ e') = none) :
    D ++ ([p] ++ (M ++ [x])) ≠ D' ++ ([p'] ++ M) := by
  intro h
  rw [← List.append_assoc] at h
  have hlast := (List.append_inj' h (by simp)).2
  obtain rfl := eq_of_cons_eq_concat hlast.symm
  have hname := partOf?_inj hx hp'
  rw [(partOf?_point_eq_none hn).1, String.empty_append] at hname
  exact point_append_ne hs' he hname

section Steps

variable {suffix stem stem' e e' : String} {D D' : List Part}
  (hs : stem ≠ "") (hs' : stem' ≠ "") (he : '.' ∉ e.toList) (he' : '.' ∉ e'.toList)

include hs hs' he he'

theorem steps_inj_of_cut {a c : String} {M : List Part}
    (h : D ++ ((partOf? (stem ++ "." ++ a)).toList ++ (M ++ (partOf? (c ++ "." ++ e)).toList))
      = D' ++ ((partOf? (stem' ++ "." ++ a)).toList ++ (M ++ (partOf? (c ++ "." ++ e')).toList))) :
    D = D' ∧ stem = stem' ∧ e = e' := by
  obtain ⟨p, hp⟩ := exists_partOf?_stem hs a
  obtain ⟨p', hp'⟩ := exists_partOf?_stem hs' a
  rw [hp, hp'] at h
  cases hx : partOf? (c ++ "." ++ e) with
  | none =>
    cases hx' : partOf? (c ++ "." ++ e') with
    | none =>
      simp only [hx, hx', Option.toList_some, Option.toList_none, List.append_nil] at h
      obtain ⟨hD, hstem⟩ := stem_inj_of_steps hp hp' h
      exact ⟨hD, hstem, (partOf?_point_eq_none hx).2.trans (partOf?_point_eq_none hx').2.symm⟩
    | some x' =>
      simp only [hx, hx', Option.toList_some, Option.toList_none, List.append_nil] at h
      exact absurd h.symm (steps_ne_of_last hs he' hp hx' hx)
  | some x =>
    cases hx' : partOf? (c ++ "." ++ e') with
    | none =>
      simp only [hx, hx', Option.toList_some, Option.toList_none, List.append_nil] at h
      exact absurd h (steps_ne_of_last hs' he hp' hx hx')
    | some x' =>
      simp only [hx, hx', Option.toList_some, ← List.append_assoc] at h
      obtain ⟨hinit, hxx⟩ := List.append_inj' h rfl
      obtain rfl := List.singleton_inj.1 hxx
      obtain ⟨hD, hstem⟩ := stem_inj_of_steps hp hp' (by simpa using hinit)
      exact ⟨hD, hstem, (append_point_inj he he' (partOf?_inj hx hx')).2⟩

/-- What the steps of a path that ends in a stem, a suffix and an extension tell of these. -/
theorem steps_inj (hslash : '/' ∉ stem.toList) (hslash' : '/' ∉ stem'.toList)
    (heslash : '/' ∉ e.toList) (heslash' : '/' ∉ e'.toList)
    (h : D ++ (segments (stem ++ "." ++ suffix ++ "." ++ e)).filterMap partOf?
      = D' ++ (segments (stem' ++ "." ++ suffix ++ "." ++ e')).filterMap partOf?) :
    D = D' ∧ stem = stem' ∧ e = e' := by
  by_cases hsuffix : '/' ∈ suffix.toList
  · obtain ⟨a, mid, c, hcut⟩ := segments_between hsuffix
    have cut {x y : String} (hx : '/' ∉ x.toList) (hy : '/' ∉ y.toList) :
        (segments (x ++ "." ++ suffix ++ "." ++ y)).filterMap partOf?
          = (partOf? (x ++ "." ++ a)).toList
            ++ (mid.filterMap partOf? ++ (partOf? (c ++ "." ++ y)).toList) := by
      have hseg := hcut (x ++ ".") ("." ++ y) (by simp [hx]) (by simp [hy])
      rw [← String.append_assoc, ← String.append_assoc] at hseg
      rw [hseg, ← List.singleton_append, List.filterMap_append, List.filterMap_append,
        filterMap_singleton, filterMap_singleton]
    rw [cut hslash heslash, cut hslash' heslash'] at h
    exact steps_inj_of_cut hs hs' he he' h
  · have single {x y : String} (hx : '/' ∉ x.toList) (hy : '/' ∉ y.toList) :
        ∃ p, partOf? (x ++ "." ++ suffix ++ "." ++ y) = some p ∧
          (segments (x ++ "." ++ suffix ++ "." ++ y)).filterMap partOf? = [p] := by
      obtain ⟨p, hp⟩ : ∃ p, partOf? (x ++ "." ++ suffix ++ "." ++ y) = some p :=
        Option.ne_none_iff_exists'.1 fun hn => by
          simpa using congrArg String.toList (partOf?_point_eq_none hn).1
      refine ⟨p, hp, ?_⟩
      rw [segments_of_no_slash (by simp [hx, hy, hsuffix]), filterMap_singleton, hp]
      rfl
    obtain ⟨p, hp, hseg⟩ := single hslash heslash
    obtain ⟨p', hp', hseg'⟩ := single hslash' heslash'
    rw [hseg, hseg'] at h
    obtain ⟨hD, hpp⟩ := List.append_inj' h rfl
    obtain rfl := List.singleton_inj.1 hpp
    obtain ⟨hstem, hext⟩ := append_point_inj he he' (partOf?_inj hp hp')
    exact ⟨hD, by simpa [String.append_assoc] using hstem, hext⟩

end Steps

/-- A text without slashes starts the first segment. -/
theorem head?_segments_append {x : String} (hx : '/' ∉ x.toList) (y : String) :
    ∃ z, (segments (x ++ y)).head? = some (x ++ z) := by
  by_cases hy : '/' ∈ y.toList
  · obtain ⟨front, rest, hrest, hfront⟩ := List.eq_append_cons_of_mem hy
    have hcut : x ++ y = (x ++ String.ofList front) ++ "/" ++ String.ofList rest := by
      rw [← String.toList_inj]
      simp [hrest]
    refine ⟨String.ofList front, ?_⟩
    rw [hcut, segments_append_slash, segments_of_no_slash (by simp [hx, hfront])]
    rfl
  · exact ⟨y, by rw [segments_of_no_slash (by simp [hx, hy])]; rfl⟩

end Path

namespace Project

open HeaderReflection.Path (IsName)

variable {t : FileTree} {c : Config}

/-! ## Paths of artifacts -/

/-- The identifier is that of a file in a directory, with a stem and an extension. -/
structure IsInput (id : String) (directory : Location) (stem e : String) : Prop where
  names : ∀ s ∈ directory, IsName s
  parent : Path.parent? id = some (fileIdOf directory)
  stem_eq : Path.stem? id = some stem
  extension_eq : Path.extension? id = some e
  stem_ne : stem ≠ ""
  stem_slash : '/' ∉ stem.toList
  extension_slash : '/' ∉ e.toList
  extension_point : '.' ∉ e.toList

/-- An extension has no points. -/
theorem extension_no_point {name stem e : String}
    (h : Path.splitExtension name = (stem, some e)) : '.' ∉ e.toList := by
  unfold Path.splitExtension at h
  dsimp only at h
  split at h
  · cases h
  · split at h
    · cases h
    · obtain ⟨-, he⟩ := Prod.mk.inj h
      obtain rfl := Option.some.inj he
      intro hm
      have hall := List.all_eq_true.1
        (List.all_takeWhile (p := (· ≠ '.')) (l := name.toList.reverse)) '.' (by simpa using hm)
      simp at hall

/-- The input files of a tree whose entries have names. -/
theorem isInput_of_discover (hnames : ∀ e ∈ t.entries, ∀ s ∈ e.1, IsName s)
    {sources : List SourceFile} (hd : discover c t = .ok sources) {s : SourceFile}
    (hs : s ∈ sources) : ∃ directory stem e, IsInput s.fileId directory stem e := by
  obtain ⟨top, patterns, -, -, rfl⟩ := discover_eq_ok_iff.1 hd
  obtain ⟨l, hl, rfl⟩ := List.mem_map.1 hs
  obtain ⟨content, hc, hext⟩ := exists_comes_of_mem.1 hl
  have hne := hc.ne_nil
  have hmem := hc.entry
  rw [List.nil_append] at hmem
  have hl : ∀ x ∈ l, IsName x := fun x hx => hnames _ hmem x (List.mem_append_right _ hx)
  obtain ⟨name, hlast⟩ : ∃ name, l.getLast? = some name := ⟨_, List.getLast?_eq_some_getLast hne⟩
  rw [hlast, Option.any_some] at hext
  obtain ⟨stem, e, hsplit⟩ := exists_splitExtension hext
  obtain ⟨hname, hstem⟩ := splitExtension_name hsplit
  have hslash := (hl name (List.mem_of_getLast? hlast)).no_slash
  rw [hname] at hslash
  simp only [String.toList_append, List.mem_append, not_or] at hslash
  exact ⟨l.dropLast, stem, e, fun x hx => hl x (List.dropLast_subset l hx),
    parent?_fileIdOf hl hne, by simp [Path.stem?, fileName?_fileIdOf hl, hlast, hsplit],
    by simp [Path.extension?, fileName?_fileIdOf hl, hlast, hsplit], hstem, hslash.1.1, hslash.2,
    extension_no_point hsplit⟩

namespace IsInput

variable {id id' stem stem' e e' : String} {directory directory' : Location} {o : OutputConfig}

/-- The extension of an artifact. -/
theorem extension (h : IsInput id directory stem e) (part : ArtifactPart) :
    ∃ x, part.extension? id = some x ∧ '/' ∉ x.toList ∧ '.' ∉ x.toList := by
  cases part with
  | header => exact ⟨e, h.extension_eq, h.extension_slash, h.extension_point⟩
  | inlined => exact ⟨"inl", rfl, by decide, by decide⟩

/-- The name of an artifact. -/
theorem artifactName_eq (h : IsInput id directory stem e) {part : ArtifactPart} {x : String}
    (hx : part.extension? id = some x) :
    artifactName o.suffix id part = stem ++ "." ++ o.suffix ++ "." ++ x := by
  simp [artifactName, h.stem_eq, hx]

/-- The steps of the path of an artifact. -/
theorem parts_artifactPath (h : IsInput id directory stem e) (o : OutputConfig)
    {part : ArtifactPart} {x : String} (hx : part.extension? id = some x) :
    Path.parts (o.artifactPath id part)
      = (Path.parts o.root ++ directory.map .name)
        ++ (Path.segments (stem ++ "." ++ o.suffix ++ "." ++ x)).filterMap Path.partOf? := by
  have hdirectory : (Path.segments (fileIdOf directory)).filterMap Path.partOf?
      = directory.map .name := by
    by_cases hn : directory = []
    · rw [hn]
      decide
    · rw [fileIdOf, Path.segments_names h.names hn, filterMap_partOf?_names h.names]
  have hhere : (Path.segments (fileIdOf directory)).head? ≠ some "." := by
    by_cases hn : directory = []
    · rw [hn]
      decide
    · rw [fileIdOf, Path.segments_names h.names hn]
      exact head?_names_ne h.names
  have hslash : '/' ∉ (stem ++ ".").toList := by simp [h.stem_slash]
  have hfirst : (Path.segments (stem ++ "." ++ o.suffix ++ "." ++ x)).head? ≠ some "." := by
    obtain ⟨z, hz⟩ := Path.head?_segments_append hslash (o.suffix ++ "." ++ x)
    rw [← String.append_assoc, ← String.append_assoc] at hz
    rw [hz]
    intro he
    exact h.stem_ne (Path.partOf?_point_eq_none (by rw [Option.some.inj he]; rfl)).1
  have habsolute : Path.isAbsolute (stem ++ "." ++ o.suffix ++ "." ++ x) = false := by
    simp only [String.append_assoc]
    rw [Path.isAbsolute_append h.stem_ne]
    cases hl : stem.toList with
    | nil => exact absurd (String.toList_eq_nil_iff.1 hl) h.stem_ne
    | cons c cs =>
      have hs := h.stem_slash
      rw [hl] at hs
      simp [Path.isAbsolute, hl, Ne.symm (List.ne_of_not_mem_cons hs)]
  have habove : Path.isAbsolute (fileIdOf directory) = false := Path.isAbsolute_names h.names
  rw [OutputConfig.artifactPath, h.parent, h.artifactName_eq hx]
  dsimp only
  rw [Path.parts_join _ habsolute hfirst, Path.parts_join _ habove hhere, hdirectory]

/-- Artifacts have the same path just if their input files have the same directory and stem, and
the artifacts have the same extension. -/
theorem parts_artifactPath_eq_iff (h : IsInput id directory stem e)
    (h' : IsInput id' directory' stem' e') (part part' : ArtifactPart) :
    Path.parts (o.artifactPath id part) = Path.parts (o.artifactPath id' part')
      ↔ Path.parent? id = Path.parent? id' ∧ Path.stem? id = Path.stem? id' ∧
        part.extension? id = part'.extension? id' := by
  constructor
  · intro he
    obtain ⟨x, hx, hslash, hpoint⟩ := h.extension part
    obtain ⟨x', hx', hslash', hpoint'⟩ := h'.extension part'
    rw [h.parts_artifactPath o hx, h'.parts_artifactPath o hx'] at he
    obtain ⟨hD, hstem, hext⟩ := Path.steps_inj h.stem_ne h'.stem_ne hpoint hpoint' h.stem_slash
      h'.stem_slash hslash hslash' he
    have hdirectory : directory = directory' := by
      have hmap := List.append_cancel_left hD
      exact (List.map_injective_iff.2 fun _ _ hp => Path.Part.name.inj hp) hmap
    exact ⟨by rw [h.parent, h'.parent, hdirectory], by rw [h.stem_eq, h'.stem_eq, hstem],
      by rw [hx, hx', hext]⟩
  · rintro ⟨hparent, hstem, hext⟩
    simp only [OutputConfig.artifactPath, artifactName, hparent, hstem, hext]

/-- The path of an artifact leads down from the output root. -/
theorem artifactPath_eq (h : IsInput id directory stem e) (hsuffix : '/' ∉ o.suffix.toList)
    (part : ArtifactPart) : IsName (artifactName o.suffix id part) ∧
      o.artifactPath id part =
        FileTree.pathBelow o.root (directory ++ [artifactName o.suffix id part]) := by
  obtain ⟨x, hx, hslash, -⟩ := h.extension part
  have hname : IsName (artifactName o.suffix id part) := by
    rw [h.artifactName_eq hx]
    exact isName_of_points h.stem_ne (by simp [h.stem_slash, hsuffix, hslash])
  refine ⟨hname, ?_⟩
  rw [OutputConfig.artifactPath, h.parent]
  exact join_join_fileIdOf o.root h.names hname

/-- The artifacts stand below the output root. -/
theorem isBelowRoot (h : IsInput id directory stem e) (hsuffix : '/' ∉ o.suffix.toList)
    (part : ArtifactPart) : IsBelowRoot o.root (o.artifactPath id part) := by
  obtain ⟨hname, hpath⟩ := h.artifactPath_eq hsuffix part
  refine ⟨directory ++ [artifactName o.suffix id part], by simp, ?_, hpath⟩
  exact List.forall_mem_append.2 ⟨h.names, by simpa using hname⟩

end IsInput

/-! ## Input files with paths for themselves -/

/-- No input file has the extension of the second parts, and no two of them in a directory have the
same stem. -/
structure Unshared (sources : List SourceFile) : Prop where
  extensions : ∀ s ∈ sources, Path.extension? s.fileId ≠ some "inl"
  stems : sources.Pairwise fun s s' =>
    ¬ (Path.parent? s.fileId = Path.parent? s'.fileId ∧ Path.stem? s.fileId = Path.stem? s'.fileId)

theorem mem_parts_iff {o : OutputConfig} {s : SourceFile} {x : List Path.Part} :
    x ∈ ([ArtifactPart.header, .inlined].map (o.artifactPath s.fileId)).map Path.parts
      ↔ ∃ part, Path.parts (o.artifactPath s.fileId part) = x := by
  constructor
  · intro hx
    obtain ⟨path, hpath, rfl⟩ := List.mem_map.1 hx
    obtain ⟨part, -, rfl⟩ := List.mem_map.1 hpath
    exact ⟨part, rfl⟩
  · rintro ⟨part, rfl⟩
    cases part <;> simp

/-- The paths of all artifacts are different just if no input file shares one. -/
theorem nodup_artifactPaths_iff (hnames : ∀ e ∈ t.entries, ∀ s ∈ e.1, IsName s)
    {sources : List SourceFile} (hd : discover c t = .ok sources) :
    ((artifactPaths c.output sources).map Path.parts).Nodup ↔ Unshared sources := by
  have same {s s' : SourceFile} (hs : s ∈ sources) (hs' : s' ∈ sources)
      (part part' : ArtifactPart) :
      Path.parts (c.output.artifactPath s.fileId part)
          = Path.parts (c.output.artifactPath s'.fileId part')
        ↔ Path.parent? s.fileId = Path.parent? s'.fileId ∧
          Path.stem? s.fileId = Path.stem? s'.fileId ∧
          part.extension? s.fileId = part'.extension? s'.fileId := by
    obtain ⟨_, _, _, h⟩ := isInput_of_discover hnames hd hs
    obtain ⟨_, _, _, h'⟩ := isInput_of_discover hnames hd hs'
    exact h.parts_artifactPath_eq_iff h' part part'
  rw [artifactPaths, List.map_flatMap, List.nodup_flatMap]
  constructor
  · rintro ⟨own, apart⟩
    constructor
    · intro s hs hext
      have he := (same hs hs .header .inlined).2 ⟨rfl, rfl, hext⟩
      simpa [he] using own s hs
    · refine apart.imp_of_mem fun {s s'} hs hs' hdisjoint halike => ?_
      have he := (same hs hs' .inlined .inlined).2 ⟨halike.1, halike.2, rfl⟩
      exact hdisjoint (mem_parts_iff.2 ⟨.inlined, rfl⟩) (mem_parts_iff.2 ⟨.inlined, he.symm⟩)
  · rintro ⟨hext, hstems⟩
    constructor
    · intro s hs
      have hne := fun he => hext s hs ((same hs hs .header .inlined).1 he).2.2
      simpa using hne
    · refine hstems.imp_of_mem fun {s s'} hs hs' hne x hx hx' => ?_
      obtain ⟨part, rfl⟩ := mem_parts_iff.1 hx
      obtain ⟨part', he⟩ := mem_parts_iff.1 hx'
      obtain ⟨hparent, hstem, -⟩ := (same hs hs' part part').1 he.symm
      exact hne ⟨hparent, hstem⟩

/-- What a run leaves where no input file shares a path: each artifact that could be written holds
its text. -/
theorem holds_generate (h : t.IsPlain) (hsuffix : '/' ∉ c.output.suffix.toList)
    {sources : List SourceFile} (hd : discover c t = .ok sources) (hu : Unshared sources)
    {a : Analysis} (ha : analyze c t = .ok a) (backends : List Backend) (rs : List Resolved) :
    ∀ x ∈ (planned c backends a rs).zip (generate c backends false a rs t).1.artifacts,
      x.2.outcome.isFailure = false →
        Holds (generate c backends false a rs t).2 x.1.path x.1.text := by
  have sublist : ((planned c backends a rs).map (·.path)).Sublist
      (artifactPaths c.output sources) := planned_paths_sublist hd ha
  have hplaces : ∀ p ∈ planned c backends a rs, IsBelowRoot c.output.root p.path := by
    intro p hp
    obtain ⟨s, hs, hpart⟩ := List.mem_flatMap.1 (sublist.subset (List.mem_map_of_mem hp))
    obtain ⟨part, -, hpart⟩ := List.mem_map.1 hpart
    obtain ⟨_, _, _, hinput⟩ := isInput_of_discover h.names hd hs
    exact hpart ▸ hinput.isBelowRoot hsuffix part
  have hdistinct : (artifactPaths c.output sources).Nodup :=
    ((nodup_artifactPaths_iff h.names hd).2 hu).of_map _
  obtain ⟨h₁, -, holds⟩ :=
    commitAll_plain h (nodup_destinations hplaces (hdistinct.sublist sublist))
  intro x hx hok
  have hp : x.1 ∈ planned c backends a rs := (List.of_mem_zip hx).1
  rw [generate_eq]
  dsimp only
  rw [commitAll_paths]
  exact (holds x hx hok).prunedBy h₁ (List.mem_map_of_mem hp) (hplaces x.1 hp)

/-- All artifacts of the input files have different paths just if no input file has the extension of
the second parts and no two of them in a directory have the same stem. In a plain tree no commit of
a run then overwrites what another one has written: in the end each artifact that could be written
holds its text. -/
theorem artifacts_apart (hnames : ∀ e ∈ t.entries, ∀ s ∈ e.1, IsName s)
    {sources : List SourceFile} (hd : discover c t = .ok sources) :
    (((artifactPaths c.output sources).map Path.parts).Nodup ↔ Unshared sources) ∧
    (t.IsPlain → '/' ∉ c.output.suffix.toList → Unshared sources →
      ∀ a backends rs, start c t = .ok a → c.backends = .ok backends → a.resolved c = .ok rs →
        ∃ r t', run c false t = (.ok r, t') ∧
          ∀ x ∈ (planned c backends a rs).zip r.artifacts, x.2.outcome.isFailure = false →
            Holds t' x.1.path x.1.text) := by
  refine ⟨nodup_artifactPaths_iff hnames hd, fun h hsuffix hu a backends rs hs hb hr => ?_⟩
  obtain ⟨_, -, ha⟩ := bind_eq_ok_iff.1 hs
  exact ⟨_, _, run_of_resolved hs hb hr false,
    holds_generate h hsuffix hd hu ha backends rs⟩

/-! ### Projects with two headers -/

theorem readText_pathBelow (h : t.IsPlain) {base text : String} (hb : t.Reaches base)
    {l : Location} (hf : t.find? (Path.destination base ++ l) = some (.file text.toUTF8)) :
    t.readText (FileTree.pathBelow base l) = .ok text := by
  have hnames : ∀ s ∈ l, IsName s := fun s hs => h.isName hf s (List.mem_append_right _ hs)
  refine readText_of_read ((FileTree.read_eq_ok_iff h).2 ⟨FileTree.reaches_pathBelow h hb hf, ?_⟩)
  rw [FileTree.destination_pathBelow base hnames]
  exact hf

/-- Two headers with a struct each. -/
def pairTree (name other : String) : FileTree where
  entries :=
    [(["src"], .directory), (["src", name], .file structText.toUTF8),
      (["src", other], .file "STRUCT() struct T { GENERATED_BODY() };".toUTF8)]

theorem pairTree_isPlain {name other : String} (hname : IsName name) (hother : IsName other)
    (hne : name ≠ other) : (pairTree name other).IsPlain := by
  refine ⟨by simp [pairTree, hne], by simp [pairTree], ?_, ?_, ?_⟩
  · have hsrc : IsName "src" := by decide
    simp [pairTree, hsrc, hname, hother]
  · simp [pairTree, FileTree.find?, List.lookup_cons]
  · simp [pairTree]

theorem discover_pair {name other : String} (hname : IsName name) (hother : IsName other)
    (hlt : name < other) (hext : hasExtension id smallConfig.input.extensions name = true)
    (hext' : hasExtension id smallConfig.input.extensions other = true) :
    discover smallConfig (pairTree name other)
      = .ok [⟨Path.join "src" name, name⟩, ⟨Path.join "src" other, other⟩] := by
  have hin : (pairTree name other).get? smallConfig.input.root = .ok (["src"], .directory) :=
    FileTree.get?_of_isName (pairTree_isPlain hname hother (String.ne_of_lt hlt)) (by decide) rfl
  have hp : smallConfig.patterns = .ok [] := rfl
  have hfiles : ((pairTree name other).filesBelow ["src"]).map (·.1) = [[name], [other]] := rfl
  have hselected : [[name], [other]].filter (isSelected id smallConfig.input.extensions
      (excludedBy []) (leadsToOutput smallConfig (pairTree name other) ["src"]))
      = [[name], [other]] := by
    simp [isSelected, hext, hext', stages, excludedBy]
  have hsorted : [[name], [other]].mergeSort (idLe id) = [[name], [other]] :=
    List.mergeSort_of_pairwise
      (by simpa [idLe, fileIdOf] using String.not_lt.1 (String.lt_asymm hlt))
  have hplain := (pairTree_isPlain hname hother (String.ne_of_lt hlt)).wellFormed
  refine discover_eq_ok_iff.2 ⟨["src"], [], hin, hp, ?_⟩
  simp only [List.map_nil, selectedBelow_eq hplain, hfiles, hselected, hsorted]
  simp [FileTree.pathBelow, fileIdOf, smallConfig]

/-- Two headers in a directory that differ in their extensions share the path of the second part. -/
theorem artifacts_shared :
    ¬ ∀ (c : Config) (t : FileTree) (sources : List SourceFile), t.IsPlain → c.check = .ok () →
      discover c t = .ok sources →
        ((artifactPaths c.output sources).map Path.parts).Nodup := by
  intro h
  have hd : discover smallConfig (pairTree "a.h" "a.hpp")
      = .ok [⟨"src/a.h", "a.h"⟩, ⟨"src/a.hpp", "a.hpp"⟩] :=
    discover_pair (by decide) (by decide) (by decide) (by decide) (by decide)
  have hplain : (pairTree "a.h" "a.hpp").IsPlain :=
    pairTree_isPlain (by decide) (by decide) (by decide)
  have hnodup := h smallConfig _ _ hplain (by decide) hd
  have hshared : smallConfig.output.artifactPath "a.h" .inlined
      = smallConfig.output.artifactPath "a.hpp" .inlined := by decide
  simp [artifactPaths, hshared] at hnodup

/-- The two headers declare a container each. -/
theorem containers_pair : ∀ s ∈ [⟨"src/a.h", "a.h"⟩, ⟨"src/b.h", "b.h"⟩],
    ∃ d, (modelOf smallConfig.vocabulary (pairTree "a.h" "b.h") s).containers = [d] ∧
      d.bases = [] := by
  have hplain : (pairTree "a.h" "b.h").IsPlain :=
    pairTree_isPlain (by decide) (by decide) (by decide)
  have hbase : (pairTree "a.h" "b.h").Reaches "src" := FileTree.reaches_of_isName (by decide)
  have model {path name text : String} (hpath : path = FileTree.pathBelow "src" [name])
      (hf : (pairTree "a.h" "b.h").find? ["src", name] = some (.file text.toUTF8))
      (hb : (FileModel.ofSource {} path name text).containers.map (·.bases.length) = [0]) :
      ∃ d, (modelOf smallConfig.vocabulary (pairTree "a.h" "b.h") ⟨path, name⟩).containers = [d] ∧
        d.bases = [] := by
    have hread := readText_pathBelow hplain hbase (l := [name]) hf
    rw [← hpath] at hread
    simpa [modelOf, hread, smallConfig, List.map_eq_cons_iff] using hb
  simp only [List.forall_mem_cons, List.not_mem_nil, false_imp_iff, implies_true, and_true]
  exact ⟨model (by decide) rfl (by decide +kernel), model (by decide) rfl (by decide +kernel)⟩

theorem commitAll_pair {p q u v : PlannedFile} (hp : p.path = "out/a.gen.h")
    (hq : q.path = "out/a.gen.inl") (hu : u.path = "out/b.gen.h") (hv : v.path = "out/b.gen.inl") :
    (commitAll false (pairTree "a.h" "b.h") [p, q, u, v]).1.map (·.outcome)
      = [.written, .written, .written, .written] := by
  have hout : Path.segments "out" = ["out"] := by decide
  have hps : Path.segments "out/a.gen.h" = ["out", "a.gen.h"] := by decide
  have hqs : Path.segments "out/a.gen.inl" = ["out", "a.gen.inl"] := by decide
  have hus : Path.segments "out/b.gen.h" = ["out", "b.gen.h"] := by decide
  have hvs : Path.segments "out/b.gen.inl" = ["out", "b.gen.inl"] := by decide
  have hpd : directoryOf "out/a.gen.h" = "out" := by decide
  have hqd : directoryOf "out/a.gen.inl" = "out" := by decide
  have hud : directoryOf "out/b.gen.h" = "out" := by decide
  have hvd : directoryOf "out/b.gen.inl" = "out" := by decide
  simp [commitAll, commitPlanned, commit, writeOver, pairTree, hp, hq, hu, hv, hout, hps, hqs, hus,
    hvs, hpd, hqd, hud, hvd, FileTree.read, FileTree.get?, FileTree.locate, FileTree.walk,
    FileTree.linkLimit, FileTree.find?, FileTree.createDirectories, FileTree.makeDirectories,
    FileTree.replace, FileTree.insert, FileTree.remove, List.lookup_cons, pure, Except.pure]

/-- Two headers with different stems have four artifacts, all of which hold their texts in the
end. -/
theorem artifacts_apart_pair :
    Unshared [⟨"src/a.h", "a.h"⟩, ⟨"src/b.h", "b.h"⟩] ∧
    ∃ a rs r t', start smallConfig (pairTree "a.h" "b.h") = .ok a ∧
      a.resolved smallConfig = .ok rs ∧
      run smallConfig false (pairTree "a.h" "b.h") = (.ok r, t') ∧
      r.artifacts.map (·.outcome) = [.written, .written, .written, .written] ∧
      ∀ x ∈ (planned smallConfig [.tables, .registration] a rs).zip r.artifacts,
        Holds t' x.1.path x.1.text := by
  have hd : discover smallConfig (pairTree "a.h" "b.h")
      = .ok [⟨"src/a.h", "a.h"⟩, ⟨"src/b.h", "b.h"⟩] :=
    discover_pair (by decide) (by decide) (by decide) (by decide) (by decide)
  have hplain : (pairTree "a.h" "b.h").IsPlain :=
    pairTree_isPlain (by decide) (by decide) (by decide)
  have hbackends : smallConfig.backends = .ok [.tables, .registration] := by decide
  have hpaths : artifactPaths smallConfig.output [⟨"src/a.h", "a.h"⟩, ⟨"src/b.h", "b.h"⟩]
      = ["out/a.gen.h", "out/a.gen.inl", "out/b.gen.h", "out/b.gen.inl"] := by decide
  obtain ⟨hnodup, hholds⟩ := artifacts_apart hplain.names hd
  have hu := hnodup.1 (by rw [hpaths]; decide)
  obtain ⟨a, rs, hs, hr, hplanned⟩ :=
    planned_of_sources [.tables, .registration] (by decide) hd containers_pair
  obtain ⟨r, t', hrun, hall⟩ := hholds hplain (by decide) hu a _ rs hs hbackends hr
  have houtcomes : r.artifacts.map (·.outcome) = [.written, .written, .written, .written] := by
    obtain ⟨p, rest, hps, hp, hrest⟩ := List.map_eq_cons_iff.1 (hplanned.trans hpaths)
    obtain ⟨q, rest, rfl, hq, hrest⟩ := List.map_eq_cons_iff.1 hrest
    obtain ⟨u, v, rfl, hu, hv⟩ := planned_pair hrest
    obtain ⟨hr, -⟩ := Prod.mk.inj ((run_of_resolved hs hbackends hr false).symm.trans hrun)
    rw [← Except.ok.inj hr, generate_eq, hps]
    exact commitAll_pair hp hq hu hv
  refine ⟨hu, a, rs, r, t', hs, hr, hrun, houtcomes, fun x hx => hall x hx ?_⟩
  have hx := List.mem_map_of_mem (f := (·.outcome)) (List.of_mem_zip hx).2
  rw [houtcomes] at hx
  have hx : x.2.outcome = .written := by simpa using hx
  rw [hx]
  rfl

end Project

end HeaderReflection
