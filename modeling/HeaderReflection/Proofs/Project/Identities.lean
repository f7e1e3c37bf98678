import HeaderReflection.Artifact.Naming
import HeaderReflection.Proofs.Artifact.BodyMacros
import HeaderReflection.Proofs.Scope.Names

/-!
# Identities of containers

The identity of a container is its file and its qualified name with a scope mark between them, and a
qualified name may have such marks itself. A file is told from the name behind it if its extension
has no colon: the last point or slash of an identity is one of the file, and the first colon behind
it starts the mark.

* `Path.endsPlain_of_extension`: where a path with an extension ends.
* `identity_append_inj`: a file and a name are read back from an identity.
* `nodup_identities`: no two containers of an analysis have the same identity.
* `nodup_identities_of_analyze`: so it is in a run, whose input files have extensions and different
  identifiers.
-/

namespace HeaderReflection

namespace Path

/-! ## Ends of paths -/

theorem splitSlashes_getLast? (part cs : List Char) :
    ∃ last, (splitSlashes part cs).getLast? = some last ∧
      (part.reverse ++ cs = last ∨ ∃ pre, part.reverse ++ cs = pre ++ '/' :: last) := by
  induction cs generalizing part with
  | nil => exact ⟨part.reverse, rfl, .inl (List.append_nil _)⟩
  | cons c cs ih =>
    rw [splitSlashes]
    split
    · rename_i hc
      obtain ⟨last, hlast, hcs⟩ := ih []
      refine ⟨last, by rw [List.getLast?_cons, hlast]; rfl, .inr ?_⟩
      rcases hcs with hcs | ⟨pre, hcs⟩
      · exact ⟨part.reverse, by rw [hc, ← hcs]; rfl⟩
      · exact ⟨part.reverse ++ '/' :: pre, by rw [hc, show cs = _ from hcs]; simp⟩
    · obtain ⟨last, hlast, hcs⟩ := ih (c :: part)
      exact ⟨last, hlast, by simpa using hcs⟩

/-- A path is its last segment, or has it behind a slash. -/
theorem exists_lastSegment (path : String) :
    ∃ last, (segments path).getLast? = some last ∧
      (path = last ∨ ∃ pre, path.toList = pre ++ '/' :: last.toList) := by
  obtain ⟨last, hlast, hpath⟩ := splitSlashes_getLast? [] path.toList
  refine ⟨String.ofList last, by rw [segments, List.getLast?_map, hlast]; rfl, ?_⟩
  rw [String.toList_ofList]
  refine hpath.imp_left fun h => ?_
  rw [← show path.toList = last from h, String.ofList_toList]

/-- The last segment of a path is its file name or names no step. -/
theorem segment_of_fileName {path last name : String}
    (hlast : (segments path).getLast? = some last) (hname : fileName? path = some name) :
    last = "" ∨ last = "." ∨ last = name := by
  obtain ⟨init, hsegments⟩ := List.getLast?_eq_some_iff.1 hlast
  have hparts : (parts path).getLast? = some (.name name) := by
    unfold fileName? at hname
    split at hname
    · rename_i hl
      rw [hl, Option.some.inj hname]
    · cases hname
  cases hpart : partOf? last with
  | none =>
    rcases partOf?_eq_none_iff.1 hpart with h | h
    · exact .inl h
    · exact .inr (.inl h)
  | some p =>
    have hend : (parts path).getLast? = some p := by
      simp [parts, hsegments, List.filterMap_append, hpart]
    obtain rfl := Option.some.inj (hend.symm.trans hparts)
    refine .inr (.inr ?_)
    unfold partOf? at hpart
    split at hpart
    · cases hpart
    · split at hpart
      · cases hpart
      · simpa using hpart

/-- Behind the last point or slash of a path stands no colon. -/
def EndsPlain (path : String) : Prop :=
  ∃ pre c tail, path.toList = pre ++ c :: tail ∧ (c = '.' ∨ c = '/') ∧
    ∀ d ∈ tail, d ≠ '.' ∧ d ≠ '/' ∧ d ≠ ':'

theorem EndsPlain.behind {path last : String} (h : EndsPlain last)
    (hpath : path = last ∨ ∃ pre, path.toList = pre ++ '/' :: last.toList) : EndsPlain path := by
  obtain ⟨pre, c, tail, hlast, htail⟩ := h
  rcases hpath with rfl | ⟨pre', hpath⟩
  · exact ⟨pre, c, tail, hlast, htail⟩
  · exact ⟨pre' ++ '/' :: pre, c, tail, by rw [hpath, hlast]; simp, htail⟩

/-- A path with an extension ends in it, or in a slash or a point behind it. -/
theorem endsPlain_of_extension {path e : String} (h : extension? path = some e)
    (he : ':' ∉ e.toList) : EndsPlain path := by
  obtain ⟨name, hname, hsplit⟩ := Option.bind_eq_some_iff.1 h
  obtain ⟨last, hlast, hpath⟩ := exists_lastSegment path
  rcases segment_of_fileName hlast hname with rfl | rfl | rfl
  · rcases hpath with rfl | ⟨pre, hpath⟩
    · cases hname
    · exact ⟨pre, '/', [], hpath, .inr rfl, by simp⟩
  · have hpoint : EndsPlain "." := ⟨[], '.', [], rfl, .inl rfl, by simp⟩
    exact hpoint.behind hpath
  · obtain ⟨stem, hsplit⟩ : ∃ stem, splitExtension last = (stem, some e) :=
      ⟨(splitExtension last).1, Prod.ext rfl hsplit⟩
    have hparts := (Project.splitExtension_name hsplit).1
    have hpoint := Project.extension_no_point hsplit
    have hslash := segments_no_slash (List.mem_of_getLast? hlast)
    have hend : EndsPlain last := by
      refine ⟨stem.toList, '.', e.toList, by rw [hparts]; simp, .inl rfl, fun d hd => ⟨?_, ?_, ?_⟩⟩
      · rintro rfl
        exact hpoint hd
      · rintro rfl
        exact hslash (by rw [hparts]; simp [hd])
      · rintro rfl
        exact he hd
    exact hend.behind hpath

end Path

/-! ## Identities -/

/-- What stands behind the last character outside a class is read back. -/
theorem cons_run_inj {p : Char → Bool} {pre pre' tail tail' : List Char} {c c' : Char}
    (hc : p c = false) (hc' : p c' = false) (ht : ∀ d ∈ tail, p d = true)
    (ht' : ∀ d ∈ tail', p d = true) (h : pre ++ c :: tail = pre' ++ c' :: tail') :
    pre ++ [c] = pre' ++ [c'] ∧ tail = tail' := by
  have hreverse := congrArg List.reverse h
  simp only [List.reverse_append, List.reverse_cons, List.append_assoc,
    List.singleton_append] at hreverse
  obtain ⟨htail, hpre⟩ := Text.run_append_inj (by simpa using ht) (by simpa using ht')
    (by simpa using hc) (by simpa using hc') hreverse
  refine ⟨?_, List.reverse_inj.1 htail⟩
  rw [← List.reverse_inj]
  simpa using hpre

/-- A file and a name are read back from an identity. -/
theorem identity_append_inj {s s' q q' : String} (hs : Path.EndsPlain s) (hs' : Path.EndsPlain s')
    (hq : ∀ c ∈ q.toList, c ≠ '.' ∧ c ≠ '/') (hq' : ∀ c ∈ q'.toList, c ≠ '.' ∧ c ≠ '/')
    (h : s ++ "::" ++ q = s' ++ "::" ++ q') : s = s' ∧ q = q' := by
  obtain ⟨pre, c, tail, hpath, hc, htail⟩ := hs
  obtain ⟨pre', c', tail', hpath', hc', htail'⟩ := hs'
  have hlist : pre ++ c :: (tail ++ ':' :: ':' :: q.toList) =
      pre' ++ c' :: (tail' ++ ':' :: ':' :: q'.toList) := by
    simpa [hpath, hpath'] using congrArg String.toList h
  -- The last point or slash cuts the files, and the first colon behind it cuts off the names.
  let p : Char → Bool := fun d => d != '.' && d != '/'
  have hstop : ∀ d, d = '.' ∨ d = '/' → p d = false := by
    rintro d (rfl | rfl) <;> rfl
  have hbehind : ∀ ds name : List Char, (∀ d ∈ ds, d ≠ '.' ∧ d ≠ '/' ∧ d ≠ ':') →
      (∀ d ∈ name, d ≠ '.' ∧ d ≠ '/') → ∀ d ∈ ds ++ ':' :: ':' :: name, p d = true := by
    intro ds name hds hname d hd
    simp only [List.mem_append, List.mem_cons] at hd
    rcases hd with hd | rfl | rfl | hd
    · simp [p, hds d hd]
    · rfl
    · rfl
    · simp [p, hname d hd]
  obtain ⟨hpre, hrest⟩ := cons_run_inj (hstop c hc) (hstop c' hc') (hbehind _ _ htail hq)
    (hbehind _ _ htail' hq') hlist
  have hcolon : ∀ ds : List Char, (∀ d ∈ ds, d ≠ '.' ∧ d ≠ '/' ∧ d ≠ ':') →
      ∀ d ∈ ds, (d != ':') = true := fun ds hds d hd => by simpa using (hds d hd).2.2
  obtain ⟨rfl, hname⟩ := Text.run_append_inj (hcolon _ htail) (hcolon _ htail') (by simp) (by simp)
    hrest
  refine ⟨String.toList_inj.1 ?_, String.toList_inj.1 (by simpa using hname)⟩
  rw [hpath, hpath', List.append_cons, hpre, ← List.append_cons]

theorem forall_mem_intercalate {P : Char → Prop} {sep : String} {names : List String}
    (hsep : ∀ d ∈ sep.toList, P d) (h : ∀ n ∈ names, ∀ d ∈ n.toList, P d) :
    ∀ d ∈ (sep.intercalate names).toList, P d := by
  induction names with
  | nil => simp
  | cons n names ih =>
    have hn := h n List.mem_cons_self
    have hrest := ih fun m hm => h m (List.mem_cons_of_mem _ hm)
    cases names with
    | nil => rwa [String.intercalate_singleton]
    | cons m names =>
      rw [String.intercalate_cons_cons, String.toList_append, String.toList_append]
      exact List.forall_mem_append.2 ⟨List.forall_mem_append.2 ⟨hn, hsep⟩, hrest⟩

/-- A qualified name of identifiers has no points and slashes. -/
theorem Container.qualifiedName_plain {c : Container} (h : ∀ n ∈ c.names, IsIdentifier n) :
    ∀ d ∈ c.qualifiedName.toList, d ≠ '.' ∧ d ≠ '/' := by
  refine forall_mem_intercalate (by decide) fun n hn d hd => ?_
  have hchar := isWordChar_of_isIdentifier (h n hn) d hd
  constructor <;> · rintro rfl; cases hchar

/-- Containers that are called by identifiers have the same identity only if they are in the same
file and have the same qualified name. -/
theorem Container.identity_inj {c d : Container} (hc : Path.EndsPlain c.fileId)
    (hd : Path.EndsPlain d.fileId) (hcn : ∀ n ∈ c.names, IsIdentifier n)
    (hdn : ∀ n ∈ d.names, IsIdentifier n) (h : c.identity = d.identity) :
    c.fileId = d.fileId ∧ c.qualifiedName = d.qualifiedName :=
  identity_append_inj hc hd (qualifiedName_plain hcn) (qualifiedName_plain hdn) h

/-- The stable identifier that belongs to an identity. -/
def typeHash (identity : String) : Nat :=
  let d := Sha256.digest identity.toUTF8.toList
  d.a.toNat * Nat.pow 2 32 + d.b.toNat

theorem Container.stableTypeId_eq (c : Container) :
    stableTypeId c.fileId c.qualifiedName = typeHash c.identity := rfl

namespace Project

/-- The model of an input file with the given text. A file that cannot be read declares nothing. -/
def modelWith (v : Vocabulary) (s : SourceFile) : Except FileError String → FileModel
  | .ok text => FileModel.ofSource v s.path s.fileId text
  | .error e =>
    { path := s.path, fileId := s.fileId, containers := [],
      faults := [.unreadable s.path e.message], warnings := [] }

theorem modelOf_eq_modelWith (v : Vocabulary) (t : FileTree) (s : SourceFile) :
    modelOf v t s = modelWith v s (t.readText s.path) := by
  unfold modelOf modelWith
  cases t.readText s.path <;> rfl

section Models

variable {v : Vocabulary} {s : SourceFile} {text : Except FileError String}

theorem fileId_of_mem_modelWith {c : Container} (hc : c ∈ (modelWith v s text).containers) :
    c.fileId = s.fileId := by
  cases text with
  | ok text => exact fileId_of_mem_containers hc
  | error e => cases hc

theorem nodup_qualifiedNames_modelWith (v : Vocabulary) (s : SourceFile)
    (text : Except FileError String) :
    ((modelWith v s text).containers.map (·.qualifiedName)).Nodup := by
  cases text with
  | ok text => exact nodup_qualifiedNames v s.path s.fileId text
  | error e => exact List.nodup_nil

end Models

/-- The analysis of input files with the given texts. -/
def analysisOf (v : Vocabulary) (inputs : List (SourceFile × Except FileError String)) :
    Analysis :=
  .ofModels (inputs.map fun i => (i.1, modelWith v i.1 i.2))

theorem containers_analysisOf (v : Vocabulary)
    (inputs : List (SourceFile × Except FileError String)) :
    (analysisOf v inputs).containers =
      inputs.flatMap fun i => (modelWith v i.1 i.2).containers := by
  rw [analysisOf, containers_ofModels, List.flatMap_map]

/-- Containers of a file differ in their qualified names, and those of different files in their
files. -/
theorem nodup_identities_of_endsPlain {v : Vocabulary}
    {inputs : List (SourceFile × Except FileError String)}
    (hids : (inputs.map (·.1.fileId)).Nodup) (hends : ∀ i ∈ inputs, Path.EndsPlain i.1.fileId)
    (hnames : ∀ c ∈ (analysisOf v inputs).containers, ∀ n ∈ c.names, IsIdentifier n) :
    ((analysisOf v inputs).containers.map (·.identity)).Nodup := by
  rw [containers_analysisOf] at hnames ⊢
  have hinj : ∀ i ∈ inputs, ∀ c ∈ (modelWith v i.1 i.2).containers,
      ∀ j ∈ inputs, ∀ d ∈ (modelWith v j.1 j.2).containers, c.identity = d.identity →
        i.1.fileId = j.1.fileId ∧ c.qualifiedName = d.qualifiedName := by
    intro i hi c hc j hj d hd hsame
    have hci := fileId_of_mem_modelWith hc
    have hdj := fileId_of_mem_modelWith hd
    have hboth := Container.identity_inj (hci ▸ hends i hi) (hdj ▸ hends j hj)
      (hnames c (List.mem_flatMap.2 ⟨i, hi, hc⟩)) (hnames d (List.mem_flatMap.2 ⟨j, hj, hd⟩)) hsame
    rwa [hci, hdj] at hboth
  rw [List.map_flatMap, List.nodup_flatMap]
  refine ⟨fun i hi => ?_, ?_⟩
  · have hqualified := List.pairwise_map.1 (nodup_qualifiedNames_modelWith v i.1 i.2)
    refine List.pairwise_map.2 (hqualified.imp_of_mem fun hc hd hne hsame => hne ?_)
    exact (hinj i hi _ hc i hi _ hd hsame).2
  · refine (List.pairwise_map.1 hids).imp_of_mem fun {i j} hi hj hne x hx hy => ?_
    obtain ⟨c, hc, rfl⟩ := List.mem_map.1 hx
    obtain ⟨d, hd, hsame⟩ := List.mem_map.1 hy
    exact hne (hinj i hi c hc j hj d hd hsame.symm).1

/-- **No two containers of an analysis have the same identity**, if its input files have different
identifiers and extensions without colons, and the containers are called by identifiers. So their
stable identifiers are hashes of different texts. -/
theorem nodup_identities (v : Vocabulary) (inputs : List (SourceFile × Except FileError String))
    (hids : (inputs.map (·.1.fileId)).Nodup)
    (hextensions : ∀ i ∈ inputs, ∃ e, Path.extension? i.1.fileId = some e ∧ ':' ∉ e.toList)
    (hnames : ∀ c ∈ (analysisOf v inputs).containers, ∀ n ∈ c.names, IsIdentifier n) :
    ((analysisOf v inputs).containers.map (·.identity)).Nodup ∧
      ∀ c ∈ (analysisOf v inputs).containers,
        stableTypeId c.fileId c.qualifiedName = typeHash c.identity := by
  refine ⟨nodup_identities_of_endsPlain hids (fun i hi => ?_) hnames,
    fun c _ => c.stableTypeId_eq⟩
  obtain ⟨e, he, hcolon⟩ := hextensions i hi
  exact Path.endsPlain_of_extension he hcolon

/-- Two files with a struct of the same name each. -/
def twinInputs : List (SourceFile × Except FileError String) :=
  [(⟨"src/a.h", "a.h"⟩, .ok "STRUCT() struct S { GENERATED_BODY() };"),
    (⟨"src/b.h", "b.h"⟩, .ok "STRUCT() struct S { GENERATED_BODY() };")]

theorem nodup_identities_twins :
    (analysisOf {} twinInputs).containers.map (·.identity) = ["a.h::S", "b.h::S"] ∧
      ["a.h::S", "b.h::S"].Nodup := by
  have hall : (analysisOf {} twinInputs).containers.map (·.identity) = ["a.h::S", "b.h::S"] := by
    decide +kernel
  have hnodup :=
    (nodup_identities {} twinInputs (by decide) (by decide) (by decide +kernel)).1
  exact ⟨hall, hall ▸ hnodup⟩

/-- In a plain tree the input files have different identifiers. -/
theorem nodup_fileIds_of_discover {c : Config} {t : FileTree} (h : t.IsPlain)
    {sources : List SourceFile} (hd : discover c t = .ok sources) :
    (sources.map (·.fileId)).Nodup := by
  obtain ⟨-, -, patterns, -, rfl⟩ := discover_eq_ok h hd
  rw [List.map_map]
  refine (nodup_selected h).map_on fun l hl m hm hsame => ?_
  obtain ⟨hl, hlnames⟩ := selectedBelow_names h.wellFormed hl
  obtain ⟨hm, hmnames⟩ := selectedBelow_names h.wellFormed hm
  exact fileIdOf_injective hlnames hmnames hl hm hsame

/-- So it is in an analysis of a plain tree where no extension of an input file has a colon. -/
theorem nodup_identities_of_analyze {c : Config} {t : FileTree} (h : t.IsPlain)
    {sources : List SourceFile} (hd : discover c t = .ok sources) {a : Analysis}
    (ha : analyze c t = .ok a)
    (hcolon : ∀ s ∈ sources, ∀ e, Path.extension? s.fileId = some e → ':' ∉ e.toList)
    (hnames : ∀ c ∈ a.containers, ∀ n ∈ c.names, IsIdentifier n) :
    (a.containers.map (·.identity)).Nodup := by
  have ha' : a = analysisOf c.vocabulary (sources.map fun s => (s, t.readText s.path)) := by
    rw [analyze, hd] at ha
    obtain rfl := Except.ok.inj ha
    simp only [analysisOf, List.map_map, Function.comp_def, modelOf_eq_modelWith]
  subst ha'
  refine nodup_identities_of_endsPlain ?_ (fun i hi => ?_) hnames
  · simpa [Function.comp_def] using nodup_fileIds_of_discover h hd
  · obtain ⟨s, hs, rfl⟩ := List.mem_map.1 hi
    obtain ⟨_, _, e, hinput⟩ := isInput_of_discover h.names hd hs
    exact Path.endsPlain_of_extension hinput.extension_eq (hcolon s hs e hinput.extension_eq)

end Project

end HeaderReflection
