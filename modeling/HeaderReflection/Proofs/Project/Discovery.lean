import Mathlib
import HeaderReflection.Proofs.FileTree.Ways
import HeaderReflection.Proofs.Project.Selection
import HeaderReflection.Text.Bytes

/-!
# Discovered files

Discovery walks through the input root, does not go down where a pattern matches or at the output
root, and sorts what it has found. What it finds is what a condition on each single file says,
whatever the patterns match and however the names of the files are read as text.

* `IsSource`: the condition on a file, by its location below the input root.
* `mem_selectedBelow_iff_isSource`: the selected files are those that meet it.
* `Discovered`: what is said of the files that are found, in their order.
* `discover_sources`: it holds of what discovery answers.
* `discover_alike`: two files can have one identifier, and lower case is not all of case.
-/

namespace HeaderReflection.Project

open FileTree (WellFormed pathBelow)
open HeaderReflection.Path (IsName)

variable {decode : String → String} {excludes : List (String → Bool)} {c : Config} {t : FileTree}
  {top l : Location}

/-- A file below the input root, reached through directories alone. The text of its extension has
the lower case of a configured one. None of the predicates holds of the texts of the names that lead
to it or to a directory on the way to it, and none of these directories is the output root. -/
structure IsSource (decode : String → String) (excludes : List (String → Bool)) (c : Config)
    (t : FileTree) (top l : Location) : Prop where
  below : l ≠ []
  file : ∃ content, t.find? (top ++ l) = some (.file content)
  directories : ∀ stage, stage <+: l → stage ≠ l → t.find? (top ++ stage) = some .directory
  extension : ∃ e, Path.extension? ("/".intercalate l) = some e ∧ ∃ x ∈ c.input.extensions,
    Text.lowerString (decode e) =
      Text.lowerString (String.ofList (x.toList.dropWhile (· = '.')))
  unmatched : ∀ stage, stage ≠ [] → stage <+: l → ∀ isMatch ∈ excludes,
    isMatch ("/".intercalate (stage.map decode)) = false
  apart : ∀ stage, stage ≠ [] → stage <+: l → stage ≠ l → ∀ output e,
    t.get? c.output.root = .ok (output, e) → top ++ stage ≠ output

/-- The last name of a location has one of the extensions just if its path has. -/
theorem hasExtension_iff (hnames : ∀ s ∈ l, IsName s) {extensions : List String} :
    l.getLast?.any (hasExtension decode extensions) = true ↔
      ∃ e, Path.extension? (fileIdOf l) = some e ∧ ∃ x ∈ extensions,
        Text.lowerString (decode e) =
          Text.lowerString (String.ofList (x.toList.dropWhile (· = '.'))) := by
  rw [Path.extension?, fileName?_fileIdOf hnames]
  cases l.getLast? with
  | none => simp
  | some name =>
    rw [Option.any_some, Option.bind_some, hasExtension]
    cases (Path.splitExtension name).2 with
    | none => simp
    | some e => simp [extensionKey, eq_comm]

theorem leadsToOutput_eq_false_iff : leadsToOutput c t top l = false ↔
    ∀ output e, t.get? c.output.root = .ok (output, e) → top ++ l ≠ output := by
  unfold leadsToOutput
  split
  · rename_i output e hget
    rw [decide_eq_false_iff_not]
    constructor
    · rintro hne output' e' hget'
      obtain ⟨rfl, rfl⟩ := Prod.mk.inj (Except.ok.inj (hget.symm.trans hget'))
      exact hne
    · exact fun h => h output e hget
  · rename_i f hget
    exact iff_of_true rfl fun output e hget' => nomatch hget.symm.trans hget'

/-- The selected files are those that meet the condition. -/
theorem mem_selectedBelow_iff_isSource (h : t.WellFormed) :
    l ∈ selectedBelow decode t top c.input.extensions (excludedBy excludes)
        (leadsToOutput c t top) ↔
      IsSource decode excludes c t top l := by
  rw [mem_selectedBelow_iff h, isSelected_iff]
  constructor
  · rintro ⟨hne, ⟨content, hf⟩, hext, hx, hb⟩
    refine ⟨hne, ⟨content, hf⟩, fun stage => h.directory_of_prefix hf,
      (hasExtension_iff (h.isName_below hf)).1 hext, fun stage hs hpre isMatch hm => ?_,
      fun stage hs hpre hstage => ?_⟩
    · simpa [fileIdOf] using List.any_eq_false.1 (hx stage hs hpre) isMatch hm
    · exact leadsToOutput_eq_false_iff.1 (hb stage hs hpre hstage)
  · intro hsource
    obtain ⟨content, hf⟩ := hsource.file
    have hext := (hasExtension_iff (h.isName_below hf)).2 hsource.extension
    refine ⟨hsource.below, ⟨content, hf⟩, hext, fun stage hs hpre => ?_,
      fun stage hs hpre hstage => ?_⟩
    · exact List.any_eq_false.2 fun isMatch hm => by
        simpa [fileIdOf] using hsource.unmatched stage hs hpre isMatch hm
    · exact leadsToOutput_eq_false_iff.2 (hsource.apart stage hs hpre hstage)

/-- What is said of the places of the files that are found. They are those that meet the condition,
once each and in the order of their identifiers, and the path of each one leads to it. Their
identifiers rise, just if no two of them have the same texts for names. -/
structure Discovered (decode : String → String) (excludes : List (String → Bool)) (c : Config)
    (t : FileTree) (top : Location) (places : List Location) : Prop where
  nodup : places.Nodup
  mem_iff : ∀ l, l ∈ places ↔ IsSource decode excludes c t top l
  sorted : places.Pairwise fun l m =>
    "/".intercalate (l.map decode) ≤ "/".intercalate (m.map decode)
  rising_iff : (places.Pairwise fun l m =>
      "/".intercalate (l.map decode) < "/".intercalate (m.map decode)) ↔
    (places.map (List.map decode)).Nodup
  leads : ∀ l ∈ places, ∃ content,
    t.get? (pathBelow c.input.root l) = .ok (top ++ l, .file content)

/-- The names of a tree stay names when they are decoded. -/
def KeepsNames (decode : String → String) (t : FileTree) : Prop :=
  ∀ e ∈ t.entries, ∀ s ∈ e.1, IsName (decode s)

theorem KeepsNames.of_find? (h : t.WellFormed) (hdecode : KeepsNames decode t) {e : Entry}
    (hne : l ≠ []) (hf : t.find? (top ++ l) = some e) : ∀ s ∈ l, IsName (decode s) := by
  have hmem := (h.find?_eq_some_iff (by simp [hne])).1 hf
  exact fun s hs => hdecode _ hmem s (List.mem_append_right _ hs)

/-- The selected files of a tree whose input root is a directory. -/
theorem discovered_selectedBelow (h : t.WellFormed)
    (hroot : t.get? c.input.root = .ok (top, .directory)) (hdecode : KeepsNames decode t) :
    Discovered decode excludes c t top (selectedBelow decode t top c.input.extensions
      (excludedBy excludes) (leadsToOutput c t top)) where
  nodup := nodup_selectedBelow h
  mem_iff _ := mem_selectedBelow_iff_isSource h
  sorted := sorted_selectedBelow
  rising_iff := sorted_selectedBelow.pairwise_lt_iff fun l hl => by
    obtain ⟨hne, ⟨content, hf⟩, -⟩ := (mem_selectedBelow_iff h).1 hl
    exact ⟨hne, hdecode.of_find? h hne hf⟩
  leads l hl := by
    obtain ⟨hne, ⟨content, hf⟩, -⟩ := (mem_selectedBelow_iff h).1 hl
    exact ⟨content, FileTree.get?_pathBelow hroot h hne hf (by simp)⟩

/-- **Discovery finds the input files.** In a tree whose input root is a directory it finds the
files that meet the condition, once each and in the order of their identifiers, for any way to read
names as text and any predicates that leave paths out. With texts for names and with the configured
patterns the identifiers rise. -/
theorem discover_sources (h : t.WellFormed)
    (hroot : t.get? c.input.root = .ok (top, .directory)) (hdecode : KeepsNames decode t) :
    (∃ places, Discovered decode excludes c t top places ∧
      discoverBy decode (.ok excludes) c t = .ok (places.map fun l =>
        ⟨pathBelow c.input.root l, "/".intercalate (l.map decode)⟩)) ∧
    ∀ patterns, c.patterns = .ok patterns →
      ∃ places, Discovered id (patterns.map Pattern.matchesIn) c t top places ∧
        (places.Pairwise fun l m => "/".intercalate l < "/".intercalate m) ∧
        discover c t = .ok (places.map fun l =>
          ⟨pathBelow c.input.root l, "/".intercalate l⟩) := by
  refine ⟨⟨_, discovered_selectedBelow h hroot hdecode, ?_⟩, fun patterns hp => ?_⟩
  · exact discoverBy_eq_ok_iff.2 ⟨top, excludes, hroot, rfl, rfl⟩
  · have hfound : Discovered id (patterns.map Pattern.matchesIn) c t top _ :=
      discovered_selectedBelow h hroot h.names
    refine ⟨_, hfound, ?_, discover_eq_ok_iff.2 ⟨top, patterns, hroot, hp, rfl⟩⟩
    simpa using hfound.rising_iff.2 (by simpa using hfound.nodup)

/-- Three headers, one of which has a name that is no text, a link to one of them, a link up to the
directory of them all, and two directories that are left out with the headers in them. -/
def linkedTree : FileTree where
  entries :=
    [(["src"], .directory), (["src", "b.h"], .file "".toUTF8),
      (["src", "b\xff.h"], .file "".toUTF8), (["src", "a"], .directory),
      (["src", "a", "c.HPP"], .file "".toUTF8), (["src", "a", "up"], .link ".."),
      (["src", "linked.h"], .link "b.h"),
      (["src", "skip"], .directory), (["src", "skip", "d.h"], .file "".toUTF8),
      (["src", "out"], .directory), (["src", "out", "b.gen.h"], .file "".toUTF8)]

/-- The output root is reached through a link. -/
def linkedConfig : Config where
  input := { root := "src", exclude := ["^skip$"] }
  output := { root := "src/a/up/out" }

theorem linkedTree_wellFormed : linkedTree.WellFormed := by
  refine ⟨by decide, by decide, ?_, ?_⟩
  · have names : ∀ l ∈ linkedTree.entries.map (·.1), ∀ s ∈ l, IsName s := by decide
    exact fun e he => names e.1 (List.mem_map_of_mem he)
  · simp [linkedTree, FileTree.find?, List.lookup_cons]

theorem linkedTree_keepsNames : KeepsNames Text.decodeBytes linkedTree := by
  have names : ∀ l ∈ linkedTree.entries.map (·.1), ∀ s ∈ l, IsName (Text.decodeBytes s) := by
    decide +kernel
  exact fun e he => names e.1 (List.mem_map_of_mem he)

/-- What a walk comes to decides what is selected. -/
theorem selectedBelow_of_walk {extensions : List String} {excluded : String → Bool}
    {barred : Location → Bool} {walked : List (Location × Entry)} (ls : List Location)
    (hwalk : t.walkBelow (isEntered decode excluded barred) top [] = walked)
    (hfiles : (walked.filter (isCandidate decode extensions)).map (·.1) = ls)
    (hsorted : ls.Pairwise fun l m => idLe decode l m = true) :
    selectedBelow decode t top extensions excluded barred = ls := by
  rw [selectedBelow, hwalk, hfiles]
  exact List.mergeSort_of_pairwise hsorted

theorem discoverBy_linked :
    discoverBy Text.decodeBytes (.ok [fun id => id == "skip"]) linkedConfig linkedTree =
      .ok [⟨"src/a/c.HPP", "a/c.HPP"⟩, ⟨"src/b.h", "b.h"⟩, ⟨"src/b\xff.h", "b\uFFFD.h"⟩] := by
  have hroot : linkedTree.get? linkedConfig.input.root = .ok (["src"], .directory) := by cbv
  have hwalk : linkedTree.walkBelow (isEntered Text.decodeBytes
      (excludedBy [fun id => id == "skip"]) (leadsToOutput linkedConfig linkedTree ["src"]))
      ["src"] [] =
      [(["a"], .directory), (["a", "c.HPP"], .file "".toUTF8), (["a", "up"], .link ".."),
        (["b.h"], .file "".toUTF8), (["b\xff.h"], .file "".toUTF8),
        (["linked.h"], .link "b.h")] := by cbv
  refine discoverBy_eq_ok_iff.2 ⟨["src"], _, hroot, rfl, ?_⟩
  rw [selectedBelow_of_walk [["a", "c.HPP"], ["b.h"], ["b\xff.h"]] hwalk
    (by decide +kernel) (by decide +kernel)]
  decide +kernel

theorem discover_sources_linked :
    linkedTree.WellFormed ∧ linkedTree.get? linkedConfig.input.root = .ok (["src"], .directory) ∧
    KeepsNames Text.decodeBytes linkedTree ∧
    (∃ places, Discovered Text.decodeBytes [fun id => id == "skip"] linkedConfig linkedTree ["src"]
        places ∧
      discoverBy Text.decodeBytes (.ok [fun id => id == "skip"]) linkedConfig linkedTree =
        .ok (places.map fun l => ⟨pathBelow linkedConfig.input.root l,
          "/".intercalate (l.map Text.decodeBytes)⟩)) ∧
    discoverBy Text.decodeBytes (.ok [fun id => id == "skip"]) linkedConfig linkedTree =
      .ok [⟨"src/a/c.HPP", "a/c.HPP"⟩, ⟨"src/b.h", "b.h"⟩, ⟨"src/b\xff.h", "b\uFFFD.h"⟩] ∧
    ∃ patterns, linkedConfig.patterns = .ok patterns ∧
      ∃ places, Discovered id (patterns.map Pattern.matchesIn) linkedConfig linkedTree ["src"]
          places ∧
        (places.Pairwise fun l m => "/".intercalate l < "/".intercalate m) ∧
        discover linkedConfig linkedTree = .ok (places.map fun l =>
          ⟨pathBelow linkedConfig.input.root l, "/".intercalate l⟩) := by
  have hroot : linkedTree.get? linkedConfig.input.root = .ok (["src"], .directory) := by cbv
  obtain ⟨patterns, hp⟩ : ∃ patterns, linkedConfig.patterns = .ok patterns := ⟨_, rfl⟩
  obtain ⟨hfound, hall⟩ :=
    discover_sources linkedTree_wellFormed hroot linkedTree_keepsNames
  exact ⟨linkedTree_wellFormed, hroot, linkedTree_keepsNames, hfound, discoverBy_linked, patterns,
    hp, hall patterns hp⟩

/-- Two headers whose names differ in a byte that is no text. -/
def bytesTree : FileTree where
  entries :=
    [(["src"], .directory), (["src", "a\xff.h"], .file "".toUTF8),
      (["src", "a\xfe.h"], .file "".toUTF8)]

/-- A header whose extension differs from a configured one in the case of its letters alone. -/
def sigmaTree : FileTree where
  entries := [(["src"], .directory), (["src", "x.ασ"], .file "".toUTF8)]

/-- The lower case of a capital sigma depends on where it stands. -/
def sigmaConfig : Config where
  input := { root := "src", extensions := ["h", "ΑΣ"] }

/-- Different names can be read as one text, so that two files get one identifier. Lower case is not
all that case is, so that a file is not found although its extension is a configured one but for the
case. -/
theorem discover_alike :
    discoverBy Text.decodeBytes (.ok []) sigmaConfig bytesTree =
      .ok [⟨"src/a\xfe.h", "a\uFFFD.h"⟩, ⟨"src/a\xff.h", "a\uFFFD.h"⟩] ∧
    "ΑΣ".toList.map Text.foldChar = "ασ".toList.map Text.foldChar ∧
    discover sigmaConfig sigmaTree = .ok [] := by
  refine ⟨?_, by decide +kernel, ?_⟩
  · have hroot : bytesTree.get? sigmaConfig.input.root = .ok (["src"], .directory) := by cbv
    have hwalk : bytesTree.walkBelow (isEntered Text.decodeBytes (excludedBy [])
        (leadsToOutput sigmaConfig bytesTree ["src"])) ["src"] [] =
        [(["a\xfe.h"], .file "".toUTF8), (["a\xff.h"], .file "".toUTF8)] := by cbv
    refine discoverBy_eq_ok_iff.2 ⟨["src"], [], hroot, rfl, ?_⟩
    rw [selectedBelow_of_walk [["a\xfe.h"], ["a\xff.h"]] hwalk (by decide +kernel)
      (by decide +kernel)]
    decide +kernel
  · have hroot : sigmaTree.get? sigmaConfig.input.root = .ok (["src"], .directory) := by cbv
    have hwalk : sigmaTree.walkBelow (isEntered id (excludedBy [])
        (leadsToOutput sigmaConfig sigmaTree ["src"])) ["src"] [] =
        [(["x.ασ"], .file "".toUTF8)] := by cbv
    refine discover_eq_ok_iff.2 ⟨["src"], [], hroot, rfl, ?_⟩
    rw [List.map_nil, selectedBelow_of_walk [] hwalk (by decide +kernel) .nil]
    rfl

end HeaderReflection.Project
