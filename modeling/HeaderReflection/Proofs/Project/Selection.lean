import Mathlib.Data.List.Nodup
import Mathlib.Data.List.Perm.Basic
import HeaderReflection.Project.Discover
import HeaderReflection.Proofs.FileTree.Walks
import HeaderReflection.Proofs.Outcome
import HeaderReflection.Proofs.Project.Layout

/-!
# Selected files

A walk through the input root leaves out what is below an excluded directory or below the output
root. So a file is selected just if it has one of the extensions, no place on the way to it is
excluded, and no directory on the way to it is barred.

* `isSelected`: what is asked of one file.
* `mem_selectedBelow_iff`: the selected files are those of which this holds.
* `Sorted.pairwise_lt_iff`: they are in the order of their identifiers, which rise unless two files
  have the same texts for names.
* `selectedBelow_eq`: the list of them, where the names are texts.
* `discoverBy_eq_ok_iff`, `discover_eq_ok_iff`: discovery answers with the selected files.
-/

namespace HeaderReflection.Project

open FileTree (Comes WellFormed)
open HeaderReflection.Path (IsName)

variable {decode : String → String} {t : FileTree} {top l : Location} {extensions : List String}
  {excluded : String → Bool} {barred : Location → Bool}

/-- The locations on the way to a location, itself included. -/
def stages (l : Location) : List Location :=
  (List.range l.length).map fun n => l.take (n + 1)

theorem mem_stages_iff {l s : Location} : s ∈ stages l ↔ s ≠ [] ∧ s <+: l := by
  simp only [stages, List.mem_map, List.mem_range]
  constructor
  · rintro ⟨n, hn, rfl⟩
    refine ⟨?_, List.take_prefix _ _⟩
    have hpos : 0 < l.length := by omega
    simpa [List.take_eq_nil_iff] using List.ne_nil_of_length_pos hpos
  · rintro ⟨hne, rest, rfl⟩
    have hpos := List.length_pos_of_ne_nil hne
    refine ⟨s.length - 1, by simp; omega, ?_⟩
    rw [Nat.sub_add_cancel hpos, List.take_left']
    rfl

/-- The stages of the directory of a location are those before the last one. -/
theorem mem_stages_dropLast_iff {s : Location} :
    s ∈ stages l.dropLast ↔ s ≠ [] ∧ s <+: l ∧ s ≠ l := by
  rw [mem_stages_iff]
  refine and_congr_right fun hne => ?_
  rcases List.eq_nil_or_concat l with rfl | ⟨directory, name, rfl⟩
  · simp [hne]
  · rw [List.concat_eq_append, List.dropLast_concat, List.prefix_concat_iff]
    constructor
    · intro hpre
      refine ⟨.inr hpre, fun he => ?_⟩
      have hlen := (he ▸ hpre).length_le
      rw [List.length_append, List.length_singleton] at hlen
      exact Nat.not_succ_le_self _ hlen
    · rintro ⟨hl | hpre, hl'⟩
      · exact absurd hl hl'
      · exact hpre

/-- A file at a location below the input root is read. The directories on the way to it are not the
barred one. -/
def isSelected (decode : String → String) (extensions : List String) (excluded : String → Bool)
    (barred : Location → Bool) (l : Location) : Bool :=
  l.getLast?.any (hasExtension decode extensions)
    && !((stages l).any fun stage => excluded (fileIdOf (stage.map decode)))
    && !((stages l.dropLast).any barred)

theorem isSelected_iff : isSelected decode extensions excluded barred l = true ↔
    l.getLast?.any (hasExtension decode extensions) = true ∧
      (∀ stage, stage ≠ [] → stage <+: l → excluded (fileIdOf (stage.map decode)) = false) ∧
      ∀ stage, stage ≠ [] → stage <+: l → stage ≠ l → barred stage = false := by
  simp only [isSelected, Bool.and_eq_true, Bool.not_eq_true', List.any_eq_false,
    mem_stages_dropLast_iff, Bool.not_eq_true, and_assoc]
  simp only [mem_stages_iff, and_imp]

/-- The walk comes to a file just if no place on the way is left out. -/
theorem comes_file_iff (h : t.WellFormed) {content : ByteArray} :
    Comes t (isEntered decode excluded barred) top [] l (.file content) ↔
      l ≠ [] ∧ t.find? (top ++ l) = some (.file content) ∧
      (∀ stage, stage ≠ [] → stage <+: l → excluded (fileIdOf (stage.map decode)) = false) ∧
      ∀ stage, stage ≠ [] → stage <+: l → stage ≠ l → barred stage = false := by
  have hfind : ∀ {stage : Location} {e : Entry}, stage ≠ [] →
      ((top ++ ([] ++ stage), e) ∈ t.entries ↔ t.find? (top ++ stage) = some e) :=
    fun hne => (h.find?_eq_some_iff (by simp [hne])).symm
  constructor
  · intro hc
    have hkept := hc.kept
    simp only [isEntered, Entry.isDirectory, Bool.false_and, Bool.not_false, Bool.true_and,
      Bool.not_eq_true', List.nil_append] at hkept
    have hstages : ∀ stage, stage ≠ [] → stage <+: l → stage ≠ l →
        barred stage = false ∧ excluded (fileIdOf (stage.map decode)) = false := by
      intro stage hne hpre hstage
      simpa [isEntered, Entry.isDirectory] using (hc.ancestors stage hne hpre hstage).2
    refine ⟨hc.ne_nil, (hfind hc.ne_nil).1 hc.entry, fun stage hne hpre => ?_,
      fun stage hne hpre hstage => (hstages stage hne hpre hstage).1⟩
    by_cases hl : stage = l
    · exact hl ▸ hkept
    · exact (hstages stage hne hpre hl).2
  · rintro ⟨hne, hf, hx, hb⟩
    refine ⟨hne, (hfind hne).2 hf, ?_, fun stage hs hpre hstage => ⟨(hfind hs).2 ?_, ?_⟩⟩
    · simpa [isEntered, Entry.isDirectory] using hx l hne List.prefix_rfl
    · exact h.directory_of_prefix hf hpre hstage
    · simpa [isEntered, Entry.isDirectory] using ⟨hb stage hs hpre hstage, hx stage hs hpre⟩

/-- The walk comes to the selected files. -/
theorem exists_comes_of_mem : l ∈ selectedBelow decode t top extensions excluded barred ↔
    ∃ content, Comes t (isEntered decode excluded barred) top [] l (.file content) ∧
      l.getLast?.any (hasExtension decode extensions) = true := by
  simp only [selectedBelow, List.mem_mergeSort, List.mem_map, List.mem_filter, isCandidate,
    Bool.and_eq_true, Prod.exists, FileTree.mem_walkBelow_iff]
  constructor
  · rintro ⟨l, e, ⟨hc, hfile, hext⟩, rfl⟩
    cases e with
    | file content => exact ⟨content, hc, hext⟩
    | directory => cases hfile
    | link target => cases hfile
  · rintro ⟨content, hc, hext⟩
    exact ⟨l, .file content, ⟨hc, rfl, hext⟩, rfl⟩

/-- Whether a file is selected is decided by its own location. -/
theorem mem_selectedBelow_iff (h : t.WellFormed) :
    l ∈ selectedBelow decode t top extensions excluded barred ↔
      l ≠ [] ∧ (∃ content, t.find? (top ++ l) = some (.file content)) ∧
        isSelected decode extensions excluded barred l = true := by
  simp only [exists_comes_of_mem, comes_file_iff h, isSelected_iff]
  constructor
  · rintro ⟨content, ⟨hne, hf, hx, hb⟩, hext⟩
    exact ⟨hne, ⟨content, hf⟩, hext, hx, hb⟩
  · rintro ⟨hne, ⟨content, hf⟩, hext, hx, hb⟩
    exact ⟨content, ⟨hne, hf, hx, hb⟩, hext⟩

theorem nodup_selectedBelow (h : t.WellFormed) :
    (selectedBelow decode t top extensions excluded barred).Nodup := by
  rw [selectedBelow, (List.mergeSort_perm _ _).nodup_iff]
  exact (FileTree.nodup_walkBelow h.unique).sublist (List.filter_sublist.map _)

theorem selectedBelow_names (h : t.WellFormed)
    (hl : l ∈ selectedBelow decode t top extensions excluded barred) :
    l ≠ [] ∧ ∀ s ∈ l, IsName s := by
  obtain ⟨hne, ⟨content, hf⟩, -⟩ := (mem_selectedBelow_iff h).1 hl
  exact ⟨hne, h.isName_below hf⟩

/-! ## The order of the files -/

/-- The locations are in the order of their identifiers. -/
def Sorted (decode : String → String) (ls : List Location) : Prop :=
  ls.Pairwise fun l m => fileIdOf (l.map decode) ≤ fileIdOf (m.map decode)

theorem sorted_mergeSort (ls : List Location) : Sorted decode (ls.mergeSort (idLe decode)) := by
  have h : (ls.mergeSort (idLe decode)).Pairwise fun l m => idLe decode l m = true :=
    List.pairwise_mergeSort (by simpa [idLe] using fun a b c => String.le_trans)
      (by simpa [idLe] using fun a b => String.le_total _ _) ls
  exact h.imp of_decide_eq_true

theorem sorted_selectedBelow :
    Sorted decode (selectedBelow decode t top extensions excluded barred) :=
  sorted_mergeSort _

/-- Files in the order of their identifiers have identifiers that rise, just if no two of them have
the same texts for names. -/
theorem Sorted.pairwise_lt_iff {ls : List Location} (hls : Sorted decode ls)
    (hnames : ∀ l ∈ ls, l ≠ [] ∧ ∀ s ∈ l, IsName (decode s)) :
    (ls.Pairwise fun l m => fileIdOf (l.map decode) < fileIdOf (m.map decode)) ↔
      (ls.map (List.map decode)).Nodup := by
  rw [List.Nodup, List.pairwise_map]
  constructor
  · refine fun hlt => hlt.imp fun {l m} hlt he => ?_
    rw [he] at hlt
    exact String.lt_irrefl _ hlt
  · intro hnodup
    refine (hls.and hnodup).imp_of_mem fun {l m} hl hm ⟨hle, hne⟩ => ?_
    by_contra hlt
    obtain ⟨hlne, hlnames⟩ := hnames l hl
    obtain ⟨hmne, hmnames⟩ := hnames m hm
    exact hne (fileIdOf_injective (List.forall_mem_map.2 hlnames) (List.forall_mem_map.2 hmnames)
      (by simpa using hlne) (by simpa using hmne)
      (String.le_antisymm hle (String.not_lt.1 hlt)))

/-- Names that are texts tell places apart, so the order of their identifiers leaves no choice. -/
theorem eq_of_perm_of_sorted {ls ms : List Location} (perm : ls.Perm ms)
    (hnames : ∀ l ∈ ls, l ≠ [] ∧ ∀ s ∈ l, IsName s) (hls : Sorted id ls) (hms : Sorted id ms) :
    ls = ms := by
  refine perm.eq_of_pairwise ?_ hls hms
  intro l m hl hm hle hge
  obtain ⟨hlne, hlnames⟩ := hnames l hl
  obtain ⟨hmne, hmnames⟩ := hnames m (perm.mem_iff.2 hm)
  rw [List.map_id, List.map_id] at hle hge
  exact fileIdOf_injective hlnames hmnames hlne hmne (String.le_antisymm hle hge)

/-- The selected files, listed without a walk. -/
theorem selectedBelow_eq (h : t.WellFormed) : selectedBelow id t top extensions excluded barred =
    (((t.filesBelow top).map (·.1)).filter (isSelected id extensions excluded barred)).mergeSort
      (idLe id) := by
  refine eq_of_perm_of_sorted ?_ (fun l hl => selectedBelow_names h hl) sorted_selectedBelow
    (sorted_mergeSort _)
  refine .trans ?_ (List.mergeSort_perm _ _).symm
  rw [List.perm_ext_iff_of_nodup (nodup_selectedBelow h)
    ((FileTree.nodup_filesBelow h.unique _).filter _)]
  intro l
  have hfile : l ∈ (t.filesBelow top).map (·.1) ↔
      l ≠ [] ∧ ∃ content, t.find? (top ++ l) = some (.file content) := by
    simp [h.mem_filesBelow_iff]
  rw [mem_selectedBelow_iff h, List.mem_filter, hfile, and_assoc]

/-! ## Discovery -/

section Discovery

variable {c : Config} {sources : List SourceFile}

/-- One of the predicates leaves a path out. -/
def excludedBy (excludes : List (String → Bool)) (id : String) : Bool :=
  excludes.any fun isMatch => isMatch id

theorem discoverBy_eq_ok_iff {excludes : Except Fault (List (String → Bool))} :
    discoverBy decode excludes c t = .ok sources ↔
      ∃ top es, t.get? c.input.root = .ok (top, .directory) ∧ excludes = .ok es ∧
        (selectedBelow decode t top c.input.extensions (excludedBy es) (leadsToOutput c t top)).map
          (fun l => ⟨FileTree.pathBelow c.input.root l, fileIdOf (l.map decode)⟩) = sources := by
  unfold discoverBy
  split
  · rename_i top hroot
    rw [bind_eq_ok_iff]
    constructor
    · rintro ⟨es, hes, hsources⟩
      exact ⟨top, es, hroot, hes, Except.ok.inj hsources⟩
    · rintro ⟨top', es, hroot', hes, hsources⟩
      obtain rfl := congrArg Prod.fst (Except.ok.inj (hroot.symm.trans hroot'))
      exact ⟨es, hes, congrArg Except.ok hsources⟩
  · rename_i hroot
    simp only [false_iff, reduceCtorEq]
    rintro ⟨top, es, hroot', -⟩
    exact hroot top hroot'

theorem discover_eq_ok_iff :
    discover c t = .ok sources ↔
      ∃ top patterns, t.get? c.input.root = .ok (top, .directory) ∧ c.patterns = .ok patterns ∧
        (selectedBelow id t top c.input.extensions (excludedBy (patterns.map Pattern.matchesIn))
          (leadsToOutput c t top)).map
            (fun l => ⟨FileTree.pathBelow c.input.root l, fileIdOf l⟩) = sources := by
  simp only [discover, discoverBy_eq_ok_iff, map_eq_ok_iff, List.map_id]
  constructor
  · rintro ⟨top, _, hroot, ⟨patterns, hp, rfl⟩, hsources⟩
    exact ⟨top, patterns, hroot, hp, hsources⟩
  · rintro ⟨top, patterns, hroot, hp, hsources⟩
    exact ⟨top, _, hroot, ⟨patterns, hp, rfl⟩, hsources⟩

end Discovery

end HeaderReflection.Project
