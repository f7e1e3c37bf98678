import HeaderReflection.Proofs.FileTree.Plain
import HeaderReflection.Proofs.Project.Pruning

/-!
# Writing in plain trees

A run that writes changes no more of a plain tree than the places that its paths lead to, and the
directories on the way there.

* `commit_plain`, `commitAll_plain`: planned files hold their texts once they are written.
* `mem_candidates_iff`: the stale files of a plain tree.
* `prune_plain`: pruning deletes the stale files, without fail, and leaves no further ones.
-/

namespace HeaderReflection.Project

open FileTree (Edits IsPlain Reaches pathBelow)
open HeaderReflection.Path (IsName destination)

variable {t t' : FileTree}

/-! ## Planned files -/

theorem holds_iff (h : t.IsPlain) {path text : String} :
    Holds t path text ↔ t.Reaches path ∧
      ∃ held, t.find? (destination path) = some (.file held) ∧ held.data = text.toUTF8.data := by
  simp only [Holds, FileTree.read_eq_ok_iff h, and_assoc, exists_and_left]

theorem Holds.edits {path text : String} (hh : Holds t path text) (h : t.IsPlain)
    (h' : t'.IsPlain) {area : Location → Prop} (edits : Edits area t t')
    (hout : ¬ area (destination path)) : Holds t' path text := by
  obtain ⟨hr, held, hf, hd⟩ := (holds_iff h).1 hh
  exact (holds_iff h').2 ⟨edits.reaches hr, held, (edits.files _ hout held).2 hf, hd⟩

theorem writeOver_plain (h : t.IsPlain) (path text : String) :
    (writeOver t path text.toUTF8).2.IsPlain ∧
      Edits (· = destination path) t (writeOver t path text.toUTF8).2 ∧
      ((writeOver t path text.toUTF8).1.isFailure = false →
        Holds (writeOver t path text.toUTF8).2 path text) := by
  obtain ⟨h₁, edits₁⟩ := FileTree.createDirectories_plain h (directoryOf path)
  have edits₁ : Edits (· = destination path) t _ := edits₁.mono fun _ => False.elim
  unfold writeOver
  split
  · rename_i hmake
    rw [hmake] at h₁ edits₁
    exact ⟨h₁, edits₁, fun hf => nomatch hf⟩
  · rename_i hmake
    rw [hmake] at h₁ edits₁
    split
    · exact ⟨h₁, edits₁, fun hf => nomatch hf⟩
    · rename_i hput
      obtain ⟨h₂, edits₂, hr, hf⟩ := FileTree.replace_plain h₁ hput
      exact ⟨h₂, edits₁.trans edits₂, fun _ => (holds_iff h₂).2 ⟨hr, _, hf, rfl⟩⟩

/-- A commit changes the place of its file alone. The file holds its text, unless it could not be
written. -/
theorem commit_plain (h : t.IsPlain) (path text : String) :
    (commit false t path text).2.IsPlain ∧
      Edits (· = destination path) t (commit false t path text).2 ∧
      ((commit false t path text).1.isFailure = false →
        Holds (commit false t path text).2 path text) := by
  by_cases hh : Holds t path text
  · rw [commit_of_holds hh]
    exact ⟨h, .refl _ _, fun _ => hh⟩
  · rcases commit_of_not_holds hh false with hc | ⟨reason, hc⟩
    · rw [hc]
      exact writeOver_plain h path text
    · rw [hc]
      exact ⟨h, .refl _ _, fun hf => nomatch hf⟩

/-- Files that are committed to different places hold their texts in the end, those that could not
be written apart. -/
theorem commitAll_plain (h : t.IsPlain) {ps : List PlannedFile}
    (hd : (ps.map fun p => destination p.path).Nodup) :
    (commitAll false t ps).2.IsPlain ∧
      Edits (· ∈ ps.map fun p => destination p.path) t (commitAll false t ps).2 ∧
      ∀ x ∈ ps.zip (commitAll false t ps).1, x.2.outcome.isFailure = false →
        Holds (commitAll false t ps).2 x.1.path x.1.text := by
  induction ps generalizing t with
  | nil => exact ⟨h, .refl _ _, by simp⟩
  | cons p rest ih =>
    obtain ⟨hp, hd⟩ := List.nodup_cons.1 hd
    obtain ⟨h₁, edits₁, holds₁⟩ := commit_plain h p.path p.text
    obtain ⟨h₂, edits₂, holds₂⟩ := ih h₁ hd
    refine ⟨h₂, (edits₁.mono ?_).trans (edits₂.mono ?_), ?_⟩
    · exact fun l hl => List.mem_cons.2 (.inl hl)
    · exact fun l hl => List.mem_cons_of_mem _ hl
    · rw [commitAll, List.zip_cons_cons, List.forall_mem_cons]
      exact ⟨fun hf => (holds₁ hf).edits h₁ h₂ edits₂ hp, holds₂⟩

/-- Each planned file has its report. -/
theorem mem_zip_commitAll (dryRun : Bool) (t : FileTree) {ps : List PlannedFile} {p : PlannedFile}
    (hp : p ∈ ps) :
    ∃ r ∈ (commitAll dryRun t ps).1, (p, r) ∈ ps.zip (commitAll dryRun t ps).1 := by
  induction ps generalizing t with
  | nil => cases hp
  | cons q rest ih =>
    rw [commitAll, List.zip_cons_cons]
    rcases List.mem_cons.1 hp with rfl | hp
    · exact ⟨_, List.mem_cons_self, List.mem_cons_self⟩
    · obtain ⟨r, hr, hpr⟩ := ih _ hp
      exact ⟨r, List.mem_cons_of_mem _ hr, List.mem_cons_of_mem _ hpr⟩

/-! ## Pruning -/

/-- The second tree has the directories of the first one, and no further files. -/
structure Shrinks (t t' : FileTree) : Prop where
  directories : ∀ l, t'.find? l = some .directory ↔ t.find? l = some .directory
  files : ∀ l content, t'.find? l = some (.file content) → t.find? l = some (.file content)

namespace Shrinks

theorem refl (t : FileTree) : Shrinks t t := ⟨fun _ => Iff.rfl, fun _ _ h => h⟩

theorem reaches_iff (h : Shrinks t t') {path : String} : t'.Reaches path ↔ t.Reaches path :=
  ⟨fun hr => ⟨hr.ne_empty, fun l hl => (h.directories l).1 (hr.directories l hl)⟩,
    fun hr => ⟨hr.ne_empty, fun l hl => (h.directories l).2 (hr.directories l hl)⟩⟩

end Shrinks

/-- What deleting some files does to a plain tree. -/
structure Deletes (paths : List String) (p p' : Pruned) : Prop where
  plain : p'.tree.IsPlain
  faults : p'.faults = p.faults
  shrinks : Shrinks p.tree p'.tree
  edits : Edits (· ∈ paths.map destination) p.tree p'.tree
  gone : ∀ path ∈ paths, p'.tree.isFile path = false

/-- Files that have been deleted below a directory of a plain tree. -/
theorem Sweeps.deletes {p p' : Pruned} {root : String} {top : Location} {ls : List Location}
    (sweeps : Sweeps root top ls p p') (h : p.tree.IsPlain)
    (hroot : p.tree.get? root = .ok (top, .directory)) (hnames : ∀ l ∈ ls, ∀ s ∈ l, IsName s) :
    Deletes (ls.map (pathBelow root)) p p' := by
  obtain ⟨-, rfl, -⟩ := (FileTree.get?_eq_ok_iff h).1 hroot
  have hplace : ∀ l ∈ ls, destination (pathBelow root l) = destination root ++ l :=
    fun l hl => FileTree.destination_pathBelow root (hnames l hl)
  have plain := sweeps.ways.isPlain h sweeps.wellFormed
  refine ⟨plain, sweeps.faults, ⟨sweeps.ways.directories, fun m content hm => ?_⟩,
    ⟨fun m => (sweeps.ways.directories m).2, fun m hout content => ?_⟩, fun path hpath => ?_⟩
  · by_cases hdeleted : ∃ l ∈ ls, m = destination root ++ l
    · obtain ⟨l, hl, rfl⟩ := hdeleted
      rw [sweeps.gone l hl] at hm
      cases hm
    · rwa [sweeps.kept m fun l hl he => hdeleted ⟨l, hl, he⟩] at hm
  · rw [sweeps.kept m fun l hl he => hout ?_]
    rw [he, ← hplace l hl]
    exact List.mem_map_of_mem (List.mem_map_of_mem hl)
  · obtain ⟨l, hl, rfl⟩ := List.mem_map.1 hpath
    rw [Bool.eq_false_iff]
    intro hfile
    obtain ⟨-, content, hcontent⟩ := (FileTree.isFile_iff plain).1 hfile
    rw [hplace l hl, sweeps.gone l hl] at hcontent
    cases hcontent

/-- The paths that pruning looks at in a plain tree. -/
theorem mem_candidates_iff (h : t.IsPlain) {o : OutputConfig} {expected : List String}
    {path : String} :
    path ∈ candidates o expected t
      ↔ t.Reaches o.root ∧ t.find? (destination o.root) = some .directory ∧
        ∃ l content, path = pathBelow o.root l ∧ l ≠ [] ∧
          t.find? (destination o.root ++ l) = some (.file content) ∧
          isStale o.suffix o.root expected (l, content) = true := by
  have stale (top l : Location) : l ∈ staleBelow t top o.suffix o.root expected
      ↔ ∃ content, l ≠ [] ∧ t.find? (top ++ l) = some (.file content) ∧
        isStale o.suffix o.root expected (l, content) = true := by
    simp only [staleBelow, List.mem_mergeSort, List.mem_map, List.mem_filter, Prod.exists,
      h.wellFormed.mem_filesBelow_iff, and_assoc]
    constructor
    · rintro ⟨l, content, hne, hf, hs, rfl⟩
      exact ⟨content, hne, hf, hs⟩
    · rintro ⟨content, hne, hf, hs⟩
      exact ⟨l, content, hne, hf, hs, rfl⟩
  unfold candidates
  constructor
  · intro hm
    split at hm
    · rename_i top hg
      obtain ⟨hr, rfl, hd⟩ := (FileTree.get?_eq_ok_iff h).1 hg
      obtain ⟨l, hl, rfl⟩ := List.mem_map.1 hm
      obtain ⟨content, hne, hf, hs⟩ := (stale _ l).1 hl
      exact ⟨hr, hd, l, content, rfl, hne, hf, hs⟩
    · cases hm
  · rintro ⟨hr, hd, l, content, rfl, hne, hf, hs⟩
    rw [(FileTree.get?_eq_ok_iff h).2 ⟨hr, rfl, hd⟩]
    exact List.mem_map_of_mem ((stale _ l).2 ⟨content, hne, hf, hs⟩)

/-- Pruning deletes the stale files, and there are no further ones. -/
theorem prune_plain (h : t.IsPlain) (o : OutputConfig) (expected : List String) :
    Deletes (candidates o expected t) { tree := t } (prune o false expected t) ∧
      Clean o expected (prune o false expected t).tree := by
  by_cases hroot : ∃ top, t.get? o.root = .ok (top, .directory)
  · obtain ⟨top, hroot⟩ := hroot
    have sweeps := prune_sweeps h.wellFormed hroot expected
    have hroot' := sweeps.ways.get?_directory_iff.2 hroot
    constructor
    · rw [candidates, hroot]
      refine sweeps.deletes h hroot fun l hl => ?_
      obtain ⟨content, hf⟩ := ((mem_staleBelow_iff h.wellFormed).1 hl).isFile
      exact h.wellFormed.isName_below hf
    · intro path hpath
      rw [candidates, hroot'] at hpath
      obtain ⟨l, hl, -⟩ := List.mem_map.1 hpath
      exact absurd ((mem_staleBelow_iff sweeps.wellFormed).1 hl) (sweeps.not_stale h.wellFormed l)
  · have hquiet : prune o false expected t = { tree := t } :=
      prune_of_not_directory (not_exists.1 hroot) false
    have hnone : candidates o expected t = [] := by
      unfold candidates
      split
      · rename_i top hg
        exact absurd ⟨top, hg⟩ hroot
      · rfl
    rw [Clean, hquiet, hnone]
    exact ⟨⟨h, rfl, .refl _, .refl _ _, by simp⟩, by simp⟩

end HeaderReflection.Project
