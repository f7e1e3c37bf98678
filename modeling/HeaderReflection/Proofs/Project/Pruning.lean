import Mathlib.Data.List.Lex
import Mathlib.Data.List.Nodup
import Mathlib.Data.String.Basic
import HeaderReflection.Proofs.FileTree.Changes
import HeaderReflection.Proofs.Project.Current

/-!
# Pruning trees with links

Pruning deletes the files below the output root that nobody expects and that look generated, and
nothing else. A file looks generated by its name and by how its text starts. Links below the output
root are not followed, and none of them is deleted.

* `isGenerated_iff`: what a generated file looks like.
* `mem_staleBelow_iff`, `sorted_staleBelow`: which files are stale, and in which order.
* `foldl_step_sweeps`, `foldl_step_dry`: going through files, to delete them or to tell them.
* `prune_sweeps`, `prune_dry`: what pruning deletes, and what a dry run tells.
-/

namespace HeaderReflection

namespace FileTree

/-! ## The order of locations -/

theorem locationLe_iff {l m : Location} : locationLe l m = true ↔ l < m ∨ l = m := by
  induction l generalizing m with
  | nil =>
    cases m with
    | nil => simp [locationLe]
    | cons b m => simp [locationLe]
  | cons a l ih =>
    cases m with
    | nil => simp [locationLe]
    | cons b m =>
      simp only [locationLe, Bool.or_eq_true, Bool.and_eq_true, decide_eq_true_eq, ih,
        List.cons_lt_cons_iff, List.cons.injEq, and_or_left, or_assoc]

theorem locationLe_iff_le {l m : Location} : locationLe l m = true ↔ l ≤ m :=
  locationLe_iff.trans le_iff_lt_or_eq.symm

theorem pairwise_mergeSort_locationLe (ls : List Location) :
    (ls.mergeSort locationLe).Pairwise (· ≤ ·) := by
  have h : (ls.mergeSort locationLe).Pairwise fun l m => locationLe l m = true := by
    refine List.pairwise_mergeSort (fun l m n hlm hmn => ?_) (fun l m => ?_) ls
    · exact locationLe_iff_le.2 ((locationLe_iff_le.1 hlm).trans (locationLe_iff_le.1 hmn))
    · rw [Bool.or_eq_true, locationLe_iff_le, locationLe_iff_le]
      exact le_total l m
  exact h.imp locationLe_iff_le.1

end FileTree

namespace Project

open FileTree (SameWays WellFormed pathBelow)

/-! ## Generated files -/

/-- A file is taken for a generated one: its name has the suffix at its end or before an extension,
and its content is a text that starts with the mark. -/
structure IsGenerated (suffix name : String) (content : ByteArray) : Prop where
  named : (∃ stem, name = stem ++ "." ++ suffix) ∨
    ∃ before behind, name = before ++ "." ++ suffix ++ "." ++ behind
  marked : ∃ rest, String.fromUTF8? content = some (Artifact.generatedMark ++ rest)

theorem occursIn_iff {part cs : List Char} : occursIn part cs = true ↔ part <:+: cs := by
  induction cs with
  | nil => simp [occursIn, List.isEmpty_iff]
  | cons c cs ih => simp [occursIn, ih, List.infix_cons_iff]

theorem isNamedGenerated_iff {suffix name : String} : isNamedGenerated suffix name = true ↔
    (∃ stem, name = stem ++ "." ++ suffix) ∨
      ∃ before behind, name = before ++ "." ++ suffix ++ "." ++ behind := by
  rw [isNamedGenerated, Bool.or_eq_true, List.isSuffixOf_iff_suffix, occursIn_iff]
  refine or_congr ⟨?_, ?_⟩ ⟨?_, ?_⟩
  · rintro ⟨stem, hstem⟩
    exact ⟨String.ofList stem, by simp [← String.toList_inj, ← hstem]⟩
  · rintro ⟨stem, rfl⟩
    exact ⟨stem.toList, by simp⟩
  · rintro ⟨before, behind, hname⟩
    exact ⟨String.ofList before, String.ofList behind, by simp [← String.toList_inj, ← hname]⟩
  · rintro ⟨before, behind, rfl⟩
    exact ⟨before.toList, behind.toList, by simp⟩

theorem isMarkedGenerated_iff {content : ByteArray} : isMarkedGenerated content = true ↔
    ∃ rest, String.fromUTF8? content = some (Artifact.generatedMark ++ rest) := by
  rw [isMarkedGenerated, Option.any_eq_true]
  constructor
  · rintro ⟨text, htext, hmark⟩
    obtain ⟨rest, hrest⟩ := List.isPrefixOf_iff_prefix.1 hmark
    refine ⟨String.ofList rest, htext.trans (congrArg some ?_)⟩
    rw [← String.toList_inj, ← hrest]
    simp
  · rintro ⟨rest, htext⟩
    exact ⟨_, htext, List.isPrefixOf_iff_prefix.2 ⟨rest.toList, by simp⟩⟩

theorem isGenerated_iff {suffix name : String} {content : ByteArray} :
    IsGenerated suffix name content ↔
      isNamedGenerated suffix name = true ∧ isMarkedGenerated content = true := by
  rw [isNamedGenerated_iff, isMarkedGenerated_iff]
  exact ⟨fun h => ⟨h.named, h.marked⟩, fun h => ⟨h.1, h.2⟩⟩

/-! ## Stale files -/

variable {t : FileTree} {o : OutputConfig} {expected : List String} {top l : Location}

/-- A file below the output root, reached through directories alone, looks generated, and no
expected path is the one to it. -/
structure Stale (o : OutputConfig) (expected : List String) (t : FileTree) (top l : Location) :
    Prop where
  below : l ≠ []
  directories : ∀ stage, stage <+: l → stage ≠ l → t.find? (top ++ stage) = some .directory
  generated : ∃ name content, l.getLast? = some name ∧
    t.find? (top ++ l) = some (.file content) ∧ IsGenerated o.suffix name content
  unexpected : ∀ path ∈ expected, Path.parts path ≠ Path.parts (pathBelow o.root l)

theorem Stale.isFile (hs : Stale o expected t top l) :
    ∃ content, t.find? (top ++ l) = some (.file content) := by
  obtain ⟨-, content, -, hf, -⟩ := hs.generated
  exact ⟨content, hf⟩

theorem mem_staleBelow_iff (h : t.WellFormed) :
    l ∈ staleBelow t top o.suffix o.root expected ↔ Stale o expected t top l := by
  simp only [staleBelow, List.mem_mergeSort, List.mem_map, List.mem_filter, Prod.exists,
    h.mem_filesBelow_iff, isStale, Bool.and_eq_true, Bool.not_eq_true', List.contains_eq_mem,
    decide_eq_false_iff_not, Option.any_eq_true]
  constructor
  · rintro ⟨l, content, ⟨⟨hne, hf⟩, ⟨hexpected, name, hname, hnamed⟩, hmarked⟩, rfl⟩
    exact ⟨hne, fun stage => h.directory_of_prefix hf,
      ⟨name, content, hname, hf, isGenerated_iff.2 ⟨hnamed, hmarked⟩⟩,
      fun path hp he => hexpected ⟨path, hp, he⟩⟩
  · intro hs
    obtain ⟨name, content, hname, hf, hgenerated⟩ := hs.generated
    obtain ⟨hnamed, hmarked⟩ := isGenerated_iff.1 hgenerated
    refine ⟨l, content, ⟨⟨hs.below, hf⟩, ⟨?_, name, hname, hnamed⟩, hmarked⟩, rfl⟩
    rintro ⟨path, hp, he⟩
    exact hs.unexpected path hp he

/-- The stale files are listed once each, in the order of their locations. -/
theorem sorted_staleBelow (h : t.WellFormed) (top : Location) (suffix root : String)
    (expected : List String) : (staleBelow t top suffix root expected).Pairwise (· < ·) := by
  have hnodup : (staleBelow t top suffix root expected).Nodup := by
    rw [staleBelow, (List.mergeSort_perm _ _).nodup_iff]
    exact (FileTree.nodup_filesBelow h.unique top).sublist (List.filter_sublist.map _)
  exact ((FileTree.pairwise_mergeSort_locationLe _).and hnodup).imp
    fun hlm => lt_of_le_of_ne hlm.1 hlm.2

/-! ## Deleting files -/

/-- Files below a directory have been deleted, and nothing else has changed. -/
structure Sweeps (root : String) (top : Location) (ls : List Location) (p p' : Pruned) :
    Prop where
  wellFormed : p'.tree.WellFormed
  ways : SameWays p.tree p'.tree
  removed : p'.removed = p.removed ++ ls.map (pathBelow root)
  faults : p'.faults = p.faults
  gone : ∀ l ∈ ls, p'.tree.find? (top ++ l) = none
  kept : ∀ m, (∀ l ∈ ls, m ≠ top ++ l) → p'.tree.find? m = p.tree.find? m

section Steps

variable {p : Pruned} {root : String} {content : ByteArray}

theorem isFile_pathBelow (h : t.WellFormed) (hroot : t.get? root = .ok (top, .directory))
    (hne : l ≠ []) (hf : t.find? (top ++ l) = some (.file content)) :
    t.isFile (pathBelow root l) = true := by
  rw [FileTree.isFile, FileTree.get?_pathBelow hroot h hne hf (by simp)]

/-- A file below a directory is deleted. -/
theorem step_sweeps (h : p.tree.WellFormed) (hroot : p.tree.get? root = .ok (top, .directory))
    (hne : l ≠ []) (hf : p.tree.find? (top ++ l) = some (.file content)) :
    Sweeps root top [l] p (p.step false (pathBelow root l)) := by
  have hplace : top ++ l ≠ [] := by simp [hne]
  have hlocate := FileTree.locate_pathBelow hroot h hne hf (by simp) false
  have hstep : p.step false (pathBelow root l) =
      { p with removed := p.removed ++ [pathBelow root l], tree := p.tree.remove (top ++ l) } := by
    simp [Pruned.step, Project.remove, isFile_pathBelow h hroot hne hf,
      FileTree.unlink_eq_ok hlocate hf, Except.map]
  rw [hstep]
  refine ⟨h.remove (by simp [hf]), FileTree.sameWays_remove hf, rfl, rfl, ?_, fun m hm => ?_⟩
  · simpa using FileTree.find?_remove_same hplace
  · exact FileTree.find?_remove_other (hm l (List.mem_singleton_self l))

/-- Files below a directory are deleted one after another. -/
theorem foldl_step_sweeps (h : p.tree.WellFormed)
    (hroot : p.tree.get? root = .ok (top, .directory)) {ls : List Location} (hnodup : ls.Nodup)
    (hfiles : ∀ l ∈ ls, l ≠ [] ∧ ∃ content, p.tree.find? (top ++ l) = some (.file content)) :
    Sweeps root top ls p ((ls.map (pathBelow root)).foldl (Pruned.step false) p) := by
  induction ls generalizing p with
  | nil => exact ⟨h, .refl _, (List.append_nil _).symm, rfl, by simp, fun _ _ => rfl⟩
  | cons l rest ih =>
    obtain ⟨hl, hrest⟩ := List.nodup_cons.1 hnodup
    obtain ⟨⟨hne, content, hf⟩, hothers⟩ := List.forall_mem_cons.1 hfiles
    have first := step_sweeps h hroot hne hf
    have apart : ∀ m ∈ rest, top ++ m ≠ top ++ l := fun m hm he =>
      hl (List.append_cancel_left he ▸ hm)
    have others := ih first.wellFormed (first.ways.get?_directory_iff.2 hroot) hrest
      fun m hm => by rw [first.kept _ (by simpa using apart m hm)]; exact hothers m hm
    refine ⟨others.wellFormed, first.ways.trans others.ways, ?_, others.faults.trans first.faults,
      List.forall_mem_cons.2 ⟨?_, others.gone⟩, fun m hm => ?_⟩
    · rw [List.map_cons, List.foldl_cons, others.removed, first.removed]
      simp
    · rw [List.map_cons, List.foldl_cons, others.kept _ fun m hm he => apart m hm he.symm]
      exact first.gone l (List.mem_singleton_self l)
    · obtain ⟨hm, hothers⟩ := List.forall_mem_cons.1 hm
      exact (others.kept m hothers).trans (first.kept m (by simpa using hm))

/-- In a dry run files are only told. -/
theorem foldl_step_dry {paths : List String} (hfiles : ∀ path ∈ paths, p.tree.isFile path = true) :
    paths.foldl (Pruned.step true) p = { p with removed := p.removed ++ paths } := by
  induction paths generalizing p with
  | nil => simp
  | cons path rest ih =>
    obtain ⟨hf, hrest⟩ := List.forall_mem_cons.1 hfiles
    have hstep : p.step true path = { p with removed := p.removed ++ [path] } := by
      simp [Pruned.step, Project.remove, hf]
    rw [List.foldl_cons, hstep]
    refine (ih (p := { p with removed := p.removed ++ [path] }) hrest).trans ?_
    simp

end Steps

/-! ## Pruning -/

theorem prune_of_not_directory (hroot : ∀ top, t.get? o.root ≠ .ok (top, .directory))
    (dryRun : Bool) : prune o dryRun expected t = { tree := t } := by
  unfold prune
  split
  · rename_i top hg
    exact absurd hg (hroot top)
  · rfl

/-- Pruning deletes the stale files. -/
theorem prune_sweeps (h : t.WellFormed) (hroot : t.get? o.root = .ok (top, .directory))
    (expected : List String) :
    Sweeps o.root top (staleBelow t top o.suffix o.root expected) { tree := t }
      (prune o false expected t) := by
  rw [prune, hroot]
  refine foldl_step_sweeps h hroot ?_ fun l hl => ?_
  · exact (sorted_staleBelow h top o.suffix o.root expected).imp fun hlm => hlm.ne
  · have hs := (mem_staleBelow_iff h).1 hl
    exact ⟨hs.below, hs.isFile⟩

/-- A dry run tells the stale files. -/
theorem prune_dry (h : t.WellFormed) (hroot : t.get? o.root = .ok (top, .directory))
    (expected : List String) : prune o true expected t =
      { removed := (staleBelow t top o.suffix o.root expected).map (pathBelow o.root)
        tree := t } := by
  rw [prune, hroot]
  refine (foldl_step_dry fun path hp => ?_).trans (by simp)
  obtain ⟨l, hl, rfl⟩ := List.mem_map.1 hp
  have hs := (mem_staleBelow_iff h).1 hl
  obtain ⟨content, hf⟩ := hs.isFile
  exact isFile_pathBelow h hroot hs.below hf

/-- Pruning leaves no stale file. -/
theorem Sweeps.not_stale {p : Pruned}
    (hs : Sweeps o.root top (staleBelow t top o.suffix o.root expected) { tree := t } p)
    (h : t.WellFormed) (l : Location) : ¬ Stale o expected p.tree top l := by
  intro hl
  obtain ⟨name, content, hname, hf, hgenerated⟩ := hl.generated
  by_cases hm : l ∈ staleBelow t top o.suffix o.root expected
  · rw [hs.gone l hm] at hf
    cases hf
  · refine hm ((mem_staleBelow_iff h).2 ⟨hl.below, fun stage hpre hne => ?_, ?_, hl.unexpected⟩)
    · exact (hs.ways.directories _).1 (hl.directories stage hpre hne)
    · have apart : ∀ m ∈ staleBelow t top o.suffix o.root expected, top ++ l ≠ top ++ m :=
        fun m hmem he => hm ((List.append_cancel_left he).symm ▸ hmem)
      exact ⟨name, content, hname, hs.kept _ apart ▸ hf, hgenerated⟩

end Project

end HeaderReflection
