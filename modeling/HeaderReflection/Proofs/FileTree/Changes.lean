import HeaderReflection.Proofs.FileTree.Plain
import HeaderReflection.Proofs.FileTree.Ways

/-!
# Changes of well-formed trees

What operations on files leave of a well-formed tree is well-formed, whatever links there are.

* `place_of_walk`: a walk leads to a directory or to a name in one.
* `makeDirectories_wellFormed`, `replace_wellFormed`: creating directories and files.
* `sameWays_remove`, `unlink_eq_ok`: deleting a file changes no way.
-/

namespace HeaderReflection.FileTree

open HeaderReflection.Path (IsName segments)

variable {t t' : FileTree} {links : Nat} {here l : Location} {steps : List String}

/-! ## Places -/

/-- There is a directory at a place, or the place has a name in a directory. -/
def IsPlace (t : FileTree) (l : Location) : Prop :=
  t.find? l = some .directory ∨ ∃ d s, l = d ++ [s] ∧ IsName s ∧ t.find? d = some .directory

/-- A relative link is followed from where it stands, an absolute one from the top. -/
theorem find?_start (hd : t.find? here = some .directory) (target : String) :
    t.find? (if Path.isAbsolute target then [] else here) = some .directory := by
  split
  · rfl
  · exact hd

theorem steps_no_slash {target : String} {rest : List String}
    (hrest : ∀ s ∈ rest, '/' ∉ s.toList) : ∀ s ∈ segments target ++ rest, '/' ∉ s.toList :=
  List.forall_mem_append.2 ⟨fun _ hs => Path.segments_no_slash hs, hrest⟩

/-- A walk leads to a directory or to a name in one. -/
theorem place_of_walk (h : t.WellFormed) {follow : Bool} (hhere : t.IsPlace here)
    (hs : ∀ s ∈ steps, '/' ∉ s.toList) (hwalk : t.walk follow links here steps = .ok l) :
    t.IsPlace l := by
  fun_induction t.walk follow links here steps with
  | case1 => exact Except.ok.inj hwalk ▸ hhere
  | case2 | case3 | case4 | case8 => cases hwalk
  | case5 _ _ _ _ _ _ ih => exact ih hhere (List.forall_mem_cons.1 hs).2 hwalk
  | case6 _ _ _ hd _ ih => exact ih (.inl (h.parent hd)) (List.forall_mem_cons.1 hs).2 hwalk
  | case7 _ here step _ hd hidle hup =>
    obtain rfl := Except.ok.inj hwalk
    exact .inr ⟨here, step, rfl, isName_of_step hidle hup (List.forall_mem_cons.1 hs).1, hd⟩
  | case9 here _ _ hd _ _ _ target _ _ _ ih =>
    exact ih (.inl (find?_start hd target)) (steps_no_slash (List.forall_mem_cons.1 hs).2) hwalk
  | case10 _ here step _ hd hidle hup _ _ ih =>
    obtain ⟨hstep, hrest⟩ := List.forall_mem_cons.1 hs
    exact ih (.inr ⟨here, step, rfl, isName_of_step hidle hup hstep, hd⟩) hrest hwalk

theorem place_of_locate (h : t.WellFormed) {follow : Bool} {path : String}
    (hl : t.locate follow path = .ok l) : t.IsPlace l := by
  unfold locate at hl
  split at hl
  · cases hl
  · exact place_of_walk h (.inl rfl) (fun _ hs => Path.segments_no_slash hs) hl

/-! ## Creating -/

theorem makeDirectories_wellFormed (h : t.WellFormed) (hd : t.find? here = some .directory)
    (hs : ∀ s ∈ steps, '/' ∉ s.toList) :
    (treeOf (t.makeDirectories links here steps)).WellFormed := by
  fun_induction t.makeDirectories links here steps with
  | case1 => exact h
  | case2 _ _ _ _ _ _ ih => exact ih h hd (List.forall_mem_cons.1 hs).2
  | case3 _ _ _ _ _ ih => exact ih h (h.parent hd) (List.forall_mem_cons.1 hs).2
  | case4 t _ here step _ hidle hup next hfree ih =>
    obtain ⟨hstep, hrest⟩ := List.forall_mem_cons.1 hs
    have hname := isName_of_step hidle hup hstep
    have hblank : t.find? (here ++ [step]) ≠ some .directory := fun he => nomatch hfree ▸ he
    have hnext : next ≠ [] := List.concat_ne_nil step here
    exact ih (h.insert hname hd hblank) (find?_insert_same hnext) hrest
  | case5 _ _ _ _ _ _ _ _ hnext ih => exact ih h hnext (List.forall_mem_cons.1 hs).2
  | case6 | case7 | case9 | case10 | case11 => exact h
  | case8 _ here _ _ _ _ _ target _ _ _ _ _ ih =>
    exact ih h (find?_start hd target) (steps_no_slash (List.forall_mem_cons.1 hs).2)

theorem createDirectories_wellFormed (h : t.WellFormed) (directory : String) :
    (treeOf (t.createDirectories directory)).WellFormed :=
  makeDirectories_wellFormed h (find?_top t) fun _ hs => Path.segments_no_slash hs

theorem replace_wellFormed (h : t.WellFormed) {path : String} {content : ByteArray}
    (hrun : t.replace path content = .ok t') : t'.WellFormed := by
  obtain ⟨l, hl, rfl, hfree, -, -, -⟩ := replace_eq_ok hrun
  rcases place_of_locate h hl with hd | ⟨d, s, rfl, hname, hd⟩
  · exact absurd hd hfree
  · exact h.insert hname hd hfree

/-! ## Deleting -/

/-- Deleting a file changes no way. -/
theorem sameWays_remove {content : ByteArray} (hf : t.find? l = some (.file content)) :
    SameWays t (t.remove l) := by
  have hne : l ≠ [] := by
    rintro rfl
    cases hf
  have hother : ∀ (m : Location) (e : Entry), (∀ held, e ≠ .file held) →
      ((t.remove l).find? m = some e ↔ t.find? m = some e) := by
    intro m e he
    by_cases hm : m = l
    · rw [hm, find?_remove_same hne, hf]
      simpa using fun hsame => he content hsame.symm
    · rw [find?_remove_other hm]
  exact ⟨fun m => hother m .directory (by simp), fun m target => hother m (.link target) (by simp)⟩

/-- With no more links than a plain tree a tree is plain. -/
theorem SameWays.isPlain (ways : SameWays t t') (h : t.IsPlain) (h' : t'.WellFormed) :
    t'.IsPlain := by
  refine h'.isPlain fun x hx target hlink => h.find?_ne_link x.1 target ((ways.links _ _).1 ?_)
  exact (h'.find?_eq_some_iff (h'.ne_top x hx)).2 (hlink ▸ hx)

/-- A file that a path leads to, and no link, can be deleted. -/
theorem unlink_eq_ok {path : String} {content : ByteArray}
    (hl : t.locate false path = .ok l) (hf : t.find? l = some (.file content)) :
    t.unlink path = .ok (t.remove l) := by
  rw [unlink, hl, ok_bind, hf]

end HeaderReflection.FileTree
