import HeaderReflection.FileTree.Change
import HeaderReflection.Proofs.FileTree.WellFormed
import HeaderReflection.Proofs.Outcome

/-!
# Ways through links

A path is followed through links, but names behind a path that leads to a directory go down from
there. What a path leads to depends on the directories and the links of a tree alone.

* `exists_walk_append`: a walk with more steps goes on where the first ones lead.
* `walk_names`, `eq_of_walk_names`: names go down as long as no link is in the way.
* `locate_pathBelow`, `get?_pathBelow`: names behind a path.
* `SameWays.locate_ok`: trees with the same directories and links have the same ways.
-/

namespace HeaderReflection.FileTree

open HeaderReflection.Path (IsName segments)

variable {t t' : FileTree} {links : Nat} {here top l : Location} {xs ys steps : List String}

/-! ## Steps -/

section Steps

variable {follow : Bool} {step : String} {rest : List String}
  (hd : t.find? here = some .directory)

include hd

theorem walk_idle (hidle : (step = "" || step = ".") = true) :
    t.walk follow links here (step :: rest) = t.walk follow links here rest := by
  rw [walk, hd]
  simp only [hidle, if_true]

theorem walk_up : t.walk follow links here (".." :: rest) =
    t.walk follow links here.dropLast rest := by
  rw [walk, hd]
  simp

theorem walk_down (hidle : ¬(step = "" || step = ".") = true) (hup : step ≠ "..")
    (hlink : ∀ target, t.find? (here ++ [step]) ≠ some (.link target)) :
    t.walk follow links here (step :: rest) = t.walk follow links (here ++ [step]) rest := by
  rw [walk, hd]
  dsimp only
  rw [if_neg hidle, if_neg hup]
  split
  · rename_i hfound
    exact absurd hfound (hlink _)
  · rfl

theorem walk_last (hidle : ¬(step = "" || step = ".") = true) (hup : step ≠ "..") {target : String}
    (hlink : t.find? (here ++ [step]) = some (.link target))
    (hlast : (rest = [] && !follow) = true) :
    t.walk follow links here (step :: rest) = .ok (here ++ [step]) := by
  rw [walk, hd]
  dsimp only
  rw [if_neg hidle, if_neg hup, hlink]
  dsimp only
  rw [if_pos hlast]

theorem walk_through (hidle : ¬(step = "" || step = ".") = true) (hup : step ≠ "..")
    {target : String} (hlink : t.find? (here ++ [step]) = some (.link target))
    (hlast : ¬(rest = [] && !follow) = true) :
    t.walk follow (links + 1) here (step :: rest) =
      t.walk follow links (if Path.isAbsolute target then [] else here)
        (segments target ++ rest) := by
  rw [walk, hd]
  dsimp only
  rw [if_neg hidle, if_neg hup, hlink]
  dsimp only
  rw [if_neg hlast]

end Steps

/-! ## Longer walks -/

/-- A walk with more steps goes on where the first ones lead, with the links that are left. -/
theorem exists_walk_append (h : t.walk true links here xs = .ok top) (hys : ys ≠ []) :
    ∃ left, ∀ follow, t.walk follow links here (xs ++ ys) = t.walk follow left top ys := by
  fun_induction t.walk true links here xs with
  | case1 links here =>
    obtain rfl := Except.ok.inj h
    exact ⟨links, fun _ => rfl⟩
  | case2 | case3 | case4 => cases h
  | case5 links here step rest hd hidle ih =>
    obtain ⟨left, hleft⟩ := ih h
    exact ⟨left, fun follow => (walk_idle hd hidle).trans (hleft follow)⟩
  | case6 links here rest hd _ ih =>
    obtain ⟨left, hleft⟩ := ih h
    exact ⟨left, fun follow => (walk_up hd).trans (hleft follow)⟩
  | case7 _ _ _ _ _ _ _ _ _ _ hlast => simp at hlast
  | case8 => cases h
  | case9 here step rest hd hidle hup next target hlink _ links ih =>
    obtain ⟨left, hleft⟩ := ih h
    refine ⟨left, fun follow => (walk_through hd hidle hup hlink (by simp [hys])).trans ?_⟩
    have hrest := hleft follow
    rw [List.append_assoc] at hrest
    exact hrest
  | case10 links here step rest hd hidle hup next hlink ih =>
    obtain ⟨left, hleft⟩ := ih h
    exact ⟨left, fun follow => (walk_down hd hidle hup hlink).trans (hleft follow)⟩

/-- An idle step at the end can be left out. -/
theorem walk_of_append_idle (h : t.walk true links here (xs ++ [""]) = .ok top) :
    t.walk true links here xs = .ok top ∧ t.find? top = some .directory := by
  fun_induction t.walk true links here xs with
  | case1 links here =>
    rw [List.nil_append, walk] at h
    split at h
    · cases h
    · cases h
    · cases h
    · rename_i hd
      rw [if_pos (by decide), walk] at h
      exact ⟨h, Except.ok.inj h ▸ hd⟩
  | case2 _ _ _ _ hd | case3 _ _ _ _ _ hd | case4 _ _ _ _ _ hd =>
    rw [List.cons_append, walk, hd] at h
    cases h
  | case5 links here step rest hd hidle ih =>
    rw [List.cons_append, walk_idle hd hidle] at h
    exact ih h
  | case6 links here rest hd _ ih =>
    rw [List.cons_append, walk_up hd] at h
    exact ih h
  | case7 _ _ _ _ _ _ _ _ _ _ hlast => simp at hlast
  | case8 here step rest hd hidle hup next target hlink =>
    rw [List.cons_append, walk, hd] at h
    dsimp only at h
    rw [if_neg hidle, if_neg hup, hlink] at h
    simp at h
  | case9 here step rest hd hidle hup next target hlink _ links ih =>
    rw [List.cons_append, walk_through hd hidle hup hlink (by simp), ← List.append_assoc] at h
    exact ih h
  | case10 links here step rest hd hidle hup next hlink ih =>
    rw [List.cons_append, walk_down hd hidle hup hlink] at h
    exact ih h

/-! ## Names -/

/-- Names go down from a directory. -/
theorem walk_names {follow : Bool} (hnames : ∀ s ∈ l, IsName s)
    (hd : ∀ stage, stage <+: l → stage ≠ l → t.find? (top ++ stage) = some .directory)
    (hlink : ∀ target, t.find? (top ++ l) ≠ some (.link target)) :
    t.walk follow links top l = .ok (top ++ l) := by
  induction l generalizing top with
  | nil => rw [walk, List.append_nil]
  | cons s l ih =>
    obtain ⟨hs, hl⟩ := List.forall_mem_cons.1 hnames
    have htop : t.find? top = some .directory := by
      simpa using hd [] List.nil_prefix (by simp)
    have hnext : ∀ target, t.find? (top ++ [s]) ≠ some (.link target) := by
      by_cases hn : l = []
      · exact hn ▸ hlink
      · simp [hd [s] ⟨l, rfl⟩ (by simpa using Ne.symm hn)]
    rw [walk_down htop hs.not_idle hs.ne_up hnext, List.append_cons top s l]
    refine ih hl (fun stage hpre hne => ?_) ?_
    · rw [← List.append_cons]
      exact hd (s :: stage) (List.cons_prefix_cons.2 ⟨rfl, hpre⟩) (by simpa using hne)
    · rwa [← List.append_cons]

/-- Names lead nowhere else if no link is in the way. -/
theorem eq_of_walk_names {follow : Bool} {m : Location} (hnames : ∀ s ∈ l, IsName s)
    (hlinks : ∀ stage, stage <+: l → ∀ target, t.find? (top ++ stage) ≠ some (.link target))
    (h : t.walk follow links top l = .ok m) : m = top ++ l := by
  induction l generalizing top with
  | nil =>
    rw [walk] at h
    rw [Except.ok.inj h, List.append_nil]
  | cons s l ih =>
    obtain ⟨hs, hl⟩ := List.forall_mem_cons.1 hnames
    have hnext := hlinks [s] ⟨l, rfl⟩
    rw [List.append_cons]
    refine ih hl (fun stage hpre => ?_) ?_
    · rw [← List.append_cons]
      exact hlinks (s :: stage) (List.cons_prefix_cons.2 ⟨rfl, hpre⟩)
    · cases htop : t.find? top with
      | none =>
        rw [walk, htop] at h
        cases h
      | some e =>
        cases e with
        | directory => rwa [walk_down htop (hs.not_idle) hs.ne_up hnext] at h
        | file content =>
          rw [walk, htop] at h
          cases h
        | link target =>
          rw [walk, htop] at h
          cases h

theorem get?_eq_ok {path : String} {e : Entry} :
    t.get? path = .ok (l, e) ↔ t.locate true path = .ok l ∧ t.find? l = some e := by
  rw [get?, bind_eq_ok_iff]
  constructor
  · rintro ⟨m, hm, he⟩
    split at he
    · rename_i hf
      obtain ⟨rfl, rfl⟩ := Prod.mk.inj (Except.ok.inj he)
      exact ⟨hm, hf⟩
    · cases he
  · rintro ⟨hl, hf⟩
    exact ⟨l, hl, by rw [hf]⟩

section PathBelow

variable {base : String} (hroot : t.get? base = .ok (top, .directory))

include hroot

/-- Names behind a path to a directory are followed from there. -/
theorem exists_locate_pathBelow (hnames : ∀ s ∈ l, IsName s) (hl : l ≠ []) :
    ∃ left, ∀ follow, t.locate follow (pathBelow base l) = t.walk follow left top l := by
  obtain ⟨hlocate, -⟩ := get?_eq_ok.1 hroot
  unfold locate at hlocate
  split at hlocate
  · cases hlocate
  · rename_i hne
    obtain ⟨xs, hbase, hjoin⟩ := Path.segments_join base (Path.isAbsolute_names hnames)
    rw [join_names base hnames hl, Path.segments_names hnames hl] at hjoin
    have hwalk : t.walk true linkLimit [] xs = .ok top := by
      rcases hbase with hbase | hbase
      · rwa [hbase] at hlocate
      · exact (walk_of_append_idle (hbase ▸ hlocate)).1
    obtain ⟨left, hleft⟩ := exists_walk_append hwalk hl
    refine ⟨left, fun follow => ?_⟩
    rw [locate, if_neg (pathBelow_ne_empty hne l), hjoin, hleft]

/-- What stands below a directory is what names behind its path lead to. -/
theorem locate_pathBelow (h : t.WellFormed) (hl : l ≠ []) {e : Entry}
    (hf : t.find? (top ++ l) = some e) (hlink : ∀ target, e ≠ .link target) (follow : Bool) :
    t.locate follow (pathBelow base l) = .ok (top ++ l) := by
  have hnames := h.isName_below hf
  obtain ⟨left, hleft⟩ := exists_locate_pathBelow hroot hnames hl
  rw [hleft]
  refine walk_names hnames (fun stage => h.directory_of_prefix hf) fun target he => ?_
  rw [hf] at he
  exact hlink target (Option.some.inj he)

theorem get?_pathBelow (h : t.WellFormed) (hl : l ≠ []) {e : Entry}
    (hf : t.find? (top ++ l) = some e) (hlink : ∀ target, e ≠ .link target) :
    t.get? (pathBelow base l) = .ok (top ++ l, e) :=
  get?_eq_ok.2 ⟨locate_pathBelow hroot h hl hf hlink true, hf⟩

end PathBelow

/-! ## The same ways -/

/-- The trees have the same directories and the same links. -/
structure SameWays (t t' : FileTree) : Prop where
  directories : ∀ l, t'.find? l = some .directory ↔ t.find? l = some .directory
  links : ∀ l target, t'.find? l = some (.link target) ↔ t.find? l = some (.link target)

namespace SameWays

theorem refl (t : FileTree) : SameWays t t := ⟨fun _ => Iff.rfl, fun _ _ => Iff.rfl⟩

theorem symm (h : SameWays t t') : SameWays t' t :=
  ⟨fun l => (h.directories l).symm, fun l target => (h.links l target).symm⟩

theorem trans {t'' : FileTree} (h : SameWays t t') (h' : SameWays t' t'') : SameWays t t'' :=
  ⟨fun l => (h'.directories l).trans (h.directories l),
    fun l target => (h'.links l target).trans (h.links l target)⟩

/-- What is found in one of the trees is found in the other one. -/
theorem walk_ok (hs : SameWays t t') {follow : Bool} (h : t.walk follow links here steps = .ok l) :
    t'.walk follow links here steps = .ok l := by
  fun_induction t.walk follow links here steps with
  | case1 => rwa [walk]
  | case2 | case3 | case4 | case8 => cases h
  | case5 _ _ _ _ hd hidle ih => rw [walk_idle ((hs.directories _).2 hd) hidle, ih h]
  | case6 _ _ _ hd _ ih => rw [walk_up ((hs.directories _).2 hd), ih h]
  | case7 _ _ _ _ hd hidle hup _ _ hlink hlast =>
    rw [walk_last ((hs.directories _).2 hd) hidle hup ((hs.links _ _).2 hlink) hlast, h]
  | case9 _ _ _ hd hidle hup _ _ hlink hlast _ ih =>
    rw [walk_through ((hs.directories _).2 hd) hidle hup ((hs.links _ _).2 hlink) hlast]
    exact ih h
  | case10 _ _ _ _ hd hidle hup _ hlink ih =>
    rw [walk_down ((hs.directories _).2 hd) hidle hup fun target ht =>
      hlink target ((hs.links _ _).1 ht), ih h]

theorem locate_ok (hs : SameWays t t') {follow : Bool} {path : String}
    (h : t.locate follow path = .ok l) : t'.locate follow path = .ok l := by
  unfold locate at h ⊢
  split
  · rename_i he
    rw [if_pos he] at h
    cases h
  · rename_i he
    rw [if_neg he] at h
    exact hs.walk_ok h

theorem get?_directory_iff (hs : SameWays t t') {path : String} :
    t'.get? path = .ok (l, .directory) ↔ t.get? path = .ok (l, .directory) := by
  rw [get?_eq_ok, get?_eq_ok, hs.directories]
  exact and_congr_left fun _ => ⟨hs.symm.locate_ok, hs.locate_ok⟩

end SameWays

end HeaderReflection.FileTree
