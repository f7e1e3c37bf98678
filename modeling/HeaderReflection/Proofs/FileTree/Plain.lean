import HeaderReflection.FileTree.Change
import HeaderReflection.Proofs.FileTree.WellFormed
import HeaderReflection.Proofs.Outcome

/-!
# Plain trees

A plain tree has files and directories, and no links. There a path leads to its destination if the
places on the way are directories, whatever else the tree holds.

* `FileTree.get?_eq_ok_iff`: what a path leads to.
* `FileTree.reaches_pathBelow`: a path with names behind it leads to what stands there.
* `FileTree.Edits`: changes that keep directories, and keep files outside of an area.
* `makeDirectories_plain`, `replace_plain`: what an operation leaves is plain, and what it changes.
-/

namespace HeaderReflection.FileTree

open HeaderReflection.Path (IsName stepFrom starts waypoints destination segments)

/-- A tree of files and directories. Each entry has a place of its own, with a name in a
directory. -/
structure IsPlain (t : FileTree) : Prop where
  unique : (t.entries.map (·.1)).Nodup
  ne_top : ∀ e ∈ t.entries, e.1 ≠ []
  names : ∀ e ∈ t.entries, ∀ s ∈ e.1, IsName s
  parents : ∀ e ∈ t.entries, t.find? e.1.dropLast = some .directory
  no_links : ∀ e ∈ t.entries, ∀ target, e.2 ≠ .link target

/-! ## What stands where -/

variable {t t' : FileTree}

namespace IsPlain

theorem wellFormed (h : t.IsPlain) : t.WellFormed := ⟨h.unique, h.ne_top, h.names, h.parents⟩

theorem find?_eq_some_iff (h : t.IsPlain) {l : Location} (hl : l ≠ []) {e : Entry} :
    t.find? l = some e ↔ (l, e) ∈ t.entries :=
  h.wellFormed.find?_eq_some_iff hl

theorem isName (h : t.IsPlain) {l : Location} {e : Entry} (hl : t.find? l = some e) :
    ∀ s ∈ l, IsName s :=
  h.wellFormed.isName hl

theorem find?_ne_link (h : t.IsPlain) (l : Location) (target : String) :
    t.find? l ≠ some (.link target) := by
  by_cases hn : l = []
  · simp [hn, find?_top]
  · exact fun hl => h.no_links _ ((h.find?_eq_some_iff hn).1 hl) target rfl

theorem parent (h : t.IsPlain) {l : Location} {e : Entry} (hl : t.find? l = some e) :
    t.find? l.dropLast = some .directory :=
  h.wellFormed.parent hl

/-- Everything stands in directories. -/
theorem ancestor (h : t.IsPlain) {l rest : Location} {e : Entry} (hr : rest ≠ [])
    (hl : t.find? (l ++ rest) = some e) : t.find? l = some .directory :=
  h.wellFormed.ancestor hr hl

end IsPlain

/-! ## Where paths lead -/

/-- The places that a path goes through are directories. -/
structure Reaches (t : FileTree) (path : String) : Prop where
  ne_empty : path ≠ ""
  directories : ∀ l ∈ waypoints path, t.find? l = some .directory

theorem walk_cons (h : t.IsPlain) (follow : Bool) (links : Nat) (here : Location) (step : String)
    (rest : List String) :
    t.walk follow links here (step :: rest) =
      match t.find? here with
      | none => .error .notFound
      | some .directory => t.walk follow links (stepFrom here step) rest
      | some _ => .error .notDirectory := by
  rw [walk]
  cases hh : t.find? here with
  | none => rfl
  | some e =>
    cases e with
    | file content => rfl
    | link target => rfl
    | directory =>
      dsimp only
      rw [stepFrom]
      by_cases hidle : (step = "" || step = ".") = true
      · rw [if_pos hidle, if_pos hidle]
      · rw [if_neg hidle, if_neg hidle]
        by_cases hup : step = ".."
        · rw [if_pos hup, if_pos hup]
        · rw [if_neg hup, if_neg hup]
          split
          · rename_i hlink
            exact absurd hlink (h.find?_ne_link _ _)
          · rfl

theorem walk_eq_ok_iff (h : t.IsPlain) (follow : Bool) (links : Nat) {here l : Location}
    {steps : List String} :
    t.walk follow links here steps = .ok l
      ↔ steps.foldl stepFrom here = l ∧ ∀ m ∈ starts here steps, t.find? m = some .directory := by
  induction steps generalizing here with
  | nil => simp [walk, starts]
  | cons step rest ih =>
    rw [walk_cons h, List.foldl_cons, starts, List.forall_mem_cons]
    cases hh : t.find? here with
    | none => simp
    | some e =>
      cases e with
      | file content => simp
      | link target => exact absurd hh (h.find?_ne_link here target)
      | directory => simp [ih]

/-- A place on the way that is missing stops a walk, if no file does. -/
theorem walk_of_missing (h : t.IsPlain) (follow : Bool) (links : Nat) {here : Location}
    {steps : List String} (hfree : ∀ m ∈ starts here steps, ∀ c, t.find? m ≠ some (.file c))
    (hmissing : ∃ m ∈ starts here steps, t.find? m = none) :
    t.walk follow links here steps = .error .notFound := by
  induction steps generalizing here with
  | nil => simp [starts] at hmissing
  | cons step rest ih =>
    rw [walk_cons h]
    obtain ⟨hhere, hrest⟩ := List.forall_mem_cons.1 hfree
    cases hh : t.find? here with
    | none => rfl
    | some e =>
      cases e with
      | file content => exact absurd hh (hhere content)
      | link target => exact absurd hh (h.find?_ne_link here target)
      | directory =>
        obtain ⟨m, hm, hn⟩ := hmissing
        rcases List.mem_cons.1 hm with rfl | hm
        · rw [hn] at hh
          cases hh
        · exact ih hrest ⟨m, hm, hn⟩

theorem locate_eq_ok_iff (h : t.IsPlain) (follow : Bool) {path : String} {l : Location} :
    t.locate follow path = .ok l ↔ t.Reaches path ∧ destination path = l := by
  unfold locate
  split
  · rename_i hp
    exact ⟨fun hl => (nomatch hl), fun hl => absurd hp hl.1.ne_empty⟩
  · rename_i hp
    rw [walk_eq_ok_iff h]
    exact ⟨fun hl => ⟨⟨hp, hl.2⟩, hl.1⟩, fun hl => ⟨hl.2, hl.1.directories⟩⟩

theorem get?_eq_ok_iff (h : t.IsPlain) {path : String} {l : Location} {e : Entry} :
    t.get? path = .ok (l, e) ↔ t.Reaches path ∧ destination path = l ∧ t.find? l = some e := by
  unfold get?
  rw [bind_eq_ok_iff]
  constructor
  · rintro ⟨m, hm, he⟩
    obtain ⟨hr, rfl⟩ := (locate_eq_ok_iff h true).1 hm
    split at he
    · rename_i hf
      obtain ⟨rfl, rfl⟩ := Prod.mk.inj (Except.ok.inj he)
      exact ⟨hr, rfl, hf⟩
    · cases he
  · rintro ⟨hr, rfl, hf⟩
    exact ⟨_, (locate_eq_ok_iff h true).2 ⟨hr, rfl⟩, by rw [hf]⟩

theorem read_eq_ok_iff (h : t.IsPlain) {path : String} {content : ByteArray} :
    t.read path = .ok content
      ↔ t.Reaches path ∧ t.find? (destination path) = some (.file content) := by
  unfold read
  rw [bind_eq_ok_iff]
  constructor
  · rintro ⟨⟨l, e⟩, hg, he⟩
    obtain ⟨hr, rfl, hf⟩ := (get?_eq_ok_iff h).1 hg
    cases e with
    | file held =>
      obtain rfl := Except.ok.inj he
      exact ⟨hr, hf⟩
    | directory => cases he
    | link target => cases he
  · rintro ⟨hr, hf⟩
    exact ⟨_, (get?_eq_ok_iff h).2 ⟨hr, rfl, hf⟩, rfl⟩

theorem isFile_iff (h : t.IsPlain) {path : String} :
    t.isFile path = true
      ↔ t.Reaches path ∧ ∃ content, t.find? (destination path) = some (.file content) := by
  unfold isFile
  constructor
  · intro hi
    split at hi
    · rename_i l content hg
      obtain ⟨hr, rfl, hf⟩ := (get?_eq_ok_iff h).1 hg
      exact ⟨hr, content, hf⟩
    · cases hi
  · rintro ⟨hr, content, hf⟩
    rw [(get?_eq_ok_iff h).2 ⟨hr, rfl, hf⟩]

/-- A path of a single name leads to what stands at the top. -/
theorem reaches_of_isName {s : String} (hs : IsName s) : t.Reaches s := by
  refine ⟨hs.ne_empty, ?_⟩
  simp [waypoints, Path.segments_of_no_slash hs.no_slash, starts, find?_top]

theorem get?_of_isName (h : t.IsPlain) {s : String} {e : Entry} (hs : IsName s)
    (hf : t.find? [s] = some e) : t.get? s = .ok ([s], e) := by
  have hd : destination s = [s] := by
    simp [destination, Path.segments_of_no_slash hs.no_slash, hs.stepFrom]
  exact (get?_eq_ok_iff h).2 ⟨reaches_of_isName hs, hd, hf⟩

/-- A path that leads to a directory, with names behind it, leads to what stands there. -/
theorem reaches_pathBelow (h : t.IsPlain) {base : String} (hb : t.Reaches base)
    {l : Location} {e : Entry} (hl : t.find? (destination base ++ l) = some e) :
    t.Reaches (pathBelow base l) := by
  have hnames : ∀ s ∈ l, IsName s := fun s hs => h.isName hl s (List.mem_append_right _ hs)
  constructor
  · exact pathBelow_ne_empty hb.ne_empty l
  · intro m hm
    rcases (mem_waypoints_pathBelow base hnames).1 hm with hm | ⟨p, ⟨rest, rfl⟩, hne, rfl⟩
    · exact hb.directories m hm
    · have hrest : rest ≠ [] := fun hr => hne (by simp [hr])
      exact h.ancestor hrest (by rwa [List.append_assoc])

/-! ## Changes -/

/-- The second tree has the directories of the first one, and outside of an area it has the same
files. -/
structure Edits (area : Location → Prop) (t t' : FileTree) : Prop where
  directories : ∀ l, t.find? l = some .directory → t'.find? l = some .directory
  files : ∀ l, ¬ area l → ∀ content,
    t'.find? l = some (.file content) ↔ t.find? l = some (.file content)

namespace Edits

variable {area area' : Location → Prop} {t'' : FileTree}

theorem refl (area : Location → Prop) (t : FileTree) : Edits area t t :=
  ⟨fun _ h => h, fun _ _ _ => Iff.rfl⟩

theorem trans (h : Edits area t t') (h' : Edits area t' t'') : Edits area t t'' :=
  ⟨fun l hl => h'.directories l (h.directories l hl),
    fun l hl content => (h'.files l hl content).trans (h.files l hl content)⟩

theorem mono (h : Edits area t t') (hsub : ∀ l, area l → area' l) : Edits area' t t' :=
  ⟨h.directories, fun l hl => h.files l fun ha => hl (hsub l ha)⟩

theorem reaches (h : Edits area t t') {path : String} (hr : t.Reaches path) : t'.Reaches path :=
  ⟨hr.ne_empty, fun l hl => h.directories l (hr.directories l hl)⟩

end Edits

theorem WellFormed.isPlain (h : t.WellFormed)
    (hlinks : ∀ e ∈ t.entries, ∀ target, e.2 ≠ .link target) : t.IsPlain :=
  ⟨h.unique, h.ne_top, h.names, h.parents, hlinks⟩

/-- An entry with a name of its own is put into a directory. -/
theorem IsPlain.insert (h : t.IsPlain) {l : Location} {s : String} {e : Entry} (hs : IsName s)
    (hd : t.find? l = some .directory) (hlink : ∀ target, e ≠ .link target)
    (hfree : t.find? (l ++ [s]) ≠ some .directory) : (t.insert (l ++ [s]) e).IsPlain := by
  refine (h.wellFormed.insert hs hd hfree).isPlain fun x hx => ?_
  rcases List.mem_cons.1 hx with rfl | hx
  · exact hlink
  · exact h.no_links x (WellFormed.mem_entries_remove hx).1

theorem edits_insert_directory {l : Location} (hl : l ≠ []) (hfree : t.find? l = none) :
    Edits (fun _ => False) t (t.insert l .directory) := by
  constructor
  · intro m hm
    by_cases he : m = l
    · rw [he, hfree] at hm
      cases hm
    · rwa [find?_insert_other he]
  · intro m _ content
    by_cases he : m = l
    · rw [he, find?_insert_same hl, hfree]
      simp
    · rw [find?_insert_other he]

theorem edits_insert_file {l : Location} (hfree : t.find? l ≠ some .directory)
    (content : ByteArray) : Edits (· = l) t (t.insert l (.file content)) := by
  constructor
  · intro m hm
    rwa [find?_insert_other (ne_of_find? hm hfree)]
  · intro m hm held
    rw [find?_insert_other hm]

theorem makeDirectories_stay (t : FileTree) (links : Nat) (here : Location) {step : String}
    (h : Path.isIdle step = true ∨ step = "..") (rest : List String) :
    t.makeDirectories links here (step :: rest)
      = t.makeDirectories links (stepFrom here step) rest := by
  rw [makeDirectories, stepFrom]
  by_cases hidle : (step = "" || step = ".") = true
  · rw [if_pos hidle, if_pos hidle]
  · have hup := h.resolve_left hidle
    rw [if_neg hidle, if_neg hidle, if_pos hup, if_pos hup]

theorem makeDirectories_name (h : t.IsPlain) (links : Nat) (here : Location) {step : String}
    (hname : IsName step) (rest : List String) :
    t.makeDirectories links here (step :: rest) =
      match t.find? (here ++ [step]) with
      | none => (t.insert (here ++ [step]) .directory).makeDirectories links (here ++ [step]) rest
      | some .directory => t.makeDirectories links (here ++ [step]) rest
      | some _ => .error (if rest.all Path.isIdle then .occupied else .notDirectory, t) := by
  rw [makeDirectories, if_neg (by simp [hname.ne_empty, hname.ne_here]), if_neg hname.ne_up]
  rcases hf : t.find? (here ++ [step]) with _ | _ | _ | target
  · simp only [hf]
  · simp only [hf]
    rfl
  · simp only [hf]
  · exact absurd hf (h.find?_ne_link _ target)

theorem isName_of_step {step : String} (hidle : ¬(step = "" || step = ".") = true)
    (hup : step ≠ "..") (hslash : '/' ∉ step.toList) : IsName step := by
  simp only [Bool.or_eq_true, decide_eq_true_eq, not_or] at hidle
  exact ⟨hidle.1, hidle.2, hup, hslash⟩

/-- A step is idle, goes up or is a name. -/
theorem step_cases {step : String} (h : '/' ∉ step.toList) :
    (Path.isIdle step = true ∨ step = "..") ∨ IsName step := by
  by_cases hidle : Path.isIdle step = true
  · exact .inl (.inl hidle)
  · by_cases hup : step = ".."
    · exact .inl (.inr hup)
    · exact .inr (isName_of_step hidle hup h)

/-- The tree that the creation of directories leaves, with all of them or with some. -/
def treeOf : Except (FileError × FileTree) FileTree → FileTree
  | .ok t => t
  | .error (_, t) => t

/-- Creating directories adds nothing else. -/
theorem makeDirectories_plain (h : t.IsPlain) (links : Nat) {here : Location}
    (hd : t.find? here = some .directory) {steps : List String}
    (hs : ∀ s ∈ steps, '/' ∉ s.toList) :
    (treeOf (t.makeDirectories links here steps)).IsPlain ∧
      Edits (fun _ => False) t (treeOf (t.makeDirectories links here steps)) := by
  induction steps generalizing t here with
  | nil =>
    rw [makeDirectories]
    exact ⟨h, .refl _ _⟩
  | cons step rest ih =>
    obtain ⟨hstep, hrest⟩ := List.forall_mem_cons.1 hs
    rcases step_cases hstep with hstay | hname
    · rw [makeDirectories_stay t links here hstay]
      refine ih h ?_ hrest
      rw [stepFrom]
      split
      · exact hd
      · rw [if_pos (hstay.resolve_left (by assumption))]
        exact h.parent hd
    · rw [makeDirectories_name h links here hname]
      rcases hf : t.find? (here ++ [step]) with _ | _ | _ | _
      · have hn : here ++ [step] ≠ [] := by simp
        have hp := h.insert (e := .directory) hname hd (by simp) (by simp [hf])
        obtain ⟨hp', edits'⟩ := ih hp (find?_insert_same hn) hrest
        exact ⟨hp', (edits_insert_directory hn hf).trans edits'⟩
      · exact ⟨h, .refl _ _⟩
      · exact ih h hf hrest
      · exact ⟨h, .refl _ _⟩

theorem createDirectories_plain (h : t.IsPlain) (directory : String) :
    (treeOf (t.createDirectories directory)).IsPlain ∧
      Edits (fun _ => False) t (treeOf (t.createDirectories directory)) :=
  makeDirectories_plain h linkLimit (find?_top t) fun _ hs => Path.segments_no_slash hs

theorem replace_eq_ok {path : String} {content : ByteArray}
    (hrun : t.replace path content = .ok t') :
    ∃ l, t.locate false path = .ok l ∧ t' = t.insert l (.file content) ∧
      t.find? l ≠ some .directory ∧ (path ≠ "" → (segments path).getLast? ≠ some "") ∧
      (segments path).getLast? ≠ some "." ∧ (segments path).getLast? ≠ some ".." := by
  simp only [replace] at hrun
  split at hrun
  · cases hrun
  · rename_i hslash
    obtain ⟨l, hl, hrun⟩ := bind_eq_ok_iff.1 hrun
    split at hrun
    · cases hrun
    · rename_i hdots
      split at hrun
      · cases hrun
      · rename_i hfree
        simp only [ne_eq, Bool.and_eq_true, Bool.or_eq_true, decide_eq_true_eq, not_and,
          not_or] at hslash hdots
        exact ⟨l, hl, (Except.ok.inj hrun).symm, hfree, hslash, hdots.1, hdots.2⟩

/-- A path leads to a name in the last of the directories that it goes through. -/
theorem Reaches.destination_eq {path : String} (hr : t.Reaches path)
    (hs : (segments path).getLast? ≠ some "") (hh : (segments path).getLast? ≠ some ".")
    (hu : (segments path).getLast? ≠ some "..") :
    ∃ l s, destination path = l ++ [s] ∧ IsName s ∧ t.find? l = some .directory := by
  obtain ⟨init, s, hseg⟩ :=
    (List.eq_nil_or_concat (segments path)).resolve_left (Path.segments_ne_nil path)
  have hlast : (segments path).getLast? = some s := by simp [hseg]
  rw [hlast] at hs hh hu
  have hname : IsName s :=
    ⟨fun h => hs (h ▸ rfl), fun h => hh (h ▸ rfl), fun h => hu (h ▸ rfl),
      Path.segments_no_slash (show s ∈ segments path by simp [hseg])⟩
  refine ⟨init.foldl stepFrom [], s, ?_, hname, ?_⟩
  · simp [destination, hseg, hname.stepFrom]
  · exact hr.directories _ (by simp [waypoints, hseg, Path.starts_append, starts])

/-- A file that is put in place stands where its path leads. -/
theorem replace_plain (h : t.IsPlain) {path : String} {content : ByteArray}
    (hrun : t.replace path content = .ok t') :
    t'.IsPlain ∧ Edits (· = destination path) t t' ∧ t'.Reaches path ∧
      t'.find? (destination path) = some (.file content) := by
  obtain ⟨l, hl, rfl, hfree, hs, hh, hu⟩ := replace_eq_ok hrun
  obtain ⟨hr, rfl⟩ := (locate_eq_ok_iff h false).1 hl
  have edits := edits_insert_file hfree content
  obtain ⟨parent, s, hd, hname, hp⟩ := hr.destination_eq (hs hr.ne_empty) hh hu
  rw [hd] at hfree ⊢
  refine ⟨h.insert hname hp (by simp) hfree, hd ▸ edits, ?_, find?_insert_same (by simp)⟩
  exact hd ▸ edits.reaches hr

end HeaderReflection.FileTree
