import HeaderReflection.FileTree.Basic

/-!
# Walks through trees

A walk comes to what stands below a directory: the names of a directory in their order, and behind
each one that is a directory what is in it. What is not kept is left out with all that is below it.
Links are not followed.

* `mem_children_iff`: what stands in a directory.
* `length_lt_depth`: a walk that goes down gets nearer to the deepest entry.
-/

namespace HeaderReflection.FileTree

variable {t : FileTree} {l : Location} {e : Entry}

theorem relative?_eq_some_iff {base l rest : Location} :
    relative? base l = some rest ↔ l = base ++ rest := by
  induction base generalizing l with
  | nil => simp [relative?]
  | cons a base ih =>
    cases l with
    | nil => simp [relative?]
    | cons b l =>
      simp only [relative?]
      split
      · rename_i hab
        simp [ih, hab]
      · rename_i hab
        simp [Ne.symm hab]

/-- What stands in a directory, in the order of the names. -/
def children (t : FileTree) (l : Location) : List (String × Entry) :=
  (t.entries.filterMap fun (m, e) =>
    match relative? l m with
    | some [name] => some (name, e)
    | _ => none).mergeSort fun a b => decide (a.1 ≤ b.1)

theorem mem_children_iff {name : String} :
    (name, e) ∈ t.children l ↔ (l ++ [name], e) ∈ t.entries := by
  rw [children, List.mem_mergeSort, List.mem_filterMap]
  constructor
  · rintro ⟨⟨m, e'⟩, hm, he⟩
    dsimp only at he
    split at he
    · rename_i hrel
      obtain ⟨rfl, rfl⟩ := Prod.mk.inj (Option.some.inj he)
      exact relative?_eq_some_iff.1 hrel ▸ hm
    · cases he
  · intro hm
    refine ⟨_, hm, ?_⟩
    dsimp only
    rw [relative?_eq_some_iff.2 rfl]

/-- The number of names that lead to the deepest entry. -/
def depth (t : FileTree) : Nat := (t.entries.map fun e => e.1.length).foldr max 0

theorem length_le_depth (h : (l, e) ∈ t.entries) : l.length ≤ t.depth := by
  rw [depth]
  generalize t.entries = entries at h
  induction entries with
  | nil => cases h
  | cons x entries ih =>
    rw [List.map_cons, List.foldr_cons]
    rcases List.mem_cons.1 h with rfl | h
    · exact Nat.le_max_left ..
    · exact Nat.le_trans (ih h) (Nat.le_max_right ..)

theorem length_lt_depth {c : String × Entry} (h : c ∈ t.children l) :
    t.depth - (l ++ [c.1]).length < t.depth - l.length := by
  have hle := length_le_depth (mem_children_iff.1 h)
  rw [List.length_append, List.length_singleton] at hle ⊢
  omega

/-- What a walk comes to below a location, with the names that lead there from the top of the
walk. -/
def walkBelow (t : FileTree) (keep : Location → Entry → Bool) (top l : Location) :
    List (Location × Entry) :=
  (t.children (top ++ l)).attach.flatMap fun ⟨c, _⟩ =>
    if keep (l ++ [c.1]) c.2 then
      (l ++ [c.1], c.2) ::
        if c.2.isDirectory then walkBelow t keep top (l ++ [c.1]) else []
    else []
termination_by t.depth - (top ++ l).length
decreasing_by
  rename_i h _ _
  rw [← List.append_assoc]
  exact length_lt_depth h

theorem walkBelow_eq (t : FileTree) (keep : Location → Entry → Bool) (top l : Location) :
    t.walkBelow keep top l = (t.children (top ++ l)).flatMap fun c =>
      if keep (l ++ [c.1]) c.2 then
        (l ++ [c.1], c.2) ::
          if c.2.isDirectory then t.walkBelow keep top (l ++ [c.1]) else []
      else [] := by
  conv => rhs; rw [← List.attach_map_subtype_val (t.children (top ++ l))]
  rw [walkBelow, List.flatMap_map]

end HeaderReflection.FileTree
