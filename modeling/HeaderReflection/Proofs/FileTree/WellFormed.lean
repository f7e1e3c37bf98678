import Mathlib.Data.List.Induction
import HeaderReflection.FileTree.Walk
import HeaderReflection.Proofs.FileTree.Paths

/-!
# Well-formed trees

In a tree that can come about each entry has a place of its own, with a name in a directory.

* `WellFormed.find?_eq_some_iff`: what stands at a place is its entry.
* `WellFormed.ancestor`, `WellFormed.directory_of_prefix`: everything stands in directories.
* `WellFormed.mem_filesBelow_iff`, `nodup_filesBelow`: the files below a place.
-/

namespace HeaderReflection.FileTree

open HeaderReflection.Path (IsName)

/-- Each entry has a place of its own, with a name in a directory. -/
structure WellFormed (t : FileTree) : Prop where
  unique : (t.entries.map (·.1)).Nodup
  ne_top : ∀ e ∈ t.entries, e.1 ≠ []
  names : ∀ e ∈ t.entries, ∀ s ∈ e.1, IsName s
  parents : ∀ e ∈ t.entries, t.find? e.1.dropLast = some .directory

theorem find?_top (t : FileTree) : t.find? [] = some .directory := rfl

theorem ne_of_find? {t : FileTree} {l m : Location} {e : Entry} (hm : t.find? m = some e)
    (hl : t.find? l ≠ some e) : m ≠ l :=
  fun he => hl (he ▸ hm)

theorem lookup_eq_some_iff_mem {es : List (Location × Entry)} (hu : (es.map (·.1)).Nodup)
    {l : Location} {e : Entry} : es.lookup l = some e ↔ (l, e) ∈ es := by
  rw [List.lookup_eq_some_iff]
  constructor
  · rintro ⟨before, behind, rfl, -⟩
    simp
  · intro h
    obtain ⟨before, behind, rfl⟩ := List.append_of_mem h
    refine ⟨before, behind, rfl, fun x hx => ?_⟩
    rw [List.map_append, List.map_cons, List.nodup_append] at hu
    simpa using fun he => hu.2.2 x.1 (List.mem_map_of_mem hx) l List.mem_cons_self he.symm

namespace WellFormed

variable {t : FileTree} {l : Location} {e : Entry} (h : t.WellFormed)

include h

theorem find?_eq_some_iff (hl : l ≠ []) : t.find? l = some e ↔ (l, e) ∈ t.entries := by
  rw [find?, if_neg hl]
  exact lookup_eq_some_iff_mem h.unique

theorem isName (hl : t.find? l = some e) : ∀ s ∈ l, IsName s := by
  by_cases hn : l = []
  · simp [hn]
  · exact h.names _ ((h.find?_eq_some_iff hn).1 hl)

theorem parent (hl : t.find? l = some e) : t.find? l.dropLast = some .directory := by
  by_cases hn : l = []
  · rw [hn]
    rfl
  · exact h.parents _ ((h.find?_eq_some_iff hn).1 hl)

/-- Everything stands in directories. -/
theorem ancestor {rest : Location} (hr : rest ≠ []) (hl : t.find? (l ++ rest) = some e) :
    t.find? l = some .directory := by
  induction rest using List.reverseRecOn generalizing e with
  | nil => exact absurd rfl hr
  | append_singleton rest s ih =>
    have hp := h.parent hl
    rw [← List.append_assoc, List.dropLast_concat] at hp
    by_cases hn : rest = []
    · simpa [hn] using hp
    · exact ih hn hp

/-- The places on the way to what stands below a place are directories. -/
theorem directory_of_prefix {top stage : Location} (hl : t.find? (top ++ l) = some e)
    (hpre : stage <+: l) (hne : stage ≠ l) : t.find? (top ++ stage) = some .directory := by
  obtain ⟨rest, rfl⟩ := hpre
  have hrest : rest ≠ [] := fun hn => hne (by rw [hn, List.append_nil])
  exact h.ancestor hrest (by rwa [List.append_assoc])

theorem isName_below {top : Location} (hl : t.find? (top ++ l) = some e) : ∀ s ∈ l, IsName s :=
  fun s hs => h.isName hl s (List.mem_append_right _ hs)

omit h in
theorem mem_entries_remove {x : Location × Entry} (hx : x ∈ (t.remove l).entries) :
    x ∈ t.entries ∧ x.1 ≠ l := by
  simpa [FileTree.remove] using hx

/-- An entry with a name of its own is put into a directory. -/
theorem insert {s : String} (hs : IsName s) (hd : t.find? l = some .directory)
    (hfree : t.find? (l ++ [s]) ≠ some .directory) : (t.insert (l ++ [s]) e).WellFormed := by
  have hn : l ++ [s] ≠ [] := by simp
  constructor
  · rw [FileTree.insert, List.map_cons, List.nodup_cons]
    constructor
    · intro hm
      obtain ⟨x, hx, he⟩ := List.mem_map.1 hm
      exact (mem_entries_remove hx).2 he
    · exact h.unique.sublist (List.filter_sublist.map _)
  · intro x hx
    rcases List.mem_cons.1 hx with rfl | hx
    · exact hn
    · exact h.ne_top x (mem_entries_remove hx).1
  · intro x hx
    rcases List.mem_cons.1 hx with rfl | hx
    · exact List.forall_mem_append.2 ⟨h.isName hd, by simpa using hs⟩
    · exact h.names x (mem_entries_remove hx).1
  · intro x hx
    rcases List.mem_cons.1 hx with rfl | hx
    · rw [List.dropLast_concat, find?_insert_other (by simp), hd]
    · have hp := h.parents x (mem_entries_remove hx).1
      rw [find?_insert_other (ne_of_find? hp hfree), hp]

/-- What is no directory can be taken away. -/
theorem remove (hfree : t.find? l ≠ some .directory) : (t.remove l).WellFormed := by
  constructor
  · exact h.unique.sublist (List.filter_sublist.map _)
  · exact fun x hx => h.ne_top x (mem_entries_remove hx).1
  · exact fun x hx => h.names x (mem_entries_remove hx).1
  · intro x hx
    have hp := h.parents x (mem_entries_remove hx).1
    rw [find?_remove_other (ne_of_find? hp hfree), hp]

end WellFormed

/-! ## Files below a place -/

section Files

variable {t : FileTree} {top l : Location}

/-- The files below a place are those that have an entry there. -/
theorem mem_filesBelow_iff_mem {content : ByteArray} :
    (l, content) ∈ t.filesBelow top ↔ l ≠ [] ∧ (top ++ l, .file content) ∈ t.entries := by
  have below {e : Entry} : (l, e) ∈ t.below top ↔ l ≠ [] ∧ (top ++ l, e) ∈ t.entries := by
    rw [FileTree.below, List.mem_filterMap]
    constructor
    · rintro ⟨⟨m, e'⟩, hm, he⟩
      dsimp only at he
      split at he
      · rename_i name rest hrel
        obtain ⟨rfl, rfl⟩ := Prod.mk.inj (Option.some.inj he)
        exact ⟨by simp, relative?_eq_some_iff.1 hrel ▸ hm⟩
      · cases he
    · rintro ⟨hne, hm⟩
      refine ⟨_, hm, ?_⟩
      dsimp only
      rw [relative?_eq_some_iff.2 rfl]
      cases l with
      | nil => exact absurd rfl hne
      | cons name rest => rfl
  rw [FileTree.filesBelow, List.mem_filterMap]
  constructor
  · rintro ⟨⟨m, e⟩, hm, he⟩
    dsimp only at he
    split at he
    · obtain ⟨rfl, rfl⟩ := Prod.mk.inj (Option.some.inj he)
      exact below.1 hm
    · cases he
  · exact fun hl => ⟨_, below.2 hl, rfl⟩

theorem WellFormed.mem_filesBelow_iff (h : t.WellFormed) {content : ByteArray} :
    (l, content) ∈ t.filesBelow top ↔ l ≠ [] ∧ t.find? (top ++ l) = some (.file content) := by
  rw [mem_filesBelow_iff_mem]
  exact and_congr_right fun hne => (h.find?_eq_some_iff (by simp [hne])).symm

/-- Each file is listed once. -/
theorem nodup_filesBelow (hu : (t.entries.map (·.1)).Nodup) (top : Location) :
    ((t.filesBelow top).map (·.1)).Nodup := by
  have entries : t.entries.Pairwise fun x y => x.1 ≠ y.1 := List.pairwise_map.1 hu
  have below : (t.below top).Pairwise fun x y => x.1 ≠ y.1 := by
    refine entries.filterMap _ ?_
    rintro ⟨m, e⟩ ⟨m', e'⟩ hne x hx y hy he
    dsimp only at hx hy
    split at hx
    · rename_i hrel
      split at hy
      · rename_i hrel'
        obtain rfl := Option.some.inj hx
        obtain rfl := Option.some.inj hy
        exact hne ((relative?_eq_some_iff.1 hrel).trans
          ((congrArg (top ++ ·) he).trans (relative?_eq_some_iff.1 hrel').symm))
      · cases hy
    · cases hx
  refine List.pairwise_map.2 (below.filterMap _ ?_)
  rintro ⟨m, e⟩ ⟨m', e'⟩ hne x hx y hy he
  dsimp only at hx hy
  split at hx
  · split at hy
    · obtain rfl := Option.some.inj hx
      obtain rfl := Option.some.inj hy
      exact hne he
    · cases hy
  · cases hx

end Files

end HeaderReflection.FileTree
