import Mathlib.Data.List.Nodup
import HeaderReflection.FileTree.Walk
import HeaderReflection.Proofs.FileTree.WellFormed

/-!
# What walks come to

A walk comes to an entry just if it keeps the entry and all directories on the way to it. This is
decided place by place, although the walk decides it once for all that is below a directory.

* `Comes`: the entry and the directories on the way to it are there, and kept.
* `mem_walkBelow_iff`: a walk comes to those entries.
* `nodup_walkBelow`: it comes to each place once.
-/

namespace HeaderReflection.FileTree

variable {t : FileTree} {keep : Location → Entry → Bool} {top l rest m : Location} {e : Entry}

theorem Entry.isDirectory_iff {e : Entry} : e.isDirectory = true ↔ e = .directory := by
  cases e <;> simp [Entry.isDirectory]

/-- There is an entry some names further down, and directories lead to it, and all of them are
kept. -/
structure Comes (t : FileTree) (keep : Location → Entry → Bool) (top l rest : Location)
    (e : Entry) : Prop where
  ne_nil : rest ≠ []
  entry : (top ++ (l ++ rest), e) ∈ t.entries
  kept : keep (l ++ rest) e = true
  ancestors : ∀ stage, stage ≠ [] → stage <+: rest → stage ≠ rest →
    (top ++ (l ++ stage), .directory) ∈ t.entries ∧ keep (l ++ stage) .directory = true

theorem comes_singleton_iff {name : String} : Comes t keep top l [name] e ↔
    (top ++ (l ++ [name]), e) ∈ t.entries ∧ keep (l ++ [name]) e = true := by
  refine ⟨fun h => ⟨h.entry, h.kept⟩, fun h => ⟨by simp, h.1, h.2, fun stage hne hpre hstage => ?_⟩⟩
  cases stage with
  | nil => exact absurd rfl hne
  | cons s stage =>
    obtain ⟨rfl, hnil⟩ := List.cons_prefix_cons.1 hpre
    exact absurd (by rw [List.prefix_nil.1 hnil]) hstage

theorem comes_cons_iff {name : String} (hne : rest ≠ []) : Comes t keep top l (name :: rest) e ↔
    ((top ++ (l ++ [name]), .directory) ∈ t.entries ∧ keep (l ++ [name]) .directory = true) ∧
      Comes t keep top (l ++ [name]) rest e := by
  have happend : ∀ more, l ++ [name] ++ more = l ++ name :: more :=
    fun more => (List.append_cons ..).symm
  constructor
  · intro h
    refine ⟨h.ancestors [name] (by simp) ⟨rest, rfl⟩ (by simpa using Ne.symm hne), hne, ?_, ?_,
      fun stage hs hpre hstage => ?_⟩
    · exact happend rest ▸ h.entry
    · exact happend rest ▸ h.kept
    · rw [happend]
      exact h.ancestors (name :: stage) (by simp) (List.cons_prefix_cons.2 ⟨rfl, hpre⟩)
        (by simpa using hstage)
  · rintro ⟨hdirectory, h⟩
    refine ⟨by simp, happend rest ▸ h.entry, happend rest ▸ h.kept, fun stage hs hpre hstage => ?_⟩
    cases stage with
    | nil => exact absurd rfl hs
    | cons s stage =>
      obtain ⟨rfl, hbelow⟩ := List.cons_prefix_cons.1 hpre
      by_cases hn : stage = []
      · exact hn ▸ hdirectory
      · rw [← happend]
        exact h.ancestors stage hn hbelow fun he => hstage (he ▸ rfl)

/-- One step of a walk: an entry in the directory, or an entry below a directory in it. -/
theorem mem_walkBelow_step {x : Location × Entry} : x ∈ t.walkBelow keep top l ↔
    ∃ name e, (top ++ (l ++ [name]), e) ∈ t.entries ∧ keep (l ++ [name]) e = true ∧
      (x = (l ++ [name], e) ∨ e = .directory ∧ x ∈ t.walkBelow keep top (l ++ [name])) := by
  rw [walkBelow_eq, List.mem_flatMap]
  constructor
  · rintro ⟨⟨name, e⟩, hchild, hx⟩
    rw [mem_children_iff, List.append_assoc] at hchild
    split at hx
    · rename_i hkeep
      refine ⟨name, e, hchild, hkeep, ?_⟩
      rcases List.mem_cons.1 hx with rfl | hx
      · exact .inl rfl
      · split at hx
        · rename_i hdirectory
          exact .inr ⟨Entry.isDirectory_iff.1 hdirectory, hx⟩
        · cases hx
    · cases hx
  · rintro ⟨name, e, hentry, hkeep, hx⟩
    refine ⟨(name, e), by rwa [mem_children_iff, List.append_assoc], ?_⟩
    rw [if_pos hkeep, List.mem_cons]
    rcases hx with rfl | ⟨rfl, hx⟩
    · exact .inl rfl
    · exact .inr hx

/-- A walk goes down. -/
theorem exists_of_mem_walkBelow {x : Location × Entry} (h : x ∈ t.walkBelow keep top l) :
    ∃ name more, x.1 = l ++ name :: more := by
  induction l using walkBelow.induct t top with
  | case1 l ih =>
    obtain ⟨name, e, hentry, -, rfl | ⟨rfl, hx⟩⟩ := mem_walkBelow_step.1 h
    · exact ⟨name, [], rfl⟩
    · have hchild : (name, .directory) ∈ t.children (top ++ l) :=
        mem_children_iff.2 (by rwa [List.append_assoc])
      obtain ⟨next, more, hmore⟩ := ih _ hchild hx
      exact ⟨name, next :: more, by rw [hmore, List.append_assoc]; rfl⟩

/-- What a walk comes to through an entry of a directory has its name. -/
theorem exists_of_mem_branch {c : String × Entry} {x : Location × Entry}
    (h : x ∈ if keep (l ++ [c.1]) c.2 then
        (l ++ [c.1], c.2) :: if c.2.isDirectory then t.walkBelow keep top (l ++ [c.1]) else []
      else []) : ∃ more, x.1 = l ++ c.1 :: more := by
  split at h
  · rcases List.mem_cons.1 h with rfl | h
    · exact ⟨[], rfl⟩
    · split at h
      · obtain ⟨name, more, hmore⟩ := exists_of_mem_walkBelow h
        exact ⟨name :: more, by rw [hmore, List.append_assoc]; rfl⟩
      · cases h
  · cases h

/-- A walk comes to what it keeps with all directories on the way to it. -/
theorem mem_walkBelow_append_iff :
    (l ++ rest, e) ∈ t.walkBelow keep top l ↔ Comes t keep top l rest e := by
  induction rest generalizing l with
  | nil =>
    refine iff_of_false (fun h => ?_) fun h => h.ne_nil rfl
    obtain ⟨name, more, hmore⟩ := exists_of_mem_walkBelow h
    simp at hmore
  | cons name rest ih =>
    have hdown := ih (l := l ++ [name])
    rw [← List.append_cons] at hdown
    rw [mem_walkBelow_step]
    constructor
    · rintro ⟨name', e', hentry, hkeep, hx | ⟨rfl, hx⟩⟩
      · obtain ⟨hl, rfl⟩ := Prod.mk.inj hx
        obtain ⟨rfl, rfl⟩ := List.cons.inj (List.append_cancel_left hl)
        exact comes_singleton_iff.2 ⟨hentry, hkeep⟩
      · obtain ⟨next, more, hmore⟩ := exists_of_mem_walkBelow hx
        rw [List.append_assoc] at hmore
        obtain ⟨rfl, rfl⟩ := List.cons.inj (List.append_cancel_left hmore)
        exact (comes_cons_iff (by simp)).2 ⟨⟨hentry, hkeep⟩, hdown.1 hx⟩
    · intro h
      by_cases hn : rest = []
      · subst hn
        obtain ⟨hentry, hkeep⟩ := comes_singleton_iff.1 h
        exact ⟨name, e, hentry, hkeep, .inl rfl⟩
      · obtain ⟨⟨hentry, hkeep⟩, hrest⟩ := (comes_cons_iff hn).1 h
        exact ⟨name, .directory, hentry, hkeep, .inr ⟨rfl, hdown.2 hrest⟩⟩

/-- A walk through a directory comes to what it keeps with all directories on the way to it. -/
theorem mem_walkBelow_iff : (m, e) ∈ t.walkBelow keep top [] ↔ Comes t keep top [] m e :=
  mem_walkBelow_append_iff (l := [])

theorem pairwise_children (hu : (t.entries.map (·.1)).Nodup) (l : Location) :
    (t.children l).Pairwise fun x y => x.1 ≠ y.1 := by
  have hentries : t.entries.Pairwise fun x y => x.1 ≠ y.1 := List.pairwise_map.1 hu
  refine (List.mergeSort_perm _ _).symm.pairwise (hentries.filterMap _ ?_) Ne.symm
  rintro ⟨m, e⟩ ⟨m', e'⟩ hne x hx y hy he
  dsimp only at hx hy
  split at hx
  · rename_i hrel
    split at hy
    · rename_i hrel'
      obtain rfl := Option.some.inj hx
      obtain rfl := Option.some.inj hy
      exact hne ((relative?_eq_some_iff.1 hrel).trans
        ((congrArg (l ++ [·]) he).trans (relative?_eq_some_iff.1 hrel').symm))
    · cases hy
  · cases hx

/-- A walk comes to each place once. -/
theorem nodup_walkBelow (hu : (t.entries.map (·.1)).Nodup) :
    ((t.walkBelow keep top l).map (·.1)).Nodup := by
  induction l using walkBelow.induct t top with
  | case1 l ih =>
    rw [walkBelow_eq, List.map_flatMap, List.nodup_flatMap]
    constructor
    · intro c hc
      split
      · rw [List.map_cons]
        split
        · refine List.nodup_cons.2 ⟨fun hm => ?_, ih c hc⟩
          obtain ⟨x, hx, he⟩ := List.mem_map.1 hm
          obtain ⟨name, more, hmore⟩ := exists_of_mem_walkBelow hx
          rw [hmore] at he
          simp at he
        · simp
      · simp
    · refine (pairwise_children hu _).imp fun {c c'} hne m hm hm' => ?_
      obtain ⟨x, hx, rfl⟩ := List.mem_map.1 hm
      obtain ⟨y, hy, he⟩ := List.mem_map.1 hm'
      obtain ⟨more, hmore⟩ := exists_of_mem_branch hx
      obtain ⟨more', hmore'⟩ := exists_of_mem_branch hy
      rw [hmore, hmore', List.append_cancel_left_eq] at he
      exact hne (List.cons.inj he).1.symm

end HeaderReflection.FileTree
