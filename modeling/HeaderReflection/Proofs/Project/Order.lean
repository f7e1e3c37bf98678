import Mathlib.Data.List.Pairwise
import HeaderReflection.Proofs.FileTree.Descent
import HeaderReflection.Proofs.Project.Writing

/-!
# The order of commits

Commits to places of which none is below another do not get in each other's way. What they share is
directories on the way, and it makes no difference which of them creates one.

* `commit_descends`: what a commit does, by what its path reads before.
* `read_commit_of_apart`: a commit leaves what other paths read.
* `commitAll_perm`: commits come to the same in every order.
-/

namespace HeaderReflection.Project

open FileTree (Edits IsPlain replaceError?)
open HeaderReflection.Path (Descends destination waypoints)

variable {t t' : FileTree}

/-! ## Places -/

/-- Neither place is the other one or below it. -/
def Apart (l m : Location) : Prop := ¬ l <+: m ∧ ¬ m <+: l

instance (l m : Location) : Decidable (Apart l m) := inferInstanceAs (Decidable (_ ∧ _))

theorem Apart.symm {l m : Location} (h : Apart l m) : Apart m l := ⟨h.2, h.1⟩

/-- The planned files have places apart. -/
def PlannedFile.Apart (p q : PlannedFile) : Prop :=
  Project.Apart (destination p.path) (destination q.path)

instance (p q : PlannedFile) : Decidable (p.Apart q) :=
  inferInstanceAs (Decidable (Project.Apart _ _))

theorem PlannedFile.Apart.symm {p q : PlannedFile} (h : p.Apart q) : q.Apart p :=
  Project.Apart.symm h

instance : Std.Symm PlannedFile.Apart := ⟨fun _ _ h => h.symm⟩

theorem prefix_dropLast_iff {l m : Location} (hl : l ≠ []) :
    m <+: l.dropLast ↔ m <+: l ∧ m ≠ l := by
  obtain ⟨init, s, rfl⟩ := (List.eq_nil_or_concat l).resolve_left hl
  rw [List.concat_eq_append, List.dropLast_concat]
  constructor
  · intro hm
    refine ⟨hm.trans (List.prefix_append ..), ?_⟩
    rintro rfl
    have hle := hm.length_le
    rw [List.length_append, List.length_singleton] at hle
    exact Nat.not_succ_le_self _ hle
  · rintro ⟨hm, hne⟩
    exact (List.prefix_concat_iff.1 hm).resolve_left hne

/-- A file is written into the directory that its path names it in. -/
theorem destination_directoryOf {path : String} (hp : Descends path) :
    Descends (directoryOf path) ∧
      destination (directoryOf path) = (destination path).dropLast := by
  unfold directoryOf
  split
  · rename_i hn
    rw [Path.destination_of_parent_eq_none hp hn]
    exact ⟨by decide, by decide⟩
  · rename_i hd
    rw [← (Path.destination_parent hp hd).2]
    exact ⟨by decide, by decide⟩
  · rename_i hd
    exact Path.destination_parent hp hd

/-! ## Single commits -/

/-- A text is to be written where a path reads as given. -/
def isChange (text : String) : Except FileError ByteArray → Bool
  | .ok held => held.data != text.toUTF8.data
  | .error .notFound => true
  | .error _ => false

/-- The outcome of a commit whose path reads as given. -/
def verdict (dryRun : Bool) (path text : String) (read : Except FileError ByteArray) :
    WriteOutcome :=
  if isChange text read then
    if dryRun then .outdated
    else match replaceError? path with
      | some e => .failed e.message
      | none => .written
  else match read with
    | .ok _ => .unchanged
    | .error e => .failed e.message

/-- What a commit whose path reads as given puts at a place. -/
def laid (dryRun : Bool) (path text : String) (read : Except FileError ByteArray) (m : Location) :
    Option Entry :=
  if dryRun || !isChange text read then none
  else if m = destination path then
    if replaceError? path = none then some (.file text.toUTF8) else none
  else if m <+: destination path then some .directory else none

theorem commit_of_isChange {path text : String} (hc : isChange text (t.read path) = true)
    (dryRun : Bool) :
    commit dryRun t path text
      = if dryRun then (.outdated, t) else writeOver t path text.toUTF8 := by
  unfold commit
  cases hr : t.read path with
  | ok held =>
    have hne : (held.data == text.toUTF8.data) = false := by simpa [isChange, hr, bne] using hc
    simp only [hne, Bool.false_eq_true, if_false]
  | error e => cases e <;> simp [isChange, hr] at hc ⊢

theorem commit_of_not_isChange {path text : String} (hc : isChange text (t.read path) = false)
    (dryRun : Bool) : commit dryRun t path text = (verdict dryRun path text (t.read path), t) := by
  unfold commit verdict
  cases hr : t.read path with
  | ok held =>
    have he : held.data = text.toUTF8.data := by simpa [isChange, hr, bne] using hc
    simp only [he, isChange, bne, beq_self_eq_true, if_true, Bool.not_true, Bool.false_eq_true,
      if_false]
  | error e => cases e <;> simp [isChange, hr] at hc ⊢

section Commits

variable (h : t.IsPlain) {path : String} (hp : Descends path)

include h hp

/-- Where a text is to be written, no file is in the way. -/
theorem free_of_isChange {text : String} (hc : isChange text (t.read path) = true) {m : Location}
    (hm : m <+: destination path) (hne : m ≠ destination path) (content : ByteArray) :
    t.find? m ≠ some (.file content) := by
  cases hr : t.read path with
  | ok held =>
    obtain ⟨-, hf⟩ := (FileTree.read_eq_ok_iff h).1 hr
    obtain ⟨rest, hrest⟩ := hm
    have hn : rest ≠ [] := fun hn => hne (by simpa [hn] using hrest)
    rw [h.ancestor hn (hrest ▸ hf)]
    simp
  | error e =>
    rw [hr] at hc
    obtain rfl : e = .notFound := by
      cases e <;> simp [isChange] at hc ⊢
    by_cases hempty : path = ""
    · subst hempty
      exact absurd (List.prefix_nil.1 hm) hne
    · exact (FileTree.free_of_read h hp hempty hr).1 m (Path.mem_waypoints_of_prefix hp hm hne)
        content

/-- Where a text is to be written, there is nothing or a file. -/
theorem place_of_isChange {text : String} (hc : isChange text (t.read path) = true)
    (hempty : path ≠ "") :
    t.find? (destination path) = none ∨
      destination path ∉ waypoints path ∧ t.find? (destination path) ≠ some .directory := by
  cases hr : t.read path with
  | ok held =>
    obtain ⟨hreach, hf⟩ := (FileTree.read_eq_ok_iff h).1 hr
    refine .inr ⟨fun hm => ?_, by simp [hf]⟩
    have hd := hreach.directories _ hm
    rw [hf] at hd
    cases hd
  | error e =>
    rw [hr] at hc
    obtain rfl : e = .notFound := by
      cases e <;> simp [isChange] at hc ⊢
    exact .inl (FileTree.free_of_read h hp hempty hr).2

/-- Where a text is to be written, the directories on the way are created. -/
theorem directories_of_isChange {text : String} (hc : isChange text (t.read path) = true) :
    ∃ t', t.createDirectories (directoryOf path) = .ok t' ∧ t'.IsPlain ∧
      ∀ m, t'.find? m =
        if m <+: destination path ∧ m ≠ destination path then some .directory else t.find? m := by
  obtain ⟨hup, hd⟩ := destination_directoryOf hp
  have hfree : ∀ m, m <+: destination (directoryOf path) → ∀ c, t.find? m ≠ some (.file c) := by
    intro m hm c
    by_cases hl : destination path = []
    · rw [hd, hl] at hm
      rw [List.prefix_nil.1 hm]
      simp [FileTree.find?_top]
    · obtain ⟨hm, hne⟩ := (prefix_dropLast_iff hl).1 (hd ▸ hm)
      exact free_of_isChange h hp hc hm hne c
  obtain ⟨t', ht', h', hfind⟩ := FileTree.createDirectories_descends h hup hfree
  refine ⟨t', ht', h', fun m => ?_⟩
  rw [hfind, hd]
  by_cases hl : destination path = []
  · by_cases hm : m = []
    · simp [hm, hl, FileTree.find?_top]
    · simp [hm, hl]
  · simp only [prefix_dropLast_iff hl]

theorem writeOver_descends {text : String} (hc : isChange text (t.read path) = true) :
    (writeOver t path text.toUTF8).1 = verdict false path text (t.read path) ∧
      ∀ m, (writeOver t path text.toUTF8).2.find? m
        = (laid false path text (t.read path) m).or (t.find? m) := by
  obtain ⟨t', ht', h', hfind⟩ := directories_of_isChange h hp hc
  have hplace : t'.find? (destination path) = t.find? (destination path) := by
    rw [hfind, if_neg fun hm => hm.2 rfl]
  have hput := FileTree.replace_descends h' hp text.toUTF8 (fun m hm hne => by
    rw [hfind, if_pos ⟨hm, hne⟩]) (hplace ▸ place_of_isChange h hp hc)
  rw [writeOver, ht']
  dsimp only
  rw [hput]
  simp only [verdict, laid, hc]
  cases he : replaceError? path with
  | some e =>
    refine ⟨rfl, fun m => ?_⟩
    by_cases hm : m = destination path
    · simp [hm, hplace]
    · simp [hfind, hm]
      split <;> simp
  | none =>
    refine ⟨rfl, fun m => ?_⟩
    have hl : destination path ≠ [] := by
      intro hl
      have hempty : path ≠ "" := by
        rintro rfl
        cases he
      have hp := place_of_isChange h hp hc hempty
      simp [hl, FileTree.find?_top] at hp
    by_cases hm : m = destination path
    · simp [hm, FileTree.find?_insert_same hl]
    · simp [FileTree.find?_insert_other hm, hfind, hm]
      split <;> simp

/-- What a commit does, by what its path reads before. -/
theorem commit_descends (dryRun : Bool) (text : String) :
    (commit dryRun t path text).1 = verdict dryRun path text (t.read path) ∧
      ∀ m, (commit dryRun t path text).2.find? m
        = (laid dryRun path text (t.read path) m).or (t.find? m) := by
  cases hc : isChange text (t.read path) with
  | true =>
    rw [commit_of_isChange hc]
    cases dryRun with
    | true => simp [verdict, laid, hc]
    | false => exact writeOver_descends h hp hc
  | false =>
    rw [commit_of_not_isChange hc]
    simp [laid, hc]

end Commits

/-! ## Commits to places apart -/

theorem commit_isPlain (h : t.IsPlain) (dryRun : Bool) (path text : String) :
    (commit dryRun t path text).2.IsPlain ∧
      Edits (· = destination path) t (commit dryRun t path text).2 := by
  cases dryRun with
  | true =>
    rw [commit_dry_tree]
    exact ⟨h, .refl _ _⟩
  | false =>
    obtain ⟨h', edits, -⟩ := commit_plain h path text
    exact ⟨h', edits⟩

theorem laid_eq_none {dryRun : Bool} {path text : String} {read : Except FileError ByteArray}
    {m : Location} (hm : ¬ m <+: destination path) : laid dryRun path text read m = none := by
  have hne : m ≠ destination path := fun he => hm (he ▸ List.prefix_rfl)
  simp [laid, hm, hne]

/-- A commit leaves what other paths read. -/
theorem read_commit_of_apart (h : t.IsPlain) {path other : String} (hp : Descends path)
    (hother : Descends other) (hapart : Apart (destination path) (destination other))
    (dryRun : Bool) (text : String) :
    (commit dryRun t path text).2.read other = t.read other := by
  obtain ⟨h', edits⟩ := commit_isPlain h dryRun path text
  refine FileTree.read_congr h h' hother (fun m hm c => edits.files m ?_ c) ?_
  · rintro rfl
    exact hapart.1 (Path.prefix_of_mem_waypoints hother hm)
  · rw [(commit_descends h hp dryRun text).2, laid_eq_none hapart.2, Option.none_or]

/-- What two commits both put at a place is a directory on the way to both. -/
theorem laid_agree {dryRun : Bool} {path text other otherText : String}
    {read otherRead : Except FileError ByteArray} {m : Location} {e e' : Entry}
    (hapart : Apart (destination path) (destination other))
    (he : laid dryRun path text read m = some e)
    (he' : laid dryRun other otherText otherRead m = some e') : e = e' := by
  have on_way {path text : String} {read : Except FileError ByteArray} {e : Entry}
      (he : laid dryRun path text read m = some e) (hne : m ≠ destination path) :
      e = .directory := by
    simp only [laid, hne, if_false] at he
    split at he
    · cases he
    · split at he
      · exact (Option.some.inj he).symm
      · cases he
  have prefix_of {path text : String} {read : Except FileError ByteArray} {e : Entry}
      (he : laid dryRun path text read m = some e) : m <+: destination path := by
    by_contra hm
    rw [laid_eq_none hm] at he
    cases he
  rw [on_way he fun hm => hapart.1 (hm ▸ prefix_of he'),
    on_way he' fun hm => hapart.2 (hm ▸ prefix_of he)]

/-! ## Lists of commits -/

/-- What a planned file puts at a place of a tree. -/
def PlannedFile.laid (dryRun : Bool) (t : FileTree) (p : PlannedFile) (m : Location) :
    Option Entry :=
  Project.laid dryRun p.path p.text (t.read p.path) m

section Lists

variable {ps : List PlannedFile}

theorem commitPlanned_find? (h : t.IsPlain) {p : PlannedFile} (hp : Descends p.path)
    (dryRun : Bool) (m : Location) :
    (commitPlanned dryRun t p).2.find? m = (p.laid dryRun t m).or (t.find? m) :=
  (commit_descends h hp dryRun p.text).2 m

/-- A commit leaves what commits to places apart come to. -/
theorem commitPlanned_of_read (h : t.IsPlain) (h' : t'.IsPlain) {p : PlannedFile}
    (hp : Descends p.path) (hr : t'.read p.path = t.read p.path) (dryRun : Bool) :
    (commitPlanned dryRun t' p).1 = (commitPlanned dryRun t p).1 ∧
      p.laid dryRun t' = p.laid dryRun t := by
  constructor
  · simp only [commitPlanned, (commit_descends h hp dryRun p.text).1,
      (commit_descends h' hp dryRun p.text).1, hr]
  · funext m
    simp only [PlannedFile.laid, hr]

/-- Commits to places apart come to what each of them comes to by itself: with the same outcome, and
with the same at each place. -/
theorem commitAll_alone (h : t.IsPlain) (hdesc : ∀ p ∈ ps, Descends p.path)
    (hapart : ps.Pairwise PlannedFile.Apart) (dryRun : Bool) :
    (commitAll dryRun t ps).1 = ps.map (fun p => (commitPlanned dryRun t p).1) ∧
      ∀ m, (∀ p ∈ ps, ∀ e, p.laid dryRun t m = some e →
          (commitAll dryRun t ps).2.find? m = some e) ∧
        ((∀ p ∈ ps, p.laid dryRun t m = none) →
          (commitAll dryRun t ps).2.find? m = t.find? m) := by
  induction ps generalizing t with
  | nil => exact ⟨rfl, by simp [commitAll]⟩
  | cons p rest ih =>
    obtain ⟨hp, hrest⟩ := List.forall_mem_cons.1 hdesc
    obtain ⟨hfirst, hothers⟩ := List.pairwise_cons.1 hapart
    have h₁ : (commitPlanned dryRun t p).2.IsPlain := (commit_isPlain h dryRun p.path p.text).1
    obtain ⟨outcomes, places⟩ := ih h₁ hrest hothers
    have same : ∀ q ∈ rest, _ := fun q hq => commitPlanned_of_read h h₁ (hrest q hq)
      (read_commit_of_apart h hp (hrest q hq) (hfirst q hq) dryRun p.text) dryRun
    have view := commitPlanned_find? h hp dryRun
    constructor
    · rw [commitAll, outcomes, List.map_cons, List.map_congr_left fun q hq => (same q hq).1]
    · intro m
      obtain ⟨some_laid, none_laid⟩ := places m
      rw [commitAll, List.forall_mem_cons, List.forall_mem_cons]
      have untouched (hns : ∀ q ∈ rest, q.laid dryRun t m = none) :
          (commitAll dryRun (commitPlanned dryRun t p).2 rest).2.find? m
            = (p.laid dryRun t m).or (t.find? m) :=
        (none_laid fun q hq => ((same q hq).2 ▸ hns q hq)).trans (view m)
      refine ⟨⟨fun e he => ?_, fun q hq e he => ?_⟩, fun hnone => ?_⟩
      · -- Either another commit puts the same there, or none of them puts anything there.
        by_cases hex : ∃ q ∈ rest, ∃ e', q.laid dryRun t m = some e'
        · obtain ⟨q, hq, e', he'⟩ := hex
          rw [laid_agree (hfirst q hq) he he']
          exact some_laid q hq e' ((same q hq).2 ▸ he')
        · have hns : ∀ q ∈ rest, q.laid dryRun t m = none := fun q hq =>
            Option.eq_none_iff_forall_ne_some.2 fun e' he' => hex ⟨q, hq, e', he'⟩
          rw [untouched hns, he, Option.some_or]
      · exact some_laid q hq e ((same q hq).2 ▸ he)
      · rw [untouched hnone.2, hnone.1, Option.none_or]

/-- Commits to places apart come to the same in every order: each has the outcome that it has by
itself, its place holds what it holds then, and the tree holds the same everywhere. -/
theorem commitAll_perm (h : t.IsPlain) {ps qs : List PlannedFile}
    (hdesc : ∀ p ∈ ps, Descends p.path)
    (hapart : ps.Pairwise PlannedFile.Apart)
    (hperm : qs.Perm ps) (dryRun : Bool) :
    (commitAll dryRun t qs).1 = qs.map (fun p => (commitPlanned dryRun t p).1) ∧
      (∀ p ∈ qs, (commitAll dryRun t qs).2.find? (destination p.path)
        = (commitPlanned dryRun t p).2.find? (destination p.path)) ∧
      ∀ l, (commitAll dryRun t qs).2.find? l = (commitAll dryRun t ps).2.find? l := by
  have hdesc' : ∀ q ∈ qs, Descends q.path := fun q hq => hdesc q (hperm.mem_iff.1 hq)
  have hapart' : qs.Pairwise PlannedFile.Apart := (hperm.pairwise_iff fun hpq => hpq.symm).2 hapart
  obtain ⟨outcomes, places⟩ := commitAll_alone h hdesc' hapart' dryRun
  refine ⟨outcomes, fun p hp => ?_, fun l => ?_⟩
  · rw [commitPlanned_find? h (hdesc' p hp) dryRun]
    obtain ⟨some_laid, none_laid⟩ := places (destination p.path)
    cases hl : p.laid dryRun t (destination p.path) with
    | some e => rw [some_laid p hp e hl, Option.some_or]
    | none =>
      rw [Option.none_or]
      refine none_laid fun q hq => ?_
      by_cases he : q = p
      · rwa [he]
      · exact laid_eq_none (hapart'.forall hp hq (Ne.symm he)).1
  · obtain ⟨-, places'⟩ := commitAll_alone h hdesc hapart dryRun
    by_cases hex : ∃ p ∈ ps, ∃ e, p.laid dryRun t l = some e
    · obtain ⟨p, hp, e, he⟩ := hex
      rw [(places l).1 p (hperm.mem_iff.2 hp) e he, (places' l).1 p hp e he]
    · have hns : ∀ p ∈ ps, p.laid dryRun t l = none := fun p hp =>
        Option.eq_none_iff_forall_ne_some.2 fun e he => hex ⟨p, hp, e, he⟩
      rw [(places l).2 fun p hp => hns p (hperm.mem_iff.1 hp), (places' l).2 hns]

end Lists

/-! ### A file in the way of a directory -/

/-- An output directory with a file. -/
def blockedTree : FileTree where
  entries := [(["out"], .directory), (["out", "x"], .file .empty)]

theorem blockedTree_isPlain : blockedTree.IsPlain := by
  refine ⟨by decide, by decide, ?_, ?_, ?_⟩
  · have names : ∀ l ∈ blockedTree.entries.map (·.1), ∀ s ∈ l, Path.IsName s := by decide
    exact fun e he => names e.1 (List.mem_map_of_mem he)
  · simp [blockedTree, FileTree.find?, List.lookup_cons]
  · simp [blockedTree]

/-- A file that would be written below the file, and two in a directory that is missing. -/
def blockedFiles : List PlannedFile :=
  ["out/x/a.h", "out/new/b.h", "out/new/c.h"].map fun path =>
    { fileId := "", part := .header, path, containers := 1, text := path }

/-- The one that fails does so in either order, and the others are written. -/
theorem commitAll_perm_blocked :
    (commitAll false blockedTree blockedFiles.reverse).1.map (·.outcome)
      = [.written, .written, .failed "Not a directory (os error 20)"] ∧
    ∀ l, (commitAll false blockedTree blockedFiles.reverse).2.find? l
      = (commitAll false blockedTree blockedFiles).2.find? l := by
  have hdesc : ∀ p ∈ blockedFiles, Descends p.path := by decide
  have hapart : blockedFiles.Pairwise PlannedFile.Apart := by decide
  obtain ⟨outcomes, -, places⟩ :=
    commitAll_perm blockedTree_isPlain hdesc hapart (List.reverse_perm blockedFiles) false
  refine ⟨?_, places⟩
  have hx : Path.segments "out/x/a.h" = ["out", "x", "a.h"] := by decide
  have hb : Path.segments "out/new/b.h" = ["out", "new", "b.h"] := by decide
  have hc : Path.segments "out/new/c.h" = ["out", "new", "c.h"] := by decide
  have hbd : directoryOf "out/new/b.h" = "out/new" := by decide
  have hcd : directoryOf "out/new/c.h" = "out/new" := by decide
  have hd : Path.segments "out/new" = ["out", "new"] := by decide
  rw [outcomes]
  simp [blockedFiles, commitPlanned, commit, writeOver, blockedTree, hx, hb, hc, hbd, hcd, hd,
    FileTree.read, FileTree.get?, FileTree.locate, FileTree.walk, FileTree.linkLimit,
    FileTree.find?, FileTree.createDirectories, FileTree.makeDirectories, FileTree.replace,
    FileTree.insert, FileTree.remove, List.lookup_cons, FileError.message, pure, Except.pure]

end HeaderReflection.Project
