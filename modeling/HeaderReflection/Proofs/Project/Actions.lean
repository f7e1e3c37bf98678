import HeaderReflection.Proofs.FileTree.Changes
import HeaderReflection.Proofs.Project.Order

/-!
# Commits and removals one after another

A commit to a path of names either puts its text there or leaves the tree as it is, and a removal
deletes a file or nothing. So after any of them each path has the content that the last one left
there which did something to it.

* `Path.NamesFile`: the paths, among them all names with slashes between them.
* `commit_committed`, `remove_removed`: what one commit and one removal do.
* `contentAt_perform`: what one of them leaves at each place.
* `performAll_contents`: what a sequence of them leaves.
-/

namespace HeaderReflection

/-! ## Paths of names -/

namespace Path

/-- The path goes down to a name. -/
structure NamesFile (path : String) : Prop where
  descends : Descends path
  last : ∃ s, (segments path).getLast? = some s ∧ IsName s

/-- Names with slashes between them are such a path. -/
theorem namesFile_names {names : List String} (h : ∀ s ∈ names, IsName s) (hne : names ≠ []) :
    NamesFile ("/".intercalate names) := by
  refine ⟨?_, names.getLast hne, ?_, h _ (List.getLast_mem hne)⟩
  · rw [Descends, segments_names h hne]
    exact fun hup => (h _ hup).ne_up rfl
  · rw [segments_names h hne, List.getLast?_eq_some_getLast hne]

namespace NamesFile

variable {path : String} (h : NamesFile path)

include h

theorem ne_empty : path ≠ "" := by
  rintro rfl
  obtain ⟨s, hs, hname⟩ := h.last
  exact hname.ne_empty (Option.some.inj hs).symm

/-- A file can be put at the path, as far as its text tells. -/
theorem replaceError?_eq_none : FileTree.replaceError? path = none := by
  obtain ⟨s, hs, hname⟩ := h.last
  simp [FileTree.replaceError?, h.ne_empty, hs, hname.ne_empty, hname.ne_here]

/-- On the way the path goes through the places above its own. -/
theorem mem_waypoints_iff {m : Location} :
    m ∈ waypoints path ↔ m <+: destination path ∧ m ≠ destination path := by
  obtain ⟨s, hs, hname⟩ := h.last
  refine ⟨fun hm => ⟨prefix_of_mem_waypoints h.descends hm, ?_⟩,
    fun hm => mem_waypoints_of_prefix h.descends hm.1 hm.2⟩
  rintro rfl
  exact hname.not_idle ((destination_mem_waypoints_iff h.descends hs).1 hm)

end NamesFile

end Path

/-! ## Contents -/

namespace FileTree

open HeaderReflection.Path (NamesFile destination)

variable {t : FileTree} {path : String}

/-- The content of the file at a place. -/
def contentAt (t : FileTree) (l : Location) : Option ByteArray :=
  match t.find? l with
  | some (.file content) => some content
  | _ => none

theorem contentAt_eq_some_iff {l : Location} {content : ByteArray} :
    t.contentAt l = some content ↔ t.find? l = some (.file content) := by
  unfold contentAt
  split
  · rename_i hf
    simp [hf]
  · rename_i hf
    exact ⟨fun h => (nomatch h), fun h => absurd h (hf content)⟩

/-- A path of names leads to the file at its place. -/
theorem read_eq_ok_iff_of_namesFile (h : t.IsPlain) (hp : NamesFile path) {content : ByteArray} :
    t.read path = .ok content ↔ t.find? (destination path) = some (.file content) := by
  rw [read_eq_ok_iff h]
  refine ⟨fun hr => hr.2, fun hf => ⟨?_, hf⟩⟩
  refine ⟨hp.ne_empty, fun m hm => ?_⟩
  obtain ⟨⟨below, hb⟩, hne⟩ := hp.mem_waypoints_iff.1 hm
  rw [← hb] at hf
  exact h.ancestor (fun hn => hne (by rw [← hb, hn, List.append_nil])) hf

theorem read_toOption (h : t.IsPlain) (hp : NamesFile path) :
    (t.read path).toOption = t.contentAt (destination path) := by
  cases hr : t.read path with
  | ok content =>
    exact (contentAt_eq_some_iff.2 ((read_eq_ok_iff_of_namesFile h hp).1 hr)).symm
  | error e =>
    cases hc : t.contentAt (destination path) with
    | none => rfl
    | some content =>
      rw [(read_eq_ok_iff_of_namesFile h hp).2 (contentAt_eq_some_iff.1 hc)] at hr
      cases hr

theorem isFile_iff_of_namesFile (h : t.IsPlain) (hp : NamesFile path) :
    t.isFile path = true ↔ ∃ content, t.find? (destination path) = some (.file content) := by
  rw [isFile_iff h]
  refine ⟨fun hf => hf.2, fun ⟨content, hf⟩ => ⟨?_, content, hf⟩⟩
  exact ((read_eq_ok_iff h).1 ((read_eq_ok_iff_of_namesFile h hp).2 hf)).1

end FileTree

namespace Project

open FileTree (IsPlain)
open HeaderReflection.Path (NamesFile destination)

/-! ## Single commits and removals -/

/-- What a commit with an outcome and a tree behind it does: all that it should, or nothing. -/
structure Committed (dryRun : Bool) (t : FileTree) (path text : String) (outcome : WriteOutcome)
    (t' : FileTree) : Prop where
  /-- A path that is said to hold the text does so, and a further commit finds nothing to do. -/
  holds : outcome = .written ∨ outcome = .unchanged →
    t'.read path = .ok text.toUTF8 ∧ ∀ again, commit again t' path text = (.unchanged, t')
  kept : outcome ≠ .written → t' = t
  /-- Nothing changes but for the file and for directories on the way that are missing. -/
  places : outcome = .written → ∀ m, t'.find? m =
    if m = destination path then some (.file text.toUTF8)
    else if m <+: destination path then some .directory else t.find? m
  free : outcome = .written → ∀ m, m <+: destination path → m ≠ destination path →
    t.find? m = none ∨ t.find? m = some .directory
  outdated : outcome = .outdated ↔ dryRun = true ∧ (commit false t path text).1 = .written

/-- What a removal with an answer and a tree behind it does. -/
structure Removed (dryRun : Bool) (t : FileTree) (path : String) (found : Bool)
    (t' : FileTree) : Prop where
  answer : found = true ↔ ∃ content, t.find? (destination path) = some (.file content)
  kept : dryRun = true ∨ found = false → t' = t
  gone : dryRun = false → found = true → ∀ m, t'.find? m =
    if m = destination path then none else t.find? m

section Single

variable {t : FileTree} (h : t.IsPlain) {path : String} (hp : NamesFile path)

include h hp

theorem commit_outcome (dryRun : Bool) (text : String) : (commit dryRun t path text).1 =
    if isChange text (t.read path) then if dryRun then .outdated else .written
    else match t.read path with
      | .ok _ => .unchanged
      | .error e => .failed e.message := by
  rw [(commit_descends h hp.descends dryRun text).1]
  cases t.read path <;> simp only [verdict, hp.replaceError?_eq_none]

theorem commit_eq_written_iff {dryRun : Bool} {text : String} :
    (commit dryRun t path text).1 = .written
      ↔ dryRun = false ∧ isChange text (t.read path) = true := by
  rw [commit_outcome h hp]
  cases hc : isChange text (t.read path) with
  | true => cases dryRun <;> simp
  | false => cases t.read path <;> simp

theorem commit_eq_outdated_iff {dryRun : Bool} {text : String} :
    (commit dryRun t path text).1 = .outdated
      ↔ dryRun = true ∧ isChange text (t.read path) = true := by
  rw [commit_outcome h hp]
  cases hc : isChange text (t.read path) with
  | true => cases dryRun <;> simp
  | false => cases t.read path <;> simp

/-- What a commit that writes leaves at each place. -/
theorem find?_of_written {dryRun : Bool} {text : String}
    (hw : (commit dryRun t path text).1 = .written) (m : Location) :
    (commit dryRun t path text).2.find? m =
      if m = destination path then some (.file text.toUTF8)
      else if m <+: destination path then some .directory else t.find? m := by
  obtain ⟨rfl, hc⟩ := (commit_eq_written_iff h hp).1 hw
  rw [(commit_descends h hp.descends false text).2, laid, hp.replaceError?_eq_none, hc]
  simp only [Bool.not_true, Bool.or_self, Bool.false_eq_true, if_false, if_true]
  split
  · rfl
  · split <;> rfl

/-- A commit puts the text at the path or does nothing. -/
theorem commit_committed (dryRun : Bool) (text : String) :
    Committed dryRun t path text (commit dryRun t path text).1 (commit dryRun t path text).2 := by
  have hkept : (commit dryRun t path text).1 ≠ .written → (commit dryRun t path text).2 = t := by
    intro hne
    cases hc : isChange text (t.read path) with
    | false => rw [commit_of_not_isChange hc]
    | true =>
      cases dryRun with
      | true => exact commit_dry_tree t path text
      | false => exact absurd ((commit_eq_written_iff h hp).2 ⟨rfl, hc⟩) hne
  have hplain := (commit_isPlain h dryRun path text).1
  have hholds : (commit dryRun t path text).1 = .written ∨
      (commit dryRun t path text).1 = .unchanged →
      (commit dryRun t path text).2.read path = .ok text.toUTF8 := by
    rintro (hw | hu)
    · rw [FileTree.read_eq_ok_iff_of_namesFile hplain hp, find?_of_written h hp hw, if_pos rfl]
    · obtain ⟨held, hr, hd⟩ := (commit_unchanged_iff dryRun).1 hu
      rw [hkept (by simp [hu]), hr, ByteArray.ext hd]
  refine ⟨fun ho => ⟨hholds ho, fun again => ?_⟩, hkept, fun hw => find?_of_written h hp hw,
    fun hw m hm hne => ?_, ?_⟩
  · exact commit_of_holds ⟨_, hholds ho, rfl⟩ again
  · obtain ⟨-, hc⟩ := (commit_eq_written_iff h hp).1 hw
    rcases hf : t.find? m with _ | content | _ | target
    · exact .inl rfl
    · exact absurd hf (free_of_isChange h hp.descends hc hm hne content)
    · exact .inr rfl
    · exact absurd hf (h.find?_ne_link m target)
  · rw [commit_eq_outdated_iff h hp, commit_eq_written_iff h hp]
    simp

/-- The contents behind a commit that writes. -/
theorem contentAt_of_written {dryRun : Bool} {text : String}
    (hw : (commit dryRun t path text).1 = .written) (l : Location) :
    (commit dryRun t path text).2.contentAt l =
      if destination path = l then some text.toUTF8 else t.contentAt l := by
  have hc := commit_committed h hp dryRun text
  simp only [FileTree.contentAt, hc.places hw]
  by_cases hl : l = destination path
  · simp [hl]
  · rw [if_neg hl, if_neg (Ne.symm hl)]
    split_ifs with hm
    · -- Nothing but a directory stands on the way.
      rcases hc.free hw l hm hl with hf | hf <;> rw [hf]
    · rfl

/-- A removal deletes the file at the path or does nothing. -/
theorem remove_removed (dryRun : Bool) : ∃ found t', remove dryRun t path = .ok (found, t') ∧
    t'.IsPlain ∧ Removed dryRun t path found t' := by
  have hiff := FileTree.isFile_iff_of_namesFile h hp
  cases hf : t.isFile path with
  | false =>
    refine ⟨false, t, by simp [remove, hf], h, ?_, fun _ => rfl, fun _ hfound => ?_⟩
    · rw [← hiff, hf]
    · cases hfound
  | true =>
    obtain ⟨content, hc⟩ := hiff.1 hf
    have hfound : true = true ↔ ∃ content, t.find? (destination path) = some (.file content) :=
      ⟨fun _ => ⟨content, hc⟩, fun _ => rfl⟩
    cases dryRun with
    | true =>
      refine ⟨true, t, by simp [remove, hf], h, hfound, fun _ => rfl, fun hdry => ?_⟩
      cases hdry
    | false =>
      have hreaches := ((FileTree.isFile_iff h).1 hf).1
      have hlocate := (FileTree.locate_eq_ok_iff h false).2 ⟨hreaches, rfl⟩
      have hrun : remove false t path = .ok (true, t.remove (destination path)) := by
        simp [remove, hf, FileTree.unlink_eq_ok hlocate hc, Except.map]
      have hne : destination path ≠ [] := by
        intro hn
        rw [hn] at hc
        cases hc
      have hplain := (FileTree.sameWays_remove hc).isPlain h (h.wellFormed.remove (by simp [hc]))
      refine ⟨true, _, hrun, hplain, hfound, ?_, fun _ _ m => ?_⟩
      · rintro (hdry | hnone)
        · cases hdry
        · cases hnone
      · split
        · rename_i hm
          rw [hm, FileTree.find?_remove_same hne]
        · rename_i hm
          exact FileTree.find?_remove_other hm

end Single

/-! ## Sequences of actions -/

/-- Something that is done to a tree. -/
inductive FileAction where
  | commit (dryRun : Bool) (path text : String)
  | remove (dryRun : Bool) (path : String)

/-- What is answered to an action. -/
inductive FileAnswer where
  | committed (outcome : WriteOutcome)
  | removed (answer : Except FileError Bool)

namespace FileAction

/-- The path that an action is about. -/
def path : FileAction → String
  | .commit _ path _ => path
  | .remove _ path => path

/-- The answer to an action, and the tree behind it. -/
def perform (t : FileTree) : FileAction → FileAnswer × FileTree
  | .commit dryRun path text =>
    let (outcome, t) := Project.commit dryRun t path text
    (.committed outcome, t)
  | .remove dryRun path =>
    match Project.remove dryRun t path with
    | .ok (found, t) => (.removed (.ok found), t)
    | .error e => (.removed (.error e), t)

/-- The tree behind actions. -/
def performAll (t : FileTree) (actions : List FileAction) : FileTree :=
  actions.foldl (fun t a => (a.perform t).2) t

/-- Actions with the answers to them. -/
def history (t : FileTree) : List FileAction → List (FileAction × FileAnswer)
  | [] => []
  | a :: rest => (a, (a.perform t).1) :: history (a.perform t).2 rest

/-- The content that an action leaves at a place, by the answer to it, if it does something there: a
commit that has written leaves its text, and a removal of a file leaves none. -/
def effect? (l : Location) : FileAction × FileAnswer → Option (Option ByteArray)
  | (.commit _ path text, .committed .written) =>
    if destination path = l then some (some text.toUTF8) else none
  | (.remove false path, .removed (.ok true)) => if destination path = l then some none else none
  | _ => none

/-- The content of the file at a place behind actions, by the answers to them: that of the last one
that did something there, or the one before all of them. -/
def lastContent (l : Location) (before : Option ByteArray)
    (answered : List (FileAction × FileAnswer)) : Option ByteArray :=
  (answered.filterMap (effect? l)).getLast?.getD before

theorem lastContent_cons (l : Location) (before : Option ByteArray)
    (x : FileAction × FileAnswer) (rest : List (FileAction × FileAnswer)) :
    lastContent l before (x :: rest) = lastContent l ((effect? l x).getD before) rest := by
  unfold lastContent
  cases hx : effect? l x with
  | none => rw [List.filterMap_cons_none hx, Option.getD_none]
  | some content =>
    rw [List.filterMap_cons_some hx, List.getLast?_cons, Option.getD_some, Option.getD_some]

variable {t : FileTree}

/-- A plain tree stays plain. -/
theorem perform_isPlain (h : t.IsPlain) {a : FileAction} (ha : NamesFile a.path) :
    (a.perform t).2.IsPlain := by
  cases a with
  | commit dryRun path text => exact (commit_isPlain h dryRun path text).1
  | remove dryRun path =>
    have ha : NamesFile path := ha
    obtain ⟨found, t', hrun, h', -⟩ := remove_removed h ha dryRun
    simpa only [perform, hrun] using h'

/-- What an action leaves at a place. -/
theorem contentAt_perform (h : t.IsPlain) {a : FileAction} (ha : NamesFile a.path) (l : Location) :
    (a.perform t).2.contentAt l = (effect? l (a, (a.perform t).1)).getD (t.contentAt l) := by
  cases a with
  | commit dryRun path text =>
    have ha : NamesFile path := ha
    simp only [perform]
    by_cases hw : (Project.commit dryRun t path text).1 = .written
    · rw [contentAt_of_written h ha hw, hw, effect?]
      split <;> rfl
    · rw [(commit_committed h ha dryRun text).kept hw]
      cases ho : (Project.commit dryRun t path text).1 with
      | written => exact absurd ho hw
      | unchanged | outdated | failed => rfl
  | remove dryRun path =>
    have ha : NamesFile path := ha
    obtain ⟨found, t', hrun, -, hr⟩ := remove_removed h ha dryRun
    simp only [perform, hrun]
    by_cases hgone : dryRun = false ∧ found = true
    · obtain ⟨rfl, rfl⟩ := hgone
      simp only [FileTree.contentAt, hr.gone rfl rfl, effect?]
      by_cases hl : l = destination path
      · simp [hl]
      · simp [hl, Ne.symm hl]
    · have hkept : dryRun = true ∨ found = false := by
        cases dryRun <;> cases found <;> simp at hgone ⊢
      rw [hr.kept hkept]
      rcases hkept with rfl | rfl
      · rfl
      · cases dryRun <;> rfl

/-- What actions leave at each place of a plain tree. -/
theorem contentAt_performAll (h : t.IsPlain) {actions : List FileAction}
    (hall : ∀ a ∈ actions, NamesFile a.path) :
    (performAll t actions).IsPlain ∧ ∀ l, (performAll t actions).contentAt l =
      lastContent l (t.contentAt l) (history t actions) := by
  induction actions generalizing t with
  | nil => exact ⟨h, fun _ => rfl⟩
  | cons a rest ih =>
    obtain ⟨ha, hrest⟩ := List.forall_mem_cons.1 hall
    obtain ⟨hplain, hcontents⟩ := ih (perform_isPlain h ha) hrest
    refine ⟨hplain, fun l => ?_⟩
    rw [history, lastContent_cons, ← contentAt_perform h ha]
    exact hcontents l

end FileAction

open FileAction (lastContent history performAll)

/-- Behind any commits and removals, each of these puts its text in place or deletes its file, and
changes nothing else, or does nothing at all. A path has the content that the last one left there
which did something to it, or else the one that it had before all of them. -/
theorem performAll_contents {t : FileTree} (h : t.IsPlain) {actions : List FileAction}
    (hall : ∀ a ∈ actions, NamesFile a.path) :
    (performAll t actions).IsPlain ∧
    ∀ path, NamesFile path →
      (∀ dryRun text, Committed dryRun (performAll t actions) path text
        (commit dryRun (performAll t actions) path text).1
        (commit dryRun (performAll t actions) path text).2) ∧
      (∀ dryRun, ∃ found t', remove dryRun (performAll t actions) path = .ok (found, t') ∧
        Removed dryRun (performAll t actions) path found t') ∧
      ((performAll t actions).read path).toOption =
        lastContent (destination path) (t.read path).toOption (history t actions) := by
  obtain ⟨hplain, hcontents⟩ := FileAction.contentAt_performAll h hall
  refine ⟨hplain, fun path hp => ⟨fun dryRun text => commit_committed hplain hp dryRun text,
    fun dryRun => ?_, ?_⟩⟩
  · obtain ⟨found, t', hrun, -, hr⟩ := remove_removed hplain hp dryRun
    exact ⟨found, t', hrun, hr⟩
  · rw [FileTree.read_toOption hplain hp, FileTree.read_toOption h hp, hcontents]

/-- A commit below a file, a dry one and a real one into a directory that is missing, and the
removal of the file. -/
def blockedActions : List FileAction :=
  [.commit false "out/x/a.h" "a", .commit true "out/new/b.h" "b",
    .commit false "out/new/b.h" "b", .remove false "out/x"]

theorem blockedActions_namesFile : ∀ a ∈ blockedActions, NamesFile a.path := by
  have named (names : List String) (hnames : ∀ s ∈ names, Path.IsName s) (hne : names ≠ [])
      {path : String} (hpath : path = "/".intercalate names) : NamesFile path :=
    hpath ▸ Path.namesFile_names hnames hne
  have hnew : NamesFile "out/new/b.h" := named ["out", "new", "b.h"] (by decide) (by decide) rfl
  have ha : NamesFile "out/x/a.h" := named ["out", "x", "a.h"] (by decide) (by decide) rfl
  have hx : NamesFile "out/x" := named ["out", "x"] (by decide) (by decide) rfl
  simp only [blockedActions, List.forall_mem_cons]
  exact ⟨ha, hnew, hnew, hx, fun _ h => nomatch h⟩

/-- The commit below the file fails, and the dry one does nothing. The file is gone in the end, and
the other one holds its text. -/
theorem performAll_contents_blocked :
    history blockedTree blockedActions = blockedActions.zip
      [.committed (.failed "Not a directory (os error 20)"), .committed .outdated,
        .committed .written, .removed (.ok true)] ∧
    ((performAll blockedTree blockedActions).read "out/new/b.h").toOption = some "b".toUTF8 ∧
    ((performAll blockedTree blockedActions).read "out/x").toOption = none := by
  have hanswers : history blockedTree blockedActions = blockedActions.zip
      [.committed (.failed "Not a directory (os error 20)"), .committed .outdated,
        .committed .written, .removed (.ok true)] := by
    have hx : Path.segments "out/x/a.h" = ["out", "x", "a.h"] := by decide
    have hb : Path.segments "out/new/b.h" = ["out", "new", "b.h"] := by decide
    have hr : Path.segments "out/x" = ["out", "x"] := by decide
    have hbd : directoryOf "out/new/b.h" = "out/new" := by decide
    have hd : Path.segments "out/new" = ["out", "new"] := by decide
    simp [blockedActions, history, FileAction.perform, commit, writeOver, Project.remove,
      blockedTree, hx, hb, hr, hbd, hd, FileTree.read, FileTree.get?, FileTree.locate,
      FileTree.walk, FileTree.linkLimit, FileTree.find?, FileTree.createDirectories,
      FileTree.makeDirectories, FileTree.replace, FileTree.isFile, FileTree.unlink,
      FileTree.insert, FileTree.remove, List.lookup_cons, FileError.message, pure, Except.pure,
      Except.map]
  have hall := blockedActions_namesFile
  have hnamed : NamesFile "out/new/b.h" ∧ NamesFile "out/x" :=
    ⟨hall (.commit false "out/new/b.h" "b") (by simp [blockedActions]),
      hall (.remove false "out/x") (by simp [blockedActions])⟩
  obtain ⟨-, hpaths⟩ := performAll_contents blockedTree_isPlain hall
  obtain ⟨-, -, hnew⟩ := hpaths "out/new/b.h" hnamed.1
  obtain ⟨-, -, hx⟩ := hpaths "out/x" hnamed.2
  have hdx : destination "out/x" = ["out", "x"] := by decide
  have hdb : destination "out/new/b.h" = ["out", "new", "b.h"] := by decide
  refine ⟨hanswers, ?_, ?_⟩
  · rw [hnew, hanswers]
    simp [lastContent, blockedActions, FileAction.effect?, hdb, hdx]
  · rw [hx, hanswers]
    simp [lastContent, blockedActions, FileAction.effect?, hdx]

end Project

end HeaderReflection
