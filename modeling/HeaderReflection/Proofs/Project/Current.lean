import HeaderReflection.Project.Run

/-!
# Projects that are up to date

A run finds nothing to do if every planned file holds its text and no stale file is left. That does
not depend on whether the run is a dry one, although a run that writes takes each step on the tree
that the steps before it have left.

* `commit_unchanged_iff`: a file is reported as unchanged just if it holds its text.
* `commitAll_unchanged_iff`: so are all of some planned files.
* `prune_quiet_iff`: nothing is deleted, and no deletion fails, just if no stale file is there.
* `generate_upToDate_iff`: when the report of a run tells of nothing to do.
* `run_dry_tree`: a dry run leaves the tree alone, whatever it reports.
-/

namespace HeaderReflection.Project

/-! ## Planned files -/

/-- A path leads to a file that holds the text. -/
def Holds (t : FileTree) (path text : String) : Prop :=
  ∃ held, t.read path = .ok held ∧ held.data = text.toUTF8.data

section Commits

variable {t : FileTree} {path text : String}

theorem commit_of_holds (h : Holds t path text) (dryRun : Bool) :
    commit dryRun t path text = (.unchanged, t) := by
  obtain ⟨held, hr, hd⟩ := h
  simp [commit, hr, hd]

theorem writeOver_outcome (t : FileTree) (path : String) (bytes : ByteArray) :
    (writeOver t path bytes).1 ≠ .unchanged := by
  unfold writeOver
  split
  · simp
  · split <;> simp

/-- A path that does not lead to the text is written, unless it cannot be read. -/
theorem commit_of_not_holds (h : ¬ Holds t path text) (dryRun : Bool) :
    commit dryRun t path text
        = (if dryRun then (.outdated, t) else writeOver t path text.toUTF8) ∨
      ∃ reason, commit dryRun t path text = (.failed reason, t) := by
  cases hr : t.read path with
  | ok held =>
    have hne : ¬ held.data = text.toUTF8.data := fun hd => h ⟨held, hr, hd⟩
    exact .inl (by simp only [commit, hr, beq_iff_eq, if_neg hne])
  | error e =>
    cases e with
    | notFound => exact .inl (by simp only [commit, hr])
    | _ =>
      right
      simp only [commit, hr]
      exact ⟨_, rfl⟩

theorem holds_of_commit {dryRun : Bool} (h : (commit dryRun t path text).1 = .unchanged) :
    Holds t path text := by
  by_cases hh : Holds t path text
  · exact hh
  · rcases commit_of_not_holds hh dryRun with hc | ⟨reason, hc⟩
    · rw [hc] at h
      cases dryRun with
      | true => cases h
      | false => exact absurd h (writeOver_outcome t path _)
    · rw [hc] at h
      cases h

theorem commit_unchanged_iff (dryRun : Bool) :
    (commit dryRun t path text).1 = .unchanged ↔ Holds t path text :=
  ⟨holds_of_commit, fun h => by rw [commit_of_holds h]⟩

end Commits

/-- The report of a planned file that holds its text. -/
def PlannedFile.settled (p : PlannedFile) : ArtifactReport :=
  { fileId := p.fileId, part := p.part, path := p.path, containers := p.containers
    outcome := .unchanged }

theorem commitAll_paths (dryRun : Bool) (t : FileTree) (ps : List PlannedFile) :
    (commitAll dryRun t ps).1.map (·.path) = ps.map (·.path) := by
  induction ps generalizing t with
  | nil => rfl
  | cons p rest ih => simp [commitAll, commitPlanned, ih]

/-- Planned files that hold their texts are left as they are. -/
theorem commitAll_of_holds {t : FileTree} {ps : List PlannedFile}
    (h : ∀ p ∈ ps, Holds t p.path p.text) (dryRun : Bool) :
    commitAll dryRun t ps = (ps.map PlannedFile.settled, t) := by
  induction ps with
  | nil => rfl
  | cons p rest ih =>
    have first := commit_of_holds (h p List.mem_cons_self) dryRun
    have others := ih fun q hq => h q (List.mem_cons_of_mem _ hq)
    simp [commitAll, commitPlanned, first, others, PlannedFile.settled]

theorem commitAll_unchanged_iff (dryRun : Bool) (t : FileTree) (ps : List PlannedFile) :
    (∀ a ∈ (commitAll dryRun t ps).1, a.outcome = .unchanged) ↔ ∀ p ∈ ps, Holds t p.path p.text := by
  constructor
  · intro h
    induction ps with
    | nil => simp
    | cons p rest ih =>
      have first : Holds t p.path p.text := (commit_unchanged_iff dryRun).1 (h _ List.mem_cons_self)
      -- The first file is unchanged, so the others are written on the same tree.
      have others := ih (by simpa [commitAll, commitPlanned, commit_of_holds first] using h)
      exact List.forall_mem_cons.2 ⟨first, others⟩
  · intro h a ha
    rw [commitAll_of_holds h] at ha
    obtain ⟨p, -, rfl⟩ := List.mem_map.1 ha
    rfl

/-- A dry run does not write. -/
theorem commitAll_dry_outcome {t : FileTree} {ps : List PlannedFile} {a : ArtifactReport}
    (h : a ∈ (commitAll true t ps).1) :
    a.outcome = .unchanged ∨ a.outcome = .outdated ∨ a.outcome.isFailure = true := by
  induction ps generalizing t with
  | nil => simp [commitAll] at h
  | cons p rest ih =>
    rcases List.mem_cons.1 h with rfl | h
    · simp only [commitPlanned, commit]
      split
      · split <;> simp
      · simp
      · simp [WriteOutcome.isFailure]
    · exact ih h

/-! ## Pruning -/

/-- The paths that pruning looks at. -/
def candidates (o : OutputConfig) (expected : List String) (t : FileTree) : List String :=
  match t.get? o.root with
  | .ok (top, .directory) =>
    (staleBelow t top o.suffix o.root expected).map (FileTree.pathBelow o.root)
  | _ => []

theorem prune_eq (o : OutputConfig) (dryRun : Bool) (expected : List String) (t : FileTree) :
    prune o dryRun expected t
      = (candidates o expected t).foldl (Pruned.step dryRun) { tree := t } := by
  unfold prune candidates
  rcases t.get? o.root with e | ⟨top, _ | _ | _⟩ <;> rfl

namespace Pruned

/-- Nothing is deleted, and no deletion fails. -/
def Quiet (p : Pruned) : Prop := p.removed = [] ∧ p.faults = []

theorem step_of_not_isFile {p : Pruned} {path : String} (h : p.tree.isFile path = false)
    (dryRun : Bool) : p.step dryRun path = p := by
  simp [step, remove, h]

theorem not_quiet_step {p : Pruned} {path : String} (h : p.tree.isFile path = true)
    (dryRun : Bool) : ¬ (p.step dryRun path).Quiet := by
  cases dryRun with
  | true => simp [step, remove, h, Quiet]
  | false =>
    simp only [step, remove, h, Bool.not_true, Bool.false_eq_true, if_false]
    cases p.tree.unlink path <;> simp [Except.map, Quiet]

theorem quiet_of_step {dryRun : Bool} {p : Pruned} {path : String}
    (h : (p.step dryRun path).Quiet) : p.Quiet := by
  unfold step at h
  split at h
  · simp [Quiet] at h
  · exact h
  · simp [Quiet] at h

theorem quiet_of_foldl {dryRun : Bool} {p : Pruned} {paths : List String}
    (h : (paths.foldl (step dryRun) p).Quiet) : p.Quiet := by
  induction paths generalizing p with
  | nil => exact h
  | cons path rest ih => exact quiet_of_step (ih h)

theorem foldl_of_not_isFile {p : Pruned} {paths : List String}
    (h : ∀ path ∈ paths, p.tree.isFile path = false) (dryRun : Bool) :
    paths.foldl (step dryRun) p = p := by
  induction paths with
  | nil => rfl
  | cons path rest ih =>
    rw [List.foldl_cons, step_of_not_isFile (h path List.mem_cons_self)]
    exact ih fun q hq => h q (List.mem_cons_of_mem _ hq)

theorem foldl_quiet_iff (dryRun : Bool) {p : Pruned} (hp : p.Quiet) (paths : List String) :
    (paths.foldl (step dryRun) p).Quiet ↔ ∀ path ∈ paths, p.tree.isFile path = false := by
  constructor
  · intro h
    induction paths with
    | nil => simp
    | cons path rest ih =>
      have first : p.tree.isFile path = false := by
        cases hf : p.tree.isFile path with
        | false => rfl
        | true =>
          exact absurd (quiet_of_foldl (p := p.step dryRun path) h) (not_quiet_step hf dryRun)
      rw [List.foldl_cons, step_of_not_isFile first] at h
      exact List.forall_mem_cons.2 ⟨first, ih h⟩
  · intro h
    rwa [foldl_of_not_isFile h]

theorem step_dry_tree (p : Pruned) (path : String) : (p.step true path).tree = p.tree := by
  unfold step
  split
  · rename_i h
    exact remove_dry_tree h
  · rename_i h
    exact remove_dry_tree h
  · rfl

end Pruned

/-- No stale file is there. -/
def Clean (o : OutputConfig) (expected : List String) (t : FileTree) : Prop :=
  ∀ path ∈ candidates o expected t, t.isFile path = false

theorem prune_quiet_iff (o : OutputConfig) (dryRun : Bool) (expected : List String)
    (t : FileTree) : (prune o dryRun expected t).Quiet ↔ Clean o expected t := by
  rw [prune_eq]
  exact Pruned.foldl_quiet_iff dryRun ⟨rfl, rfl⟩ _

theorem prune_of_clean {o : OutputConfig} {expected : List String} {t : FileTree}
    (h : Clean o expected t) (dryRun : Bool) : prune o dryRun expected t = { tree := t } := by
  rw [prune_eq]
  exact Pruned.foldl_of_not_isFile (p := { tree := t }) h dryRun

theorem prune_dry_tree (o : OutputConfig) (expected : List String) (t : FileTree) :
    (prune o true expected t).tree = t := by
  rw [prune_eq]
  generalize hp : ({ tree := t } : Pruned) = p
  have ht : p.tree = t := by rw [← hp]
  clear hp
  induction candidates o expected t generalizing p with
  | nil => exact ht
  | cons path rest ih => exact ih _ ((p.step_dry_tree path).trans ht)

/-! ## Reports -/

/-- The run succeeds, every artifact is unchanged, and nothing is deleted. -/
structure Report.UpToDate (r : Report) : Prop where
  success : r.isSuccess = true
  artifacts : ∀ a ∈ r.artifacts, a.outcome = .unchanged
  pruned : r.pruned = []

/-- Every planned file holds its text, and no stale file is there, if they are looked for. -/
structure Settled (c : Config) (backends : List Backend) (a : Analysis) (rs : List Resolved)
    (t : FileTree) : Prop where
  holds : ∀ p ∈ planned c backends a rs, Holds t p.path p.text
  clean : c.output.pruneStale = true →
    Clean c.output ((planned c backends a rs).map (·.path)) t

section Generate

variable {c : Config} {backends : List Backend} {a : Analysis} {rs : List Resolved} {t : FileTree}

/-- What pruning does in a run. -/
def prunedBy (c : Config) (dryRun : Bool) (expected : List String) (t : FileTree) : Pruned :=
  if c.output.pruneStale then prune c.output dryRun expected t else { tree := t }

theorem prunedBy_quiet_iff (dryRun : Bool) (expected : List String) :
    (prunedBy c dryRun expected t).Quiet
      ↔ (c.output.pruneStale = true → Clean c.output expected t) := by
  unfold prunedBy
  split
  · rename_i h
    simp [h, prune_quiet_iff]
  · rename_i h
    simp [h, Pruned.Quiet]

theorem prunedBy_of_clean {expected : List String}
    (h : c.output.pruneStale = true → Clean c.output expected t) (dryRun : Bool) :
    prunedBy c dryRun expected t = { tree := t } := by
  unfold prunedBy
  split
  · rename_i hp
    exact prune_of_clean (h hp) dryRun
  · rfl

theorem prunedBy_dry_tree (expected : List String) : (prunedBy c true expected t).tree = t := by
  unfold prunedBy
  split
  · exact prune_dry_tree ..
  · rfl

theorem generate_eq (dryRun : Bool) :
    generate c backends dryRun a rs t =
      let committed := commitAll dryRun t (planned c backends a rs)
      let pruned := prunedBy c dryRun (committed.1.map (·.path)) committed.2
      ({ a.report with
          artifacts := committed.1
          pruned := pruned.removed
          faults := a.faults ++ committed.1.filterMap ArtifactReport.fault? ++ pruned.faults },
        pruned.tree) := rfl

/-- Where there is nothing to do, a run does nothing. -/
theorem Settled.generate_eq (h : Settled c backends a rs t) (dryRun : Bool) :
    generate c backends dryRun a rs t =
      ({ a.report with
          artifacts := (planned c backends a rs).map PlannedFile.settled }, t) := by
  have hp : ((planned c backends a rs).map PlannedFile.settled).map (·.path)
      = (planned c backends a rs).map (·.path) := by
    rw [List.map_map]
    rfl
  have hf : ((planned c backends a rs).map PlannedFile.settled).filterMap ArtifactReport.fault?
      = [] := by
    rw [List.filterMap_map]
    exact List.filterMap_eq_nil_iff.2 fun _ _ => rfl
  rw [Project.generate_eq, commitAll_of_holds h.holds]
  simp only [hp, hf, prunedBy_of_clean h.clean]
  simp [Analysis.report]

/-- The report of a run tells of nothing to do just if there is nothing to do and the input files
have no faults. -/
theorem generate_upToDate_iff (dryRun : Bool) :
    (generate c backends dryRun a rs t).1.UpToDate
      ↔ a.faults = [] ∧ Settled c backends a rs t := by
  constructor
  · intro h
    have holds := (commitAll_unchanged_iff dryRun t _).1 h.artifacts
    have paths := commitAll_paths dryRun t (planned c backends a rs)
    have tree : (commitAll dryRun t (planned c backends a rs)).2 = t := by
      rw [commitAll_of_holds holds]
    have hs := h.success
    have hp := h.pruned
    simp only [generate_eq, paths, tree] at hs hp
    simp only [Report.isSuccess, Bool.and_eq_true, List.isEmpty_iff, List.append_eq_nil_iff] at hs
    obtain ⟨⟨-, ⟨hfaults, -⟩, hpf⟩, -⟩ := hs
    exact ⟨hfaults, holds, (prunedBy_quiet_iff dryRun _).1 ⟨hp, hpf⟩⟩
  · rintro ⟨hf, h⟩
    rw [h.generate_eq]
    refine ⟨?_, ?_, rfl⟩
    · simp [Report.isSuccess, Analysis.report, hf, PlannedFile.settled,
        WriteOutcome.isFailure]
    · intro r hr
      obtain ⟨p, -, rfl⟩ := List.mem_map.1 hr
      rfl

/-- A dry run succeeds and finds nothing that is out of date just if it tells of nothing to do. -/
theorem generate_dry_upToDate :
    (generate c backends true a rs t).1.UpToDate
      ↔ (generate c backends true a rs t).1.isSuccess = true
        ∧ (generate c backends true a rs t).1.hasOutdated = false := by
  generalize hr : (generate c backends true a rs t).1 = r
  have hdry : ∀ x ∈ r.artifacts,
      x.outcome = .unchanged ∨ x.outcome = .outdated ∨ x.outcome.isFailure = true := by
    rw [← hr]
    exact fun x hx => commitAll_dry_outcome hx
  constructor
  · intro h
    refine ⟨h.success, ?_⟩
    have hc : r.count .outdated = 0 := by
      rw [Report.count, List.length_eq_zero_iff, List.filter_eq_nil_iff]
      intro x hx
      simp [h.artifacts x hx]
    simp [Report.hasOutdated, hc, h.pruned]
  · rintro ⟨hs, ho⟩
    simp only [Report.hasOutdated, Bool.or_eq_false_iff, decide_eq_false_iff_not, Nat.not_lt,
      Nat.le_zero_eq, Bool.not_eq_false', List.isEmpty_iff] at ho
    obtain ⟨hc, hp⟩ := ho
    refine ⟨hs, fun x hx => ?_, hp⟩
    rcases hdry x hx with h | h | h
    · exact h
    · rw [Report.count, List.length_eq_zero_iff, List.filter_eq_nil_iff] at hc
      exact absurd (by simpa using h) (hc x hx)
    · simp only [Report.isSuccess, Bool.and_eq_true, Bool.not_eq_true', List.any_eq_false] at hs
      exact absurd h (hs.2 x hx)

end Generate

/-! ## Runs -/

/-- The run of a configuration comes to its artifacts without a fault, and there is nothing to
do. -/
def IsCurrent (c : Config) (t : FileTree) : Prop :=
  ∃ a backends rs, start c t = .ok a ∧ c.backends = .ok backends ∧ a.resolved c = .ok rs ∧
    a.faults = [] ∧ Settled c backends a rs t

theorem run_of_resolved {c : Config} {t : FileTree} {a : Analysis} {backends : List Backend}
    {rs : List Resolved} (hs : start c t = .ok a) (hb : c.backends = .ok backends)
    (hr : a.resolved c = .ok rs) (dryRun : Bool) :
    run c dryRun t =
      (.ok (generate c backends dryRun a rs t).1, (generate c backends dryRun a rs t).2) := by
  simp [run, hs, hb, bind, Except.bind, pure, Except.pure, hr]

/-- How a run ends, by how far it comes. -/
theorem run_cases (c : Config) (t : FileTree) :
    (∃ f, ∀ dryRun, run c dryRun t = (.error f, t)) ∨
    (∃ a f, start c t = .ok a ∧ a.resolved c = .error f ∧
      ∀ dryRun, run c dryRun t = (.ok (a.report.stoppedBy f), t)) ∨
    ∃ a backends rs, start c t = .ok a ∧ c.backends = .ok backends ∧ a.resolved c = .ok rs ∧
      ∀ dryRun, run c dryRun t =
        (.ok (generate c backends dryRun a rs t).1, (generate c backends dryRun a rs t).2) := by
  unfold run
  cases hs : start c t with
  | error f => exact .inl ⟨f, fun _ => rfl⟩
  | ok a =>
    cases hb : c.backends with
    | error f => exact .inl ⟨f, fun _ => rfl⟩
    | ok backends =>
      cases hr : a.resolved c with
      | error f =>
        refine .inr (.inl ⟨a, f, rfl, hr, fun _ => ?_⟩)
        simp [bind, Except.bind, pure, Except.pure, hr]
      | ok rs =>
        refine .inr (.inr ⟨a, backends, rs, rfl, rfl, hr, fun dryRun => ?_⟩)
        rw [← run_of_resolved hs hb hr dryRun, run, hs, hb]

theorem isSuccess_stoppedBy (r : Report) (f : Fault) : (r.stoppedBy f).isSuccess = false := by
  simp [Report.stoppedBy, Report.isSuccess]

/-- A run tells of nothing to do just if there is nothing to do, be it a dry one or not. -/
theorem run_upToDate_iff (c : Config) (t : FileTree) (dryRun : Bool) :
    (∃ r, (run c dryRun t).1 = .ok r ∧ r.UpToDate) ↔ IsCurrent c t := by
  rcases run_cases c t with ⟨f, h⟩ | ⟨a, f, hs, hr, h⟩ | ⟨a, backends, rs, hs, hb, hr, h⟩
  · rw [h]
    constructor
    · rintro ⟨r, hr, -⟩
      cases hr
    · rintro ⟨a, backends, rs, hs, hb, hr, -⟩
      have h := congrArg Prod.fst (h true)
      simp [run, hs, hb, hr, bind, Except.bind, pure, Except.pure] at h
  · rw [h]
    constructor
    · rintro ⟨r, hr, hup⟩
      obtain rfl := Except.ok.inj hr
      simpa [isSuccess_stoppedBy] using hup.success
    · rintro ⟨a', backends, rs, hs', -, hr', -⟩
      obtain rfl := Except.ok.inj (hs.symm.trans hs')
      cases hr.symm.trans hr'
  · rw [h]
    constructor
    · rintro ⟨r, hr', hup⟩
      obtain rfl := Except.ok.inj hr'
      exact ⟨a, backends, rs, hs, hb, hr, (generate_upToDate_iff dryRun).1 hup⟩
    · rintro ⟨a', backends', rs', hs', hb', hr', hset⟩
      obtain rfl := Except.ok.inj (hs.symm.trans hs')
      obtain rfl := Except.ok.inj (hb.symm.trans hb')
      obtain rfl := Except.ok.inj (hr.symm.trans hr')
      exact ⟨_, rfl, (generate_upToDate_iff dryRun).2 hset⟩

/-- What a dry run reports, it reports of nothing to do just if it succeeds and finds nothing that
is out of date. -/
theorem run_dry_upToDate {c : Config} {t : FileTree} {r : Report} (h : (run c true t).1 = .ok r) :
    r.UpToDate ↔ r.isSuccess = true ∧ r.hasOutdated = false := by
  rcases run_cases c t with ⟨f, hrun⟩ | ⟨a, f, -, -, hrun⟩ | ⟨a, backends, rs, -, -, -, hrun⟩
  · rw [hrun] at h
    cases h
  · rw [hrun] at h
    obtain rfl := Except.ok.inj h
    have hf := isSuccess_stoppedBy a.report f
    exact ⟨fun hup => absurd hup.success (by simp [hf]), fun hs => absurd hs.1 (by simp [hf])⟩
  · rw [hrun] at h
    obtain rfl := Except.ok.inj h
    exact generate_dry_upToDate

/-- A dry run leaves the tree alone. -/
theorem run_dry_tree (c : Config) (t : FileTree) : (run c true t).2 = t := by
  rcases run_cases c t with ⟨f, h⟩ | ⟨a, f, -, -, h⟩ | ⟨a, backends, rs, -, -, -, h⟩
  · rw [h]
  · rw [h]
  · rw [h, generate_eq]
    simp only [prunedBy_dry_tree, commitAll_dry_tree]

end HeaderReflection.Project
