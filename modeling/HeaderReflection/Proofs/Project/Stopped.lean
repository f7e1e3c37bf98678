import HeaderReflection.Proofs.Outcome
import HeaderReflection.Proofs.Project.Current

/-!
# Runs that are stopped

A run, a validation and a dump find and read the same input files and resolve the same bases. What
stops one of them stops all three, and a run that is stopped has changed nothing.

* `commands_of_fatal`: how the commands end if bases cannot be resolved.
* `commands_of_resolved`: how they end if bases can be resolved.
* `commands_agree`: the three reports of every project, compared.
-/

namespace HeaderReflection

/-- A configuration that passes its check names backends. -/
theorem Config.backends_of_check {c : Config} (h : c.check = .ok ()) :
    ∃ backends, c.backends = .ok backends := by
  cases hb : c.backends with
  | ok backends => exact ⟨backends, rfl⟩
  | error f =>
    -- The check comes to the backends unless something before them is wrong already.
    simp only [Config.check, hb] at h
    split at h
    · cases h
    · split at h
      · cases h
      · obtain ⟨patterns, -, h⟩ := bind_eq_ok_iff.1 h
        cases h

/-- A configuration that passes its check names macros by an identifier. -/
theorem Config.isAsciiIdentifier_of_check {c : Config} (h : c.check = .ok ()) :
    Text.isAsciiIdentifier c.codegen.options.macroPrefix = true := by
  cases hprefix : Text.isAsciiIdentifier c.codegen.options.macroPrefix with
  | true => rfl
  | false =>
    simp only [Config.check, hprefix] at h
    split at h
    · cases h
    · split at h
      · cases h
      · obtain ⟨patterns, -, h⟩ := bind_eq_ok_iff.1 h
        obtain ⟨backends, -, h⟩ := bind_eq_ok_iff.1 h
        cases h

namespace Project

/-- A report tells of the same input files as another one, and of the same end. The faults of the
other one start with its own. -/
structure Report.Foretells (v r : Report) : Prop where
  filesScanned : r.filesScanned = v.filesScanned
  containers : r.containers = v.containers
  warnings : r.warnings = v.warnings
  fatal : r.fatal = v.fatal
  faults : v.faults <+: r.faults

section Commands

variable {c : Config} {t : FileTree} {a : Analysis} {f : Fault}

/-- What stops the analysis stops every command. -/
theorem commands_of_error (h : start c t = .error f) (dryRun : Bool) :
    run c dryRun t = (.error f, t) ∧ validate c t = .error f ∧ dump c t = .error f := by
  simp [run, validate, dump, h, bind, Except.bind]

theorem backends_of_start (h : start c t = .ok a) : ∃ backends, c.backends = .ok backends := by
  obtain ⟨⟨⟩, hc, -⟩ := bind_eq_ok_iff.1 h
  exact c.backends_of_check hc

/-- If bases cannot be resolved, every command reports the analysis and the fault. -/
theorem commands_of_fatal (hs : start c t = .ok a) (hr : a.resolved c = .error f)
    (dryRun : Bool) :
    run c dryRun t = (.ok (a.report.stoppedBy f), t) ∧
      validate c t = .ok (a.report.stoppedBy f) ∧
      dump c t = .ok (none, a.report.stoppedBy f) := by
  obtain ⟨backends, hb⟩ := backends_of_start hs
  simp [run, validate, dump, hs, hb, hr, bind, Except.bind, pure, Except.pure]

theorem report_foretells_generate (backends : List Backend) (dryRun : Bool) (a : Analysis)
    (rs : List Resolved) : a.report.Foretells (generate c backends dryRun a rs t).1 := by
  refine ⟨rfl, rfl, rfl, rfl, ?_⟩
  rw [generate_eq]
  exact (List.prefix_append ..).trans (List.prefix_append ..)

/-- If bases can be resolved, a run goes on from the report of the other commands. -/
theorem commands_of_resolved {rs : List Resolved} (hs : start c t = .ok a)
    (hr : a.resolved c = .ok rs) (dryRun : Bool) :
    (∃ r t', run c dryRun t = (.ok r, t') ∧ a.report.Foretells r) ∧
      validate c t = .ok a.report ∧
      dump c t = .ok (some (a.toJson rs).render, a.report) := by
  obtain ⟨backends, hb⟩ := backends_of_start hs
  refine ⟨⟨_, _, run_of_resolved hs hb hr dryRun, report_foretells_generate ..⟩, ?_, ?_⟩
  · simp [validate, hs, hr, bind, Except.bind, pure, Except.pure]
  · simp [dump, hs, hr, bind, Except.bind, pure, Except.pure]

end Commands

/-- A run, a validation and a dump of a project end with the same fault, or report the same input
files with the same fault that stops them, if there is one. A run that is stopped writes and deletes
nothing and knows no faults but those of the others; any other run starts with their faults. A dump
has a document just if nothing stops it. -/
theorem commands_agree (c : Config) (dryRun : Bool) (t : FileTree) :
    match start c t with
    | .error f => run c dryRun t = (.error f, t) ∧ validate c t = .error f ∧ dump c t = .error f
    | .ok a =>
      ∃ r t' v json, run c dryRun t = (.ok r, t') ∧ validate c t = .ok v ∧
        dump c t = .ok (json, v) ∧ v.Foretells r ∧ (json.isSome ↔ r.fatal = none) ∧
        match a.resolved c with
        | .error f =>
          r.fatal = some f ∧ t' = t ∧ r.artifacts = [] ∧ r.pruned = [] ∧ r.faults = v.faults
        | .ok rs => r.fatal = none ∧ json = some (a.toJson rs).render := by
  cases hs : start c t with
  | error f => exact commands_of_error hs dryRun
  | ok a =>
    dsimp only
    cases hr : a.resolved c with
    | error f =>
      obtain ⟨hrun, hvalidate, hdump⟩ := commands_of_fatal hs hr dryRun
      refine ⟨_, _, _, _, hrun, hvalidate, hdump, ⟨rfl, rfl, rfl, rfl, List.prefix_rfl⟩, ?_, ?_⟩
      · simp [Report.stoppedBy]
      · exact ⟨rfl, rfl, rfl, rfl, rfl⟩
    | ok rs =>
      obtain ⟨⟨r, t', hrun, hv⟩, hvalidate, hdump⟩ := commands_of_resolved hs hr dryRun
      have hfatal : r.fatal = none := hv.fatal
      exact ⟨r, t', _, _, hrun, hvalidate, hdump, hv, by simp [hfatal], hfatal, rfl⟩

end Project

end HeaderReflection
