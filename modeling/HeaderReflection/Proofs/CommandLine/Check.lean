import HeaderReflection.CommandLine.Perform
import HeaderReflection.Proofs.Outcome
import HeaderReflection.Proofs.Project.Current

/-!
# Checking generated files

With `--check` the program tells by its exit status whether a run would change anything.

* `generate_check_exact`: it ends well just if the same run without `--check` succeeds, with every
  artifact unchanged and nothing deleted, and neither `--check` nor `--dry-run` changes a file.
-/

namespace HeaderReflection.CommandLine

open Project (Report)

/-- The report of a generating run, if it comes to one. -/
def generateReport (o : Options) (t : FileTree) : Except Fault Report := do
  let c ← loadConfig o t
  (Project.run (withOutputOptions o c) (o.dryRun || o.check) t).1

theorem generate_tree_of_dry {o : Options} (h : (o.dryRun || o.check) = true) (t : FileTree) :
    (generate o t).2 = t := by
  unfold generate
  rcases loadConfig o t with f | c
  · rfl
  · dsimp only
    rw [h]
    have tree := Project.run_dry_tree (withOutputOptions o c) t
    split
    · rename_i hrun
      rw [hrun] at tree
      exact tree
    · rename_i hrun
      rw [hrun] at tree
      exact tree

theorem answerGenerate_status (check : Bool) (opening : String) (r : Report) :
    (answerGenerate check opening r).status = 0
      ↔ r.isSuccess = true ∧ (check && r.hasOutdated) = false := by
  unfold answerGenerate
  split
  · rename_i hf
    have hs : r.isSuccess = false := by simp [Report.isSuccess, Option.isNone_eq_false_iff.2 hf]
    simp [Answer.failing, hs]
  · dsimp only
    split
    · rename_i hs
      simp [Answer.failing, (by simpa using hs : r.isSuccess = false)]
    · rename_i hs
      split
      · rename_i ho
        simp [Answer.failing, ho]
      · rename_i ho
        simp_all

/-- A generating run ends well if it comes to a report that tells of success and, where that is
checked, of nothing that is out of date. -/
theorem generate_status (o : Options) (t : FileTree) :
    (generate o t).1.status = 0
      ↔ ∃ r, generateReport o t = .ok r ∧ r.isSuccess = true ∧
          (o.check && r.hasOutdated) = false := by
  unfold generate generateReport
  rcases loadConfig o t with f | c
  · simp [Answer.failing, bind, Except.bind]
  · simp only [bind, Except.bind]
    rcases Project.run (withOutputOptions o c) (o.dryRun || o.check) t with ⟨f | r, t'⟩
    · simp [Answer.failing]
    · simp [answerGenerate_status]

/-- What the options leave open when the reading of the configuration is the same. -/
theorem generateReport_upToDate_iff {o o' : Options} {t : FileTree}
    (hc : loadConfig o t = loadConfig o' t) (hw : withOutputOptions o = withOutputOptions o') :
    (∃ r, generateReport o t = .ok r ∧ r.UpToDate)
      ↔ ∃ r, generateReport o' t = .ok r ∧ r.UpToDate := by
  unfold generateReport
  rw [hc, hw]
  rcases loadConfig o' t with f | c
  · rfl
  · exact (Project.run_upToDate_iff _ t _).trans (Project.run_upToDate_iff _ t _).symm

/-- A check ends well just if the same run without it would end well, leave every artifact as it
is and delete nothing. Neither a check nor a dry run changes a file. -/
theorem generate_check_exact (o : Options) (dryRun : Bool) (t : FileTree) :
    ((perform .generate { o with check := true } t).1.status = 0
      ↔ (perform .generate { o with check := false, dryRun } t).1.status = 0 ∧
        ∃ r, generateReport { o with check := false, dryRun } t = .ok r ∧
          (∀ a ∈ r.artifacts, a.outcome = .unchanged) ∧ r.pruned = []) ∧
    (perform .generate { o with check := true } t).2 = t ∧
    (perform .generate { o with dryRun := true } t).2 = t := by
  refine ⟨?_, generate_tree_of_dry (by simp) t, generate_tree_of_dry rfl t⟩
  have same : (∃ r, generateReport { o with check := true } t = .ok r ∧ r.UpToDate)
      ↔ ∃ r, generateReport { o with check := false, dryRun } t = .ok r ∧ r.UpToDate :=
    generateReport_upToDate_iff rfl rfl
  have checked : (perform .generate { o with check := true } t).1.status = 0
      ↔ ∃ r, generateReport { o with check := true } t = .ok r ∧ r.UpToDate := by
    rw [perform, generate_status]
    refine exists_congr fun r => and_congr_right fun hr => ?_
    obtain ⟨c, -, hrun⟩ := bind_eq_ok_iff.1 hr
    rw [Bool.or_true] at hrun
    rw [Project.run_dry_upToDate hrun, Bool.true_and]
  have plain : ((perform .generate { o with check := false, dryRun } t).1.status = 0 ∧
        ∃ r, generateReport { o with check := false, dryRun } t = .ok r ∧
          (∀ a ∈ r.artifacts, a.outcome = .unchanged) ∧ r.pruned = [])
      ↔ ∃ r, generateReport { o with check := false, dryRun } t = .ok r ∧ r.UpToDate := by
    rw [perform, generate_status]
    constructor
    · rintro ⟨⟨r, hr, hs, -⟩, r', hr', ha, hp⟩
      obtain rfl := Except.ok.inj (hr.symm.trans hr')
      exact ⟨r, hr, hs, ha, hp⟩
    · rintro ⟨r, hr, hs, ha, hp⟩
      exact ⟨⟨r, hr, hs, rfl⟩, r, hr, ha, hp⟩
  rw [checked, plain, same]

end HeaderReflection.CommandLine
