import ApiScaffold.Proofs.Refinement

/-!
# Dry runs

A dry run leaves the tree as it is, also when it fails. Its jobs come to their outcomes among the
files of that tree, and so do the jobs of a generation that stores its files, as long as no stub
comes in sight while it does. Both then have the same files, complaints and steps to report.
-/
namespace ApiScaffold

namespace Run

variable {site : Site} {s : Settings} {base : Tree} {ws : List Write} {em : Emitter}
  {done : List Job} {arts : List Artifact} {run : Run}

theorem step_dry_tree (hdry : run.emitter.dryRun = true) (job : Job) :
    (run.step site s job).1.tree = run.tree ∧
      (run.step site s job).1.emitter.dryRun = true := by
  unfold step
  split
  · exact ⟨rfl, hdry⟩
  · exact ⟨rfl, hdry⟩
  · rename_i a _ _
    have hemit : run.emitter.emit run.tree a = (run.tree, .ok (run.emitter.noteFile a)) := by
      rw [Emitter.emit, if_pos hdry]
    rw [hemit]
    exact ⟨rfl, hdry⟩

/-- Jobs of a dry run leave the tree as it is. -/
theorem steps_dry_tree (hdry : run.emitter.dryRun = true) (jobs : List Job) :
    (steps site s run jobs).1.tree = run.tree := by
  induction jobs generalizing run with
  | nil => rfl
  | cons job rest ih =>
    obtain ⟨htree, hdry'⟩ : (run.step site s job).1.tree = run.tree ∧ _ :=
      step_dry_tree hdry job
    rw [steps]
    split
    · rename_i hs
      rwa [hs] at htree
    · rename_i hs
      rw [hs] at htree hdry'
      rw [ih hdry', htree]

/-- Among files that have not changed, stubs are found as at the start. -/
theorem Progress.follows_unchanged (h : Progress site s base ws em done arts run)
    (htree : run.tree = base) :
    run.stubs.Follows (Job.lookup site s base) (fun _ => True) (fun _ => False) run.tree
      site.cwd := by
  refine ⟨h.remembered, fun name _ => Or.inl ?_⟩
  rw [htree, Stub.Repository.read_congr_directories h.directories]
  rfl

/-- A job of a dry run comes to its outcome, and nothing but that can fail. -/
theorem Progress.dry_step (h : Progress site s base ws em done arts run) (htree : run.tree = base)
    (hdry : em.dryRun = true) (job : Job) :
    StepsTo site s (Job.lookup site s base) (fun _ => False)
      (fun done arts run => run.tree = base ∧ Progress site s base ws em done arts run)
      done arts run job := by
  have hrundry : run.emitter.dryRun = true := by rw [h.emitter]; exact hdry
  have hsame : (run.step site s job).1.tree = run.tree := (step_dry_tree hrundry job).1
  unfold StepsTo
  unfold Run.step at hsame ⊢
  rcases Job.render_eq (h.follows_unchanged htree) (fun n _ => trivial) with
    ⟨f, hr, ho⟩ | ⟨o, stubs, ho, hr, hd, hnext⟩
  · rw [hr]
    refine Or.inl ⟨_, f, rfl, ho.imp_right ?_⟩
    rintro ⟨_, hfalse, -⟩
    exact hfalse
  rw [hr] at hsame ⊢
  cases o with
  | lacking stub =>
    refine Or.inr ⟨_, _, ho, rfl, hsame.trans htree, ?_⟩
    rw [Job.Outcome.file?_lacking, Option.toList_none, List.append_nil]
    exact h.skip ho hd hnext.remembered _
  | made a =>
    rcases run.emitter.emit_written h.tree a with ⟨t', e, he⟩ | ⟨t', he, hwritten⟩
    · rw [Emitter.emit, if_pos hrundry] at he
      cases he
    · simp only [he] at hsame ⊢
      refine Or.inr ⟨_, _, ho, rfl, hsame.trans htree, ?_⟩
      rw [h.emitter] at hwritten
      exact h.make ho hd hnext.remembered hwritten _

/-- The jobs of a dry run come to their outcomes, up to the first that has none. -/
theorem Progress.dry_steps (h : Progress site s base ws em done arts run) (htree : run.tree = base)
    (hdry : em.dryRun = true) (jobs : List Job) :
    (∃ run' f, Run.steps site s run jobs = (run', .error f) ∧
        Job.outcomes (Job.lookup site s base) s site.now jobs = .error f) ∨
      ∃ outs run', Job.outcomes (Job.lookup site s base) s site.now jobs = .ok outs ∧
        Run.steps site s run jobs = (run', .ok ()) ∧
        Progress site s base ws em (done ++ jobs) (arts ++ outs.filterMap Job.Outcome.file?)
          run' := by
  have hstep : ∀ done arts run, ∀ job ∈ jobs,
      run.tree = base ∧ Progress site s base ws em done arts run →
      StepsTo site s (Job.lookup site s base) (fun _ => False)
        (fun done arts run => run.tree = base ∧ Progress site s base ws em done arts run)
        done arts run job :=
    fun _ _ _ job _ h => h.2.dry_step h.1 hdry job
  rcases steps_of_stepsTo hstep ⟨htree, h⟩ with
    ⟨run', f, hs, ho⟩ | ⟨outs, run', ho, hs, -, h'⟩
  · exact Or.inl ⟨run', f, hs, ho.resolve_right id⟩
  · exact Or.inr ⟨outs, run', ho, hs, h'⟩

end Run

namespace Generation

variable {site : Site} {tree : Tree} {schema : Schema} {s : Settings} {strict : Bool}

theorem doJobs_dry_tree (site : Site) (strict : Bool) (tree : Tree) (schema : Schema)
    (s : Settings) (directory : Path) (r : GenerationReport) :
    (doJobs site { strict, dryRun := true } tree schema s directory r).tree = tree := by
  have htree : (Run.steps site s
      { tree, stubs := Job.repository site s,
        emitter := Emitter.start directory s.atomicWrites true } (Job.all schema s)).1.tree =
      tree :=
    Run.steps_dry_tree rfl _
  unfold doJobs
  dsimp only
  split
  all_goals
    rename_i hs
    rwa [hs] at htree

/-- A dry run leaves the tree as it is, whatever it comes to. -/
theorem ofSchema_dry_tree (site : Site) (strict : Bool) (tree : Tree) (schema : Schema)
    (s : Settings) (output : Path) :
    (ofSchema site { strict, dryRun := true } tree schema s output).tree = tree := by
  unfold ofSchema proceed
  split
  · rfl
  · split
    · rfl
    · dsimp only
      split
      · rfl
      · exact doJobs_dry_tree ..

/-- The jobs of a dry run have the report of a generation that comes to its end. -/
theorem doJobs_dry_value {directory : Path} {r real : GenerationReport} (hrooted : tree.Rooted)
    (hquiet : Undisturbed site s tree schema directory)
    (hreal : (doJobs site { strict, dryRun := false } tree schema s directory r).value =
      .ok real) :
    (doJobs site { strict, dryRun := true } tree schema s directory
      { r with dryRun := true }).value = .ok { real with dryRun := true } := by
  rcases doJobs_eq r hrooted hquiet (by simp) (written_nil tree)
      (fun e he => by rw [hreal] at he; cases he) with
    ⟨f, -, hf⟩ | ⟨outs, run, ho, h, -, hvalue⟩
  · rw [hreal] at hf
    cases hf
  have hstart : Run.Progress site s tree [] (emitter s { strict, dryRun := true } directory) [] []
      { tree, stubs := Job.repository site s,
        emitter := emitter s { strict, dryRun := true } directory } :=
    Run.Progress.start (written_nil tree)
  rcases hstart.dry_steps rfl rfl (Job.all schema s) with
    ⟨run', f, -, ho'⟩ | ⟨outs', run', ho', hs', h'⟩
  · rw [ho] at ho'
    cases ho'
  rw [ho] at ho'
  cases ho'
  rw [hreal, finish_fst] at hvalue
  cases hvalue
  simp only [emitter] at hs'
  simp only [doJobs, hs', finish_fst, jobsReport, h.emitter, h'.emitter, h.skipped, h'.skipped,
    h.errors, h'.errors]
  rfl

/-- A dry run leaves the tree as it is and has the report of the generation that it stands for,
but for being dry. -/
theorem ofSchema_dry_run {output : Path} {r : GenerationReport} (hrooted : tree.Rooted)
    (hquiet : Undisturbed site s tree schema (Path.resolve site.cwd output))
    (hreal : (ofSchema site { strict, dryRun := false } tree schema s output).value = .ok r) :
    (ofSchema site { strict, dryRun := true } tree schema s output).tree = tree ∧
      (ofSchema site { strict, dryRun := true } tree schema s output).value =
        .ok { r with dryRun := true } := by
  refine ⟨ofSchema_dry_tree .., ?_⟩
  unfold ofSchema proceed at hreal ⊢
  cases hp : Path.real site.cwd output with
  | error e =>
    rw [hp] at hreal
    cases hreal
  | ok directory =>
    obtain rfl := Path.eq_resolve_of_real hp
    rw [hp] at hreal
    cases hfull : Check.full tree site.cwd schema s with
    | error e =>
      rw [hfull] at hreal
      cases hreal
    | ok found =>
      rw [hfull] at hreal
      dsimp only at hreal ⊢
      split_ifs at hreal ⊢ with hstop
      · rw [finish_fst] at hreal ⊢
        cases hreal
        rfl
      · exact doJobs_dry_value hrooted hquiet hreal

/-- No stub directory passes through the output directory and the generation comes to its end, but
a stub that it finds for its second file is not there in a dry run. When the clock goes on, a dry
run has the digest of another file. -/
theorem dry_run_misses_late_stub_and_clock :
    ownStubTree.Rooted ∧
      (∀ dir ∈ (Job.repository plainSite steppingBack).directories,
        ∀ l ∈ (plainSite.cwd.append dir).trail,
          ¬(Path.resolve plainSite.cwd newOutput).place <+: l) ∧
      (∃ r, (ofSchema plainSite {} ownStubTree servedPost steppingBack newOutput).value = .ok r ∧
        (ofSchema plainSite { dryRun := true } ownStubTree servedPost steppingBack
          newOutput).value ≠ .ok { r with dryRun := true }) ∧
      ∃ r, (ofSchema plainSite {} attributesTree datedPost {} newOutput).value = .ok r ∧
        (ofSchema laterSite { dryRun := true } attributesTree datedPost {} newOutput).value ≠
          .ok { r with dryRun := true } := by
  -- The reports are told apart by the digests of their files.
  have hother : ∀ real dry : Result GenerationReport, real.value.isOk = true →
      real.value.toOption.map (fun r => r.files.map (·.digest)) ≠
        dry.value.toOption.map (fun r => r.files.map (·.digest)) →
      ∃ r, real.value = .ok r ∧ dry.value ≠ .ok { r with dryRun := true } := by
    intro real dry hok hdigests
    obtain ⟨r, hr⟩ := exists_ok hok
    refine ⟨r, hr, fun hdry => hdigests ?_⟩
    rw [hr, hdry]
    rfl
  exact ⟨Tree.rooted_of_entries (by decide), by decide +kernel,
    hother _ _ (by decide +kernel) (by decide +kernel),
    hother _ _ (by decide +kernel) (by decide +kernel)⟩

/-- A dry run of a controller and a data object, from the packaged stubs alone. -/
theorem servedPost_dry_run :
    ∃ r, (ofSchema plainSite {} plainTree servedPost {} newOutput).value = .ok r ∧
      (ofSchema plainSite { dryRun := true } plainTree servedPost {} newOutput).tree =
        plainTree ∧
      (ofSchema plainSite { dryRun := true } plainTree servedPost {} newOutput).value =
        .ok { r with dryRun := true } := by
  obtain ⟨r, hr⟩ := exists_servedPost_report
  exact ⟨r, hr, ofSchema_dry_run (Tree.rooted_of_entries (by decide))
    (undisturbed_of_no_up (by decide +kernel)) hr⟩

end Generation

end ApiScaffold
