import ApiScaffold.Generation.Run
import ApiScaffold.Proofs.StubLookups

/-!
# The jobs of a generation, one after the other

A generation renders one file after the other and writes each before it renders the next. The
invariant of its jobs says that the tree is what storing the files so far makes of the tree at
the start, that the stubs remembered are those of the start, and that the report has each job
either as a file or as skipped. It holds for any files stored before, so it also describes a
generation that is done once more.
-/
namespace ApiScaffold

open Text

namespace Emitter

/-- The files that an emitter stores for artifacts: none in a dry run. -/
def writes (em : Emitter) (arts : List Artifact) : List Write :=
  if em.dryRun then [] else arts.map fun a => ⟨em.target a.path, utf8 a.content⟩

/-- The emitter after some artifacts were written. -/
def noteFiles (em : Emitter) (arts : List Artifact) : Emitter :=
  { em with manifest := { em.manifest with files := em.manifest.files ++ arts.map em.record } }

theorem noteFiles_nil (em : Emitter) : em.noteFiles [] = em := by
  simp [noteFiles]

theorem noteFile_noteFiles (em : Emitter) (arts : List Artifact) (a : Artifact) :
    (em.noteFiles arts).noteFile a = em.noteFiles (arts ++ [a]) := by
  simp [noteFile, noteFiles, record, target]

theorem writes_nil (em : Emitter) : em.writes [] = [] := by
  unfold writes
  split_ifs <;> rfl

theorem writes_concat (em : Emitter) (arts : List Artifact) (a : Artifact) :
    em.writes (arts ++ [a]) = em.writes arts ++ em.writes [a] := by
  unfold writes
  split_ifs <;> simp

/-- Emitting an artifact stores its file and notes it, unless the system fails. -/
theorem emit_written (em : Emitter) {base t : Tree} {ws : List Write} (h : Written base ws t)
    (a : Artifact) :
    (∃ t' e, em.emit t a = (t', .error e)) ∨
      ∃ t', em.emit t a = (t', .ok (em.noteFile a)) ∧ Written base (ws ++ em.writes [a]) t' := by
  unfold emit writes
  split_ifs
  · exact Or.inr ⟨t, rfl, by rwa [List.append_nil]⟩
  · rcases hs : store em.atomic t (em.target a.path) (utf8 a.content) with ⟨t', e | u⟩
    · exact Or.inl ⟨t', e, rfl⟩
    · exact Or.inr ⟨t', rfl, h.concat (stored_of_store hs)⟩

end Emitter

namespace Job

/-- Where the file of a job is put. -/
def target (directory : Path) (s : Settings) (job : Job) : Path :=
  directory.append (.ofText (job.path s))

/-- What a report says of a job without its class stub. -/
def complaint (site : Site) (s : Settings) (job : Job) : Text :=
  job.label ++ ": " ++ (repository site s).missingMessage job.classStub

end Job

namespace Generation

/-- The files that a generation comes to write. -/
def targets (site : Site) (s : Settings) (tree : Tree) (schema : Schema) (directory : Path) :
    List Path :=
  (Job.served site s tree (Job.all schema s)).map (Job.target directory s)

/-- No lookup of a stub goes up from a directory that the generation makes. -/
def Undisturbed (site : Site) (s : Settings) (tree : Tree) (schema : Schema)
    (directory : Path) : Prop :=
  ∀ job ∈ Job.all schema s, ∀ name ∈ job.stubNames s,
    ∀ dir ∈ (Job.repository site s).directories,
      tree.StaysOut (targets site s tree schema directory)
        (site.cwd.append (dir.append (.ofText name)))

theorem undisturbed_of_no_up {site : Site} {s : Settings} {tree : Tree}
    {schema : Schema} {directory : Path}
    (h : ∀ job ∈ Job.all schema s, ∀ name ∈ job.stubNames s,
      ∀ dir ∈ (Job.repository site s).directories,
        (".." : Text) ∉ (site.cwd.append (dir.append (.ofText name))).parts) :
    Undisturbed site s tree schema directory := by
  intro job hjob name hname dir hdir front rest hparts _ _ hmem
  refine h job hjob name hname dir hdir ?_
  rw [hparts]
  exact List.mem_append_right front hmem

end Generation

/-- Where the jobs of a generation stand after some of them. The tree at the start may have had
files stored over a base before. -/
structure Run.Progress (site : Site) (s : Settings) (base : Tree) (ws : List Write)
    (em : Emitter) (done : List Job) (arts : List Artifact) (run : Run) : Prop where
  directories : run.stubs.directories = (Job.repository site s).directories
  remembered : ∀ entry ∈ run.stubs.found, Job.lookup site s base entry.1 = .ok entry.2
  emitter : run.emitter = em.noteFiles arts
  tree : Written base (ws ++ em.writes arts) run.tree
  paths : arts.map (·.path) = (Job.served site s base done).map (Job.path s)
  skipped : run.skipped = (Job.skipped site s base done).map Job.label
  errors : run.errors = (Job.skipped site s base done).map (Job.complaint site s)

namespace Run

variable {site : Site} {s : Settings} {schema : Schema} {base : Tree} {directory : Path}
  {ws : List Write} {em : Emitter} {done : List Job} {arts : List Artifact} {run : Run}

/-- A run that starts among the written files has done no job yet. -/
theorem Progress.start {t : Tree} (hwritten : Written base ws t) :
    Progress site s base ws em [] []
      { tree := t, stubs := Job.repository site s, emitter := em } where
  directories := rfl
  remembered := by simp [Job.repository]
  emitter := em.noteFiles_nil.symm
  tree := by rwa [em.writes_nil, List.append_nil]
  paths := rfl
  skipped := rfl
  errors := rfl

theorem Progress.follows (h : Progress site s base ws em done arts run) (hrooted : base.Rooted)
    (hquiet : Generation.Undisturbed site s base schema directory)
    (hws : ∀ w ∈ ws ++ em.writes arts, w.path ∈ Generation.targets site s base schema directory) :
    run.stubs.Follows (Job.lookup site s base)
      (fun name => ∃ job ∈ Job.all schema s, name ∈ job.stubNames s)
      (fun err => ∃ e, err = .system e) run.tree site.cwd := by
  refine ⟨h.remembered, fun name ⟨job, hjob, hname⟩ => ?_⟩
  have hread : (Job.repository site s).read run.tree site.cwd name =
        Job.lookup site s base name ∨
      ∃ e, (Job.repository site s).read run.tree site.cwd name = .error (.system e) := by
    refine Stub.Repository.read_of_keeps fun dir hdir => ?_
    refine Tree.keeps_stat h.tree hrooted hws (fun f hf => ?_) (hquiet job hjob name hname dir hdir)
    obtain ⟨other, -, rfl⟩ := List.mem_map.mp hf
    exact place_ne_of_endsIn (Job.path_endsIn s directory other) (Job.stub_endsIn hname _ _)
  rw [Stub.Repository.read_congr_directories h.directories]
  rcases hread with hsame | ⟨e, he⟩
  · exact Or.inl hsame
  · exact Or.inr ⟨_, ⟨e, rfl⟩, he⟩

theorem Progress.writes_mem (h : Progress site s base ws em done arts run)
    (hem : em.directory = directory) (hdone : done ⊆ Job.all schema s) {w : Write}
    (hw : w ∈ em.writes arts) : w.path ∈ Generation.targets site s base schema directory := by
  unfold Emitter.writes at hw
  split_ifs at hw
  · cases hw
  · obtain ⟨a, ha, rfl⟩ := List.mem_map.mp hw
    have hpath : a.path ∈ (Job.served site s base done).map (Job.path s) :=
      h.paths ▸ List.mem_map_of_mem ha
    obtain ⟨job, hjob, heq⟩ := List.mem_map.mp hpath
    have hall : job ∈ Job.served site s base (Job.all schema s) :=
      Job.mem_served.mpr ⟨hdone (Job.mem_served.mp hjob).1, (Job.mem_served.mp hjob).2⟩
    refine List.mem_map.mpr ⟨job, hall, ?_⟩
    rw [Job.target, heq, Emitter.target, hem]

/-- A job that lacks its stub is set aside. -/
theorem Progress.skip (h : Progress site s base ws em done arts run) {job : Job} {stub : Text}
    (ho : job.outcome (Job.lookup site s base) s site.now = .ok (.lacking stub))
    {stubs : Stub.Repository} (hd : stubs.directories = run.stubs.directories)
    (hfound : ∀ entry ∈ stubs.found, Job.lookup site s base entry.1 = .ok entry.2)
    (said : List Log.Entry) :
    Progress site s base ws em (done ++ [job]) arts
      ({ run with log := said }.skip job stub stubs) := by
  have hfinds := Job.finds_of_lacking ho
  have hserved : Job.served site s base (done ++ [job]) = Job.served site s base done := by
    simp [Job.served, hfinds]
  have hskipped : Job.skipped site s base (done ++ [job]) =
      Job.skipped site s base done ++ [job] := by
    simp [Job.skipped, hfinds]
  have hmessage : stubs.missingMessage stub =
      (Job.repository site s).missingMessage job.classStub := by
    rw [(Job.outcome_lacking ho).1]
    exact Stub.Repository.missingMessage_congr (hd.trans h.directories) _
  exact {
    directories := hd.trans h.directories
    remembered := hfound
    emitter := h.emitter
    tree := h.tree
    paths := by rw [hserved, h.paths]
    skipped := by
      rw [hskipped, List.map_append, ← h.skipped]
      rfl
    errors := by
      rw [hskipped, List.map_append, ← h.errors, List.map_singleton, Job.complaint, ← hmessage]
      rfl }

/-- A job that made a file goes on with the list of files. -/
theorem Progress.make (h : Progress site s base ws em done arts run) {job : Job} {a : Artifact}
    (ho : job.outcome (Job.lookup site s base) s site.now = .ok (.made a))
    {stubs : Stub.Repository} (hd : stubs.directories = run.stubs.directories)
    (hfound : ∀ entry ∈ stubs.found, Job.lookup site s base entry.1 = .ok entry.2)
    {t : Tree} (ht : Written base (ws ++ em.writes arts ++ em.writes [a]) t)
    (said : List Log.Entry) :
    Progress site s base ws em (done ++ [job]) (arts ++ [a])
      { run with tree := t, stubs, emitter := run.emitter.noteFile a, log := said } := by
  have hfinds := Job.finds_of_made ho
  have hserved : Job.served site s base (done ++ [job]) =
      Job.served site s base done ++ [job] := by
    simp [Job.served, hfinds]
  have hskipped : Job.skipped site s base (done ++ [job]) = Job.skipped site s base done := by
    simp [Job.skipped, hfinds]
  exact {
    directories := hd.trans h.directories
    remembered := hfound
    emitter := by
      rw [h.emitter]
      exact em.noteFile_noteFiles arts a
    tree := by rwa [em.writes_concat, ← List.append_assoc]
    paths := by
      rw [hserved, List.map_append, List.map_append, h.paths, List.map_singleton,
        List.map_singleton, (Job.outcome_made ho).1]
    skipped := by rw [hskipped, ← h.skipped]
    errors := by rw [hskipped, ← h.errors] }

/-- A job comes to its outcome and keeps an invariant, unless it fails with an error that is
excused. -/
def StepsTo (site : Site) (s : Settings) (look : Lookup) (excused : Failure → Prop)
    (inv : List Job → List Artifact → Run → Prop) (done : List Job) (arts : List Artifact)
    (run : Run) (job : Job) : Prop :=
  (∃ run' f, run.step site s job = (run', .error f) ∧
      (job.outcome look s site.now = .error f ∨ excused f)) ∨
    ∃ o run', job.outcome look s site.now = .ok o ∧ run.step site s job = (run', .ok ()) ∧
      inv (done ++ [job]) (arts ++ o.file?.toList) run'

/-- What every job keeps is kept by jobs in order, up to the first failure. -/
theorem steps_of_stepsTo {look : Lookup} {excused : Failure → Prop}
    {inv : List Job → List Artifact → Run → Prop} {jobs : List Job}
    (hstep : ∀ done arts run, ∀ job ∈ jobs, inv done arts run →
      StepsTo site s look excused inv done arts run job) (h : inv done arts run) :
    (∃ run' f, Run.steps site s run jobs = (run', .error f) ∧
        (Job.outcomes look s site.now jobs = .error f ∨ excused f)) ∨
      ∃ outs run', Job.outcomes look s site.now jobs = .ok outs ∧
        Run.steps site s run jobs = (run', .ok ()) ∧
        inv (done ++ jobs) (arts ++ outs.filterMap Job.Outcome.file?) run' := by
  induction jobs generalizing run done arts with
  | nil =>
    refine Or.inr ⟨[], run, rfl, rfl, ?_⟩
    rwa [List.filterMap_nil, List.append_nil, List.append_nil]
  | cons job rest ih =>
    obtain ⟨hjob, hrest⟩ : _ ∧ ∀ done arts run, ∀ job ∈ rest, inv done arts run →
        StepsTo site s look excused inv done arts run job :=
      ⟨hstep done arts run job List.mem_cons_self h, fun done arts run job hmem =>
        hstep done arts run job (List.mem_cons_of_mem _ hmem)⟩
    rw [Run.steps, Job.outcomes]
    rcases hjob with ⟨run₁, f, hs, ho⟩ | ⟨o, run₁, ho, hs, h₁⟩
    · rw [hs]
      refine Or.inl ⟨run₁, f, rfl, ho.imp (fun ho => ?_) id⟩
      rw [ho]
    rw [hs, ho]
    rcases ih hrest h₁ with ⟨run₂, f, hs₂, ho₂⟩ | ⟨outs, run₂, ho₂, hs₂, h₂⟩
    · refine Or.inl ⟨run₂, f, hs₂, ho₂.imp (fun ho₂ => ?_) id⟩
      rw [ho₂]
      rfl
    · refine Or.inr ⟨o :: outs, run₂, by rw [ho₂]; rfl, hs₂, ?_⟩
      have hfiles : arts ++ (o :: outs).filterMap Job.Outcome.file? =
          arts ++ o.file?.toList ++ outs.filterMap Job.Outcome.file? := by
        cases o <;> simp [List.filterMap_cons]
      rw [hfiles, ← List.singleton_append, ← List.append_assoc]
      exact h₂

section
variable (hrooted : base.Rooted) (hquiet : Generation.Undisturbed site s base schema directory)
  (hem : em.directory = directory)
  (hws : ∀ w ∈ ws, w.path ∈ Generation.targets site s base schema directory)
include hrooted hquiet hem hws

/-- A job comes to its outcome among the files of the base, unless the system fails. -/
theorem Progress.step (h : Progress site s base ws em done arts run)
    (hdone : done ⊆ Job.all schema s) {job : Job} (hjob : job ∈ Job.all schema s) :
    (∃ run' f, run.step site s job = (run', .error f) ∧
        (job.outcome (Job.lookup site s base) s site.now = .error f ∨ ∃ e, f = .system e)) ∨
      ∃ o run', job.outcome (Job.lookup site s base) s site.now = .ok o ∧
        run.step site s job = (run', .ok ()) ∧
        Progress site s base ws em (done ++ [job]) (arts ++ o.file?.toList) run' := by
  have hwrites : ∀ w ∈ ws ++ em.writes arts,
      w.path ∈ Generation.targets site s base schema directory := by
    intro w hw
    rcases List.mem_append.mp hw with hw | hw
    · exact hws w hw
    · exact h.writes_mem hem hdone hw
  have hfollows := h.follows hrooted hquiet hwrites
  unfold Run.step
  rcases Job.render_eq hfollows (fun n hn => ⟨job, hjob, hn⟩) with
    ⟨f, hr, ho⟩ | ⟨o, stubs, ho, hr, hd, hnext⟩
  · rw [hr]
    refine Or.inl ⟨_, f, rfl, ho.imp id ?_⟩
    rintro ⟨_, ⟨e, rfl⟩, rfl⟩
    exact ⟨e, rfl⟩
  rw [hr]
  cases o with
  | lacking stub =>
    refine Or.inr ⟨_, _, ho, rfl, ?_⟩
    rw [Job.Outcome.file?_lacking, Option.toList_none, List.append_nil]
    exact h.skip ho hd hnext.remembered _
  | made a =>
    rcases run.emitter.emit_written h.tree a with ⟨t', e, he⟩ | ⟨t', he, hwritten⟩
    · simp only [he]
      exact Or.inl ⟨_, _, rfl, Or.inr ⟨e, rfl⟩⟩
    · simp only [he]
      refine Or.inr ⟨_, _, ho, rfl, ?_⟩
      rw [h.emitter] at hwritten
      exact h.make ho hd hnext.remembered hwritten _

/-- Jobs come to their outcomes among the files of the base, up to the first failure. -/
theorem Progress.steps (h : Progress site s base ws em done arts run)
    (hdone : done ⊆ Job.all schema s) {jobs : List Job} (hjobs : jobs ⊆ Job.all schema s) :
    (∃ run' f, Run.steps site s run jobs = (run', .error f) ∧
        (Job.outcomes (Job.lookup site s base) s site.now jobs = .error f ∨
          ∃ e, f = .system e)) ∨
      ∃ outs run', Job.outcomes (Job.lookup site s base) s site.now jobs = .ok outs ∧
        Run.steps site s run jobs = (run', .ok ()) ∧
        Progress site s base ws em (done ++ jobs) (arts ++ outs.filterMap Job.Outcome.file?)
          run' := by
  have hstep : ∀ done arts run, ∀ job ∈ jobs,
      done ⊆ Job.all schema s ∧ Progress site s base ws em done arts run →
      StepsTo site s (Job.lookup site s base) (fun f => ∃ e, f = .system e)
        (fun done arts run => done ⊆ Job.all schema s ∧ Progress site s base ws em done arts run)
        done arts run job := by
    intro done arts run job hmem ⟨hdone, h⟩
    refine (h.step hrooted hquiet hem hws hdone (hjobs hmem)).imp_right ?_
    rintro ⟨o, run', ho, hs, h'⟩
    have hjob := List.cons_subset.mpr ⟨hjobs hmem, List.nil_subset (Job.all schema s)⟩
    exact ⟨o, run', ho, hs, List.append_subset.mpr ⟨hdone, hjob⟩, h'⟩
  refine (steps_of_stepsTo hstep ⟨hdone, h⟩).imp_right ?_
  rintro ⟨outs, run', ho, hs, -, h'⟩
  exact ⟨outs, run', ho, hs, h'⟩

end

end Run

end ApiScaffold
