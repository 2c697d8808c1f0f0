import ApiScaffold.Proofs.Findings
import ApiScaffold.Proofs.JobProgress
import ApiScaffold.Proofs.RenderingFailures
import ApiScaffold.Stub.Packaged

/-!
# Generating files is rendering and storing them

Whatever a generation does, it either stops at the checks, or its files are those that rendering
the schema alone gives, stored in order, and its report has each job either as a file or as
skipped. Doing it once more stores the same files again. What could tell the two apart is a stub
that comes in sight while files are written, and a clock that has gone on.
-/
namespace ApiScaffold

open Text

theorem exists_ok {ε α : Type} {x : Except ε α} (h : x.isOk = true) : ∃ a, x = .ok a := by
  cases x with
  | error e => cases h
  | ok a => exact ⟨a, rfl⟩

theorem exists_ok_of_any {ε α : Type} {x : Except ε α} {p : α → Bool}
    (h : x.toOption.any p = true) : ∃ a, x = .ok a ∧ p a = true := by
  cases x with
  | error e => cases h
  | ok a => exact ⟨a, rfl, h⟩

theorem Path.eq_resolve_of_real {cwd p directory : Path} (h : Path.real cwd p = .ok directory) :
    directory = Path.resolve cwd p := by
  unfold Path.real at h
  split_ifs at h
  cases h
  rfl

namespace Generation

variable {site : Site} {mode : Mode} {tree : Tree} {schema : Schema} {s : Settings}

/-- The emitter that a generation starts with. -/
def emitter (s : Settings) (mode : Mode) (directory : Path) : Emitter :=
  Emitter.start directory s.atomicWrites mode.dryRun

/-- What becomes of the jobs of a checked schema in a tree that may have had files stored over a
base: they come to their outcomes among the files of the base. -/
theorem doJobs_eq {base : Tree} {directory : Path} {ws : List Write} (r : GenerationReport)
    (hrooted : base.Rooted) (hquiet : Undisturbed site s base schema directory)
    (hws : ∀ w ∈ ws, w.path ∈ targets site s base schema directory)
    (hwritten : Written base ws tree)
    (hcalls : ∀ e, (doJobs site mode tree schema s directory r).value ≠ .error (.system e)) :
    (∃ f, Job.outcomes (Job.lookup site s base) s site.now (Job.all schema s) = .error f ∧
        (doJobs site mode tree schema s directory r).value = .error f) ∨
      ∃ outs run, Job.outcomes (Job.lookup site s base) s site.now (Job.all schema s) = .ok outs ∧
        Run.Progress site s base ws (emitter s mode directory) (Job.all schema s)
          (outs.filterMap Job.Outcome.file?) run ∧
        (doJobs site mode tree schema s directory r).tree = run.tree ∧
        (doJobs site mode tree schema s directory r).value =
          .ok (finish mode (jobsReport schema run r)).1 := by
  have hstart : Run.Progress site s base ws (emitter s mode directory) [] []
      { tree, stubs := Job.repository site s, emitter := emitter s mode directory } :=
    Run.Progress.start hwritten
  simp only [doJobs] at hcalls ⊢
  rcases hstart.steps hrooted hquiet rfl hws (List.nil_subset _) (List.Subset.refl _) with
    ⟨run, f, hs, ho⟩ | ⟨outs, run, ho, hs, hprogress⟩
  · simp only [emitter] at hs
    rw [hs] at hcalls ⊢
    rcases ho with ho | ⟨e, rfl⟩
    · exact Or.inl ⟨f, ho, rfl⟩
    · exact absurd rfl (hcalls e)
  · simp only [emitter] at hs
    rw [hs]
    exact Or.inr ⟨outs, run, ho, hprogress, rfl, rfl⟩

theorem finish_fst (mode : Mode) (r : GenerationReport) :
    (finish mode r).1 =
      { r with success := decide (r.generationErrors = [] ∧
          (r.validationErrors = [] ∨ !mode.strict)) } := by
  unfold finish
  simp only
  split_ifs with h
  · rw [decide_eq_true h]
  · rw [decide_eq_false h]

/-- Nothing was written and the report says so. -/
structure Refused (tree : Tree) (result : Result GenerationReport) : Prop where
  tree : result.tree = tree
  report : ∃ r, result.value = .ok r ∧ r.manifest = none ∧ r.success = false

/-- Nothing was written, because the checks failed. -/
structure Halted (tree : Tree) (f : Failure) (result : Result GenerationReport) : Prop where
  tree : result.tree = tree
  value : result.value = .error f

/-- A generation either stops at the checks or does its jobs. -/
theorem ofSchema_cases {output : Path}
    (hcalls : ∀ e, (ofSchema site mode tree schema s output).value ≠ .error (.system e)) :
    match Check.full tree site.cwd schema s with
    | .error f => (∃ m, f = .misuse m ∧ Check.schema schema = .error m) ∧
        Halted tree f (ofSchema site mode tree schema s output)
    | .ok found =>
      if found.isValid = false ∧ mode.strict = true then
        Refused tree (ofSchema site mode tree schema s output)
      else
        ∃ r, r.validationErrors = found.errors.map Finding.text ∧
          (ofSchema site mode tree schema s output).tree =
            (doJobs site mode tree schema s (Path.resolve site.cwd output) r).tree ∧
          (ofSchema site mode tree schema s output).value =
            (doJobs site mode tree schema s (Path.resolve site.cwd output) r).value := by
  simp only [ofSchema, proceed] at hcalls ⊢
  cases hreal : Path.real site.cwd output with
  | error e =>
    rw [hreal] at hcalls
    exact absurd rfl (hcalls e)
  | ok directory =>
    obtain rfl := Path.eq_resolve_of_real hreal
    cases hfull : Check.full tree site.cwd schema s with
    | error f =>
      rw [hreal, hfull] at hcalls
      rcases Check.full_eq_error hfull with ⟨m, rfl, hschema⟩ | ⟨e, rfl⟩
      · exact ⟨⟨m, rfl, hschema⟩, rfl, rfl⟩
      · exact absurd rfl (hcalls e)
    | ok found =>
      simp only [Bool.not_eq_true']
      split_ifs with hstop
      · refine ⟨rfl, _, rfl, by rw [finish_fst], ?_⟩
        have herrors : found.errors ≠ [] := by
          intro hnone
          simp [Report.isValid, hnone] at hstop
        rw [finish_fst]
        simp [hstop.2, herrors]
      · exact ⟨_, rfl, rfl, rfl⟩

/-- The files of a generation and its report are those of the given artifacts: the tree is what
storing them in order makes of the tree before, and each job has a record or a complaint. -/
structure Accomplished (site : Site) (mode : Mode) (tree : Tree) (schema : Schema) (s : Settings)
    (directory : Path) (arts : List Artifact) (result : Result GenerationReport) : Prop where
  contents : ∀ l, result.tree.find? l =
    tree.afterWrites ((emitter s mode directory).writes arts) l
  paths : arts.map (·.path) = (Job.served site s tree (Job.all schema s)).map (Job.path s)
  report : ∃ r m, result.value = .ok r ∧ r.manifest = some m ∧
    m.files = arts.map (emitter s mode directory).record ∧
    r.skipped = (Job.skipped site s tree (Job.all schema s)).map Job.label ∧
    r.generationErrors = (Job.skipped site s tree (Job.all schema s)).map
      (Job.complaint site s) ∧
    (r.success = true ↔ r.skipped = [])

theorem accomplished_of_progress {directory : Path} {arts : List Artifact} {run : Run}
    {found : Report} {r : GenerationReport} {result : Result GenerationReport}
    (h : Run.Progress site s tree [] (emitter s mode directory) (Job.all schema s) arts run)
    (hgo : ¬(found.isValid = false ∧ mode.strict = true))
    (hr : r.validationErrors = found.errors.map Finding.text)
    (htree : result.tree = run.tree)
    (hvalue : result.value = .ok (finish mode (jobsReport schema run r)).1) :
    Accomplished site mode tree schema s directory arts result := by
  refine ⟨?_, h.paths, ?_⟩
  · rw [htree]
    exact h.tree.contents
  · refine ⟨_, run.emitter.manifest, hvalue, ?_, ?_, ?_, ?_, ?_⟩
    · rw [finish_fst]
      rfl
    · rw [h.emitter]
      rfl
    · rw [finish_fst]
      exact h.skipped
    · rw [finish_fst]
      exact h.errors
    · have hvalid : r.validationErrors = [] ∨ mode.strict = false := by
        rw [not_and_or, Bool.not_eq_false, Bool.not_eq_true] at hgo
        refine hgo.imp_left fun hvalid => ?_
        rw [hr, List.map_eq_nil_iff]
        simpa [Report.isValid] using hvalid
      rw [finish_fst]
      simp [jobsReport, h.skipped, h.errors, hvalid]

/-- Done once more, the generation leaves the files as they are, unless the system fails. -/
def Repeatable (site : Site) (mode : Mode) (schema : Schema) (s : Settings) (output : Path)
    (tree : Tree) : Prop :=
  (∀ e, (ofSchema site mode tree schema s output).value ≠ .error (.system e)) →
    ∀ l, (ofSchema site mode tree schema s output).tree.find? l = tree.find? l

theorem repeatable_of_progress {output : Path} {outs : List Job.Outcome} {run : Run}
    {found : Report} (hrooted : tree.Rooted)
    (hquiet : Undisturbed site s tree schema (Path.resolve site.cwd output))
    (hfull : Check.full tree site.cwd schema s = .ok found)
    (hgo : ¬(found.isValid = false ∧ mode.strict = true))
    (ho : Job.outcomes (Job.lookup site s tree) s site.now (Job.all schema s) = .ok outs)
    (h : Run.Progress site s tree [] (emitter s mode (Path.resolve site.cwd output))
      (Job.all schema s) (outs.filterMap Job.Outcome.file?) run) :
    Repeatable site mode schema s output run.tree := by
  intro hcalls l
  have hcases := ofSchema_cases hcalls
  cases hfull' : Check.full run.tree site.cwd schema s with
  | error f =>
    rw [hfull'] at hcases
    obtain ⟨⟨m, -, hschema⟩, -⟩ := hcases
    obtain ⟨onSchema, -, hfine, -⟩ := Check.full_findings hfull
    rw [hschema] at hfine
    cases hfine
  | ok found' =>
  rw [hfull'] at hcases
  dsimp only at hcases
  rw [← Check.full_isValid_congr hfull hfull', if_neg hgo] at hcases
  obtain ⟨r, -, htree, hvalue⟩ := hcases
  rw [hvalue] at hcalls
  -- The files of the first time are those stored before the jobs of the second.
  have hws : ∀ w ∈ (emitter s mode (Path.resolve site.cwd output)).writes
      (outs.filterMap Job.Outcome.file?),
      w.path ∈ targets site s tree schema (Path.resolve site.cwd output) :=
    fun w hw => h.writes_mem rfl (List.Subset.refl _) hw
  rcases doJobs_eq r hrooted hquiet hws h.tree hcalls with
    ⟨f, hf, -⟩ | ⟨outs', run', ho', h', htree', -⟩
  · rw [ho] at hf
    cases hf
  · rw [ho] at ho'
    cases ho'
    rw [htree, htree', h'.tree.contents, h.tree.contents, List.nil_append,
      afterWrites_self_append]

/-- Generating the files of a schema is storing what rendering it gives. The checks only fail for
a value that cannot be written, and rendering for such a value or for a clock that is out of the
calendar. -/
theorem ofSchema_refines_renderSchema {output : Path} (hrooted : tree.Rooted)
    (hcalls : ∀ e, (ofSchema site mode tree schema s output).value ≠ .error (.system e))
    (hstubs : ∀ job ∈ Job.all schema s, ∀ name ∈ job.stubNames s, ∀ e,
      Job.lookup site s tree name ≠ .error (.undecodable e))
    (hquiet : Undisturbed site s tree schema (Path.resolve site.cwd output)) :
    match Check.full tree site.cwd schema s with
    | .error f => f = .misuse .tooLongToWrite ∧
        (∃ e ∈ schema.entities, ∃ c ∈ e.columns, c.HasLongValues) ∧
        Halted tree f (ofSchema site mode tree schema s output)
    | .ok found =>
      if found.isValid = false ∧ mode.strict = true then
        Refused tree (ofSchema site mode tree schema s output)
      else
        match renderSchema site tree schema s with
        | .error f =>
          (f = .misuse .calendarRange ∧ site.now.timestamp? = none ∨
              f = .misuse .tooLongToWrite ∧ ∃ job ∈ Job.all schema s, ∃ c ∈ job.columns,
                c.HasLongClass ∨ c.HasLongValue) ∧
            (ofSchema site mode tree schema s output).value = .error f
        | .ok arts =>
          Accomplished site mode tree schema s (Path.resolve site.cwd output) arts
              (ofSchema site mode tree schema s output) ∧
            Repeatable site mode schema s output
              (ofSchema site mode tree schema s output).tree := by
  have hcases := ofSchema_cases hcalls
  cases hfull : Check.full tree site.cwd schema s with
  | error f =>
    rw [hfull] at hcases
    obtain ⟨⟨m, rfl, hschema⟩, hhalted⟩ := hcases
    obtain ⟨rfl, hlong⟩ := Check.schema_eq_error hschema
    exact ⟨rfl, hlong, hhalted⟩
  | ok found =>
  rw [hfull] at hcases
  dsimp only at hcases ⊢
  split_ifs with hstop
  · rwa [if_pos hstop] at hcases
  rw [if_neg hstop] at hcases
  obtain ⟨r, hr, htree, hvalue⟩ := hcases
  rw [hvalue] at hcalls
  rw [Job.renderSchema_eq]
  rcases doJobs_eq r hrooted hquiet (by simp) (written_nil tree) hcalls with
    ⟨f, ho, hf⟩ | ⟨outs, run, ho, h, hrun, hdone⟩
  · rw [ho]
    refine ⟨?_, hvalue.trans hf⟩
    cases Job.hindered_of_outcomes ho with
    | clock hclock => exact Or.inl ⟨rfl, hclock⟩
    | value hc hlong =>
      obtain ⟨job, hjob, hc⟩ := List.mem_flatMap.mp hc
      exact Or.inr ⟨rfl, job, hjob, _, hc, hlong⟩
    | @stub name err hname hlook =>
      obtain ⟨job, hjob, hmem⟩ := List.mem_flatMap.mp hname
      cases err with
      | system e => exact absurd hf (hcalls e)
      | undecodable e => exact absurd hlook (hstubs job hjob name hmem e)
  · rw [ho]
    refine ⟨accomplished_of_progress h hstop hr (htree.trans hrun) (hvalue.trans hdone), ?_⟩
    rw [htree, hrun]
    exact repeatable_of_progress hrooted hquiet hfull hstop ho h

/-- Files with a stub of one's own beside the packaged ones. -/
def ownStubTree : Tree :=
  { entries := [(["stubs"], .directory), (["stubs", DataFile.classStub], .file []),
      (["stubs", ControllerFile.classStub], .file []), (["own"], .directory),
      (["own", DataFile.classStub], .file [120])] }

/-- A stub directory that is reached through a directory yet to be made. -/
def steppingBack : Settings := { stubPaths := ["new/../own"] }

def servedPost : Schema :=
  { entities := [{ name := "Post" }], controllers := [{ name := "Post", methods := ["index"] }] }

def newOutput : Path := ⟨"", ["new", "out"]⟩

/-- Files with stubs for what is said of the body of a request. -/
def attributesTree : Tree :=
  ⟨[(["stubs"], .directory),
    (["stubs", ControllerFile.classStub], .file (utf8 (Stub.slot "methods"))),
    (["stubs", ControllerFile.methodStub "store"], .file (utf8 (Stub.slot "storeAttributes")))]⟩

/-- A model with a date and a controller that stores it. -/
def datedPost : Schema :=
  { entities := [{ name := "Post", columns := [{ name := "due", dataType := "datetime" }] }],
    controllers := [{ name := "Post", methods := ["store"] }] }

/-- The same place when the clock has gone on. -/
def laterSite : Site := { plainSite with now := { plainSite.now with second := 6 } }

/-- No stub directory passes through the output directory, and still a stub that rendering
alone does not find is found for the second file. When the clock goes on, a second generation
changes a file of the first. -/
theorem late_stub_and_clock_change_files :
    ownStubTree.Rooted ∧
      (∀ dir ∈ (Job.repository plainSite steppingBack).directories,
        ∀ l ∈ (plainSite.cwd.append dir).trail,
          ¬(Path.resolve plainSite.cwd newOutput).place <+: l) ∧
      (∀ e ∈ ownStubTree.entries, ∀ content, e.2 = .file content →
        ∃ text, Text.ofFile content = .ok text) ∧
      (∃ found, Check.full ownStubTree plainSite.cwd servedPost steppingBack = .ok found ∧
        found.isValid = true) ∧
      (∃ r, (ofSchema plainSite {} ownStubTree servedPost steppingBack newOutput).value =
        .ok r) ∧
      (∃ arts, renderSchema plainSite ownStubTree servedPost steppingBack = .ok arts ∧
        ∃ a ∈ arts,
          (ofSchema plainSite {} ownStubTree servedPost steppingBack newOutput).tree.find?
              ((emitter steppingBack {} (Path.resolve plainSite.cwd newOutput)).target
                a.path).place ≠
            some (.file (utf8 a.content))) ∧
      ∃ l, (ofSchema laterSite {}
          (ofSchema plainSite {} attributesTree datedPost {} newOutput).tree datedPost {}
            newOutput).tree.find? l ≠
        (ofSchema plainSite {} attributesTree datedPost {} newOutput).tree.find? l := by
  refine ⟨Tree.rooted_of_entries (by decide), by decide +kernel, ?_,
    ⟨_, rfl, by decide +kernel⟩, exists_ok (by decide +kernel), ⟨_, rfl, by decide +kernel⟩, ?_⟩
  · intro e he content hcontent
    simp only [ownStubTree, List.mem_cons, List.not_mem_nil, or_false] at he
    rcases he with rfl | rfl | rfl | rfl | rfl <;> cases hcontent <;> exact ⟨_, rfl⟩
  · exact ⟨((emitter {} {} (Path.resolve plainSite.cwd newOutput)).target
      "app/Http/Controllers/Api/PostController.php").place, by decide +kernel⟩

theorem exists_servedPost_report :
    ∃ r, (ofSchema plainSite {} plainTree servedPost {} newOutput).value = .ok r :=
  exists_ok (by decide +kernel)

/-- A generation with a controller and a data object, from the packaged stubs alone. -/
theorem servedPost_refines :
    ∃ arts, renderSchema plainSite plainTree servedPost {} = .ok arts ∧
      Accomplished plainSite {} plainTree servedPost {} (Path.resolve plainSite.cwd newOutput)
        arts (ofSchema plainSite {} plainTree servedPost {} newOutput) ∧
      Repeatable plainSite {} servedPost {} newOutput
        (ofSchema plainSite {} plainTree servedPost {} newOutput).tree := by
  obtain ⟨r, hr⟩ := exists_servedPost_report
  obtain ⟨arts, harts⟩ : ∃ arts, renderSchema plainSite plainTree servedPost {} = .ok arts :=
    exists_ok (by decide +kernel)
  have hlookups : ∀ job ∈ Job.all servedPost {}, ∀ name ∈ job.stubNames {},
      (Job.lookup plainSite {} plainTree name).isOk = true := by decide +kernel
  obtain ⟨found, hfull, hvalid⟩ : ∃ found, Check.full plainTree plainSite.cwd servedPost {} =
      .ok found ∧ found.isValid = true := ⟨_, rfl, by decide +kernel⟩
  have hcases := ofSchema_refines_renderSchema
    (Tree.rooted_of_entries (t := plainTree) (by decide))
    (fun e he => by rw [hr] at he; cases he)
    (fun job hjob name hname e he => by
      have hok := hlookups job hjob name hname
      rw [he] at hok
      cases hok)
    (undisturbed_of_no_up (by decide +kernel))
  rw [hfull] at hcases
  dsimp only at hcases
  rw [if_neg (by simp [hvalid]), harts] at hcases
  exact ⟨arts, harts, hcases⟩

end Generation

end ApiScaffold
